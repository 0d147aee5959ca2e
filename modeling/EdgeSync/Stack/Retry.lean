/-
  Stack/Retry.lean --- the backoff policy (`edgesync_retry.h/.c`).

  The loop of `edgesync_retry_compute_delay_ms` multiplies a 64-bit base until it
  meets the cap.  Randomness is an argument, as it is in the source.  The delay is
  the power it is meant to be (`backoff_exact`): a base is multiplied only while it
  is below the cap, so no product leaves 64 bits, and the base at least doubles, so
  32 products reach any cap.
-/
import Mathlib.Algebra.Order.Monoid.Unbundled.Pow
import Mathlib.Tactic.Ring

set_option autoImplicit false

namespace EdgeSync

/-- `edgesync_retry_config_t`. -/
structure EdgesyncRetryConfig where
  initialDelayMs : UInt32
  maxDelayMs : UInt32
  multiplier : UInt32
  jitter : Bool
  maxAttempts : UInt32
  deriving DecidableEq, Repr

namespace EdgesyncRetryConfig

variable (cfg : EdgesyncRetryConfig)

/-- `edgesync_retry_apply_defaults`. -/
def applyDefaults (defaultInitialMs defaultMaxMs defaultMultiplier : UInt32) :
    EdgesyncRetryConfig :=
  { cfg with
    initialDelayMs := if cfg.initialDelayMs = 0 then defaultInitialMs else cfg.initialDelayMs
    maxDelayMs := if cfg.maxDelayMs = 0 then defaultMaxMs else cfg.maxDelayMs
    multiplier := if cfg.multiplier < 2 then defaultMultiplier else cfg.multiplier }

/-- The loop of `edgesync_retry_compute_delay_ms`: at most `n` more turns.  It leaves its
base, and says which bases it has multiplied. -/
def growLoop : Nat → UInt64 → UInt64 × List UInt64
  | 0, base => (base, [])
  | n + 1, base =>
      if cfg.maxDelayMs.toUInt64 ≤ base then (cfg.maxDelayMs.toUInt64, [])
      else
        let rest := growLoop n (base * cfg.multiplier.toUInt64)
        (rest.1, base :: rest.2)

/-- The base after the loop. -/
def growBase (n : Nat) (base : UInt64) : UInt64 :=
  (cfg.growLoop n base).1

/-- The bases that the loop multiplies, in order. -/
def multiplied (n : Nat) (base : UInt64) : List UInt64 :=
  (cfg.growLoop n base).2

/-- The delay without jitter. -/
def baseDelay (attemptCount : UInt32) : UInt64 :=
  let base := cfg.growBase (attemptCount.toNat - 1) cfg.initialDelayMs.toUInt64
  if cfg.maxDelayMs.toUInt64 < base then cfg.maxDelayMs.toUInt64 else base

/-- `edgesync_retry_compute_delay_ms`. -/
def computeDelayMs (attemptCount randomU32 : UInt32) : UInt32 :=
  if attemptCount = 0 then 0
  else
    let base := cfg.baseDelay attemptCount
    if cfg.jitter = false ∨ base = 0 then base.toUInt32
    else
      let half := base / 2
      let jittered := half + randomU32.toUInt64 % (half + 1)
      (if cfg.maxDelayMs.toUInt64 < jittered then cfg.maxDelayMs.toUInt64 else jittered).toUInt32

/-- `edgesync_retry_should_retry`. -/
def shouldRetry (attemptCount : UInt32) : Bool :=
  if cfg.maxAttempts = 0 then true else attemptCount < cfg.maxAttempts

/-! ## The cap -/

theorem baseDelay_le (attemptCount : UInt32) :
    (cfg.baseDelay attemptCount).toNat ≤ cfg.maxDelayMs.toNat := by
  unfold baseDelay
  simp only
  split
  · exact Nat.le_of_eq (UInt32.toNat_toUInt64 _)
  · rename_i h
    have hle := UInt64.not_lt.mp h
    rwa [UInt64.le_iff_toNat_le, UInt32.toNat_toUInt64] at hle

/-- A value up to the cap keeps its number in 32 bits. -/
theorem toUInt32_le {x : UInt64} (h : x.toNat ≤ cfg.maxDelayMs.toNat) :
    x.toUInt32.toNat ≤ cfg.maxDelayMs.toNat := by
  rw [UInt64.toNat_toUInt32]
  exact Nat.le_trans (Nat.mod_le _ _) h

/-- No delay is longer than `max_delay_ms`. -/
theorem computeDelayMs_le (attemptCount randomU32 : UInt32) :
    (cfg.computeDelayMs attemptCount randomU32).toNat ≤ cfg.maxDelayMs.toNat := by
  unfold computeDelayMs
  split
  · exact Nat.zero_le _
  · simp only
    split
    · exact cfg.toUInt32_le (cfg.baseDelay_le attemptCount)
    · refine cfg.toUInt32_le ?_
      split
      · exact Nat.le_of_eq (UInt32.toNat_toUInt64 _)
      · rename_i h
        have hle := UInt64.not_lt.mp h
        rwa [UInt64.le_iff_toNat_le, UInt32.toNat_toUInt64] at hle

/-! ## The closed form -/

/-- The documented delay, in unbounded numbers:
`min(max_delay_ms, initial_delay_ms * multiplier^(attempt_count-1))`. -/
def backoff (attemptCount : UInt32) : Nat :=
  if attemptCount = 0 then 0
  else min cfg.maxDelayMs.toNat
    (cfg.initialDelayMs.toNat * cfg.multiplier.toNat ^ (attemptCount.toNat - 1))

variable {cfg}

/-- A base below the cap is multiplied without overflow. -/
theorem toNat_mul_multiplier {base : UInt64} (h : base.toNat < cfg.maxDelayMs.toNat) :
    base.toNat * cfg.multiplier.toNat < 2 ^ 64 ∧
      (base * cfg.multiplier.toUInt64).toNat = base.toNat * cfg.multiplier.toNat := by
  have hmax := cfg.maxDelayMs.toNat_lt
  have hmult := cfg.multiplier.toNat_lt
  have hprod : base.toNat * cfg.multiplier.toNat < 2 ^ 64 := by
    calc base.toNat * cfg.multiplier.toNat
        ≤ base.toNat * 2 ^ 32 := Nat.mul_le_mul_left _ (Nat.le_of_lt hmult)
      _ < 2 ^ 32 * 2 ^ 32 := (Nat.mul_lt_mul_right (by decide)).mpr (by omega)
      _ = 2 ^ 64 := by decide
  refine ⟨hprod, ?_⟩
  rw [UInt64.toNat_mul, UInt32.toNat_toUInt64, Nat.mod_eq_of_lt hprod]

theorem le_iff_toNat {base : UInt64} :
    cfg.maxDelayMs.toUInt64 ≤ base ↔ cfg.maxDelayMs.toNat ≤ base.toNat := by
  rw [UInt64.le_iff_toNat_le, UInt32.toNat_toUInt64]

/-- A turn of the loop that meets the cap is its last, and multiplies nothing. -/
theorem growLoop_capped {base : UInt64} (n : Nat) (hcap : cfg.maxDelayMs.toNat ≤ base.toNat) :
    cfg.growLoop (n + 1) base = (cfg.maxDelayMs.toUInt64, []) := by
  rw [growLoop, if_pos (le_iff_toNat.mpr hcap)]

/-- Any other turn multiplies its base, once. -/
theorem growLoop_below {base : UInt64} (n : Nat) (hcap : base.toNat < cfg.maxDelayMs.toNat) :
    cfg.growLoop (n + 1) base =
      (cfg.growBase n (base * cfg.multiplier.toUInt64),
        base :: cfg.multiplied n (base * cfg.multiplier.toUInt64)) := by
  rw [growLoop, if_neg fun hle => Nat.not_le.mpr hcap (le_iff_toNat.mp hle)]
  rfl

/-- The loop invariant: what is left of the loop makes the power that is left. -/
theorem growBase_eq (hmult : 1 ≤ cfg.multiplier.toNat) (n : Nat) (base : UInt64) :
    min cfg.maxDelayMs.toNat (cfg.growBase n base).toNat =
      min cfg.maxDelayMs.toNat (base.toNat * cfg.multiplier.toNat ^ n) := by
  induction n generalizing base with
  | zero => rw [growBase, growLoop, Nat.pow_zero, Nat.mul_one]
  | succ n ih =>
    rw [growBase]
    by_cases hcap : cfg.maxDelayMs.toNat ≤ base.toNat
    · -- the cap is met, and the power does not come back below it
      have hpow : base.toNat ≤ base.toNat * cfg.multiplier.toNat ^ (n + 1) :=
        Nat.le_mul_of_pos_right _ (Nat.pow_pos hmult)
      rw [growLoop_capped n hcap, UInt32.toNat_toUInt64]
      omega
    · rw [growLoop_below n (Nat.not_le.mp hcap), ih,
        (toNat_mul_multiplier (Nat.not_le.mp hcap)).2, Nat.pow_succ]
      congr 1
      ring

theorem baseDelay_eq (hmult : 1 ≤ cfg.multiplier.toNat) (attemptCount : UInt32) :
    (cfg.baseDelay attemptCount).toNat = min cfg.maxDelayMs.toNat
      (cfg.initialDelayMs.toNat * cfg.multiplier.toNat ^ (attemptCount.toNat - 1)) := by
  have hgrow := growBase_eq hmult (attemptCount.toNat - 1) cfg.initialDelayMs.toUInt64
  rw [UInt32.toNat_toUInt64] at hgrow
  rw [← hgrow, baseDelay]
  split
  · rename_i h
    rw [UInt64.lt_iff_toNat_lt, UInt32.toNat_toUInt64] at h
    rw [UInt32.toNat_toUInt64]
    omega
  · rename_i h
    rw [UInt64.lt_iff_toNat_lt, UInt32.toNat_toUInt64] at h
    omega

theorem toNat_toUInt32_of_le {x : UInt64} (h : x.toNat ≤ cfg.maxDelayMs.toNat) :
    x.toUInt32.toNat = x.toNat := by
  have hmax := cfg.maxDelayMs.toNat_lt
  rw [UInt64.toNat_toUInt32, Nat.mod_eq_of_lt (by omega)]

theorem computeDelayMs_plain (hmult : 1 ≤ cfg.multiplier.toNat) (hjitter : cfg.jitter = false)
    (attemptCount randomU32 : UInt32) :
    (cfg.computeDelayMs attemptCount randomU32).toNat = cfg.backoff attemptCount := by
  unfold computeDelayMs backoff
  by_cases hzero : attemptCount = 0
  · rw [if_pos hzero, if_pos hzero]
    rfl
  · rw [if_neg hzero, if_neg hzero]
    simp only
    rw [if_pos (.inl hjitter), toNat_toUInt32_of_le (cfg.baseDelay_le attemptCount),
      baseDelay_eq hmult]

/-- Half of the delay is fixed, at most the other half is random. -/
theorem computeDelayMs_jitter (hmult : 1 ≤ cfg.multiplier.toNat)
    (attemptCount randomU32 : UInt32) :
    cfg.backoff attemptCount / 2 ≤ (cfg.computeDelayMs attemptCount randomU32).toNat ∧
      (cfg.computeDelayMs attemptCount randomU32).toNat ≤ cfg.backoff attemptCount := by
  have hcap := cfg.baseDelay_le attemptCount
  unfold computeDelayMs backoff
  by_cases hzero : attemptCount = 0
  · rw [if_pos hzero, if_pos hzero]
    exact ⟨Nat.le_refl _, Nat.le_refl _⟩
  · rw [if_neg hzero, if_neg hzero, ← baseDelay_eq hmult]
    simp only
    by_cases hplain : cfg.jitter = false ∨ cfg.baseDelay attemptCount = 0
    · rw [if_pos hplain, toNat_toUInt32_of_le hcap]
      omega
    · have hmax := cfg.maxDelayMs.toNat_lt
      have hhalf : (cfg.baseDelay attemptCount / 2).toNat =
          (cfg.baseDelay attemptCount).toNat / 2 := UInt64.toNat_div _ _
      have hsucc : (cfg.baseDelay attemptCount / 2 + 1).toNat =
          (cfg.baseDelay attemptCount).toNat / 2 + 1 := by
        rw [UInt64.toNat_add, hhalf, UInt64.toNat_one, Nat.mod_eq_of_lt (by omega)]
      have hrand : (randomU32.toUInt64 % (cfg.baseDelay attemptCount / 2 + 1)).toNat ≤
          (cfg.baseDelay attemptCount).toNat / 2 := by
        rw [UInt64.toNat_mod, hsucc]
        exact Nat.le_of_lt_succ (Nat.mod_lt _ (by omega))
      have hsum : (cfg.baseDelay attemptCount / 2 +
          randomU32.toUInt64 % (cfg.baseDelay attemptCount / 2 + 1)).toNat =
          (cfg.baseDelay attemptCount).toNat / 2 +
            (randomU32.toUInt64 % (cfg.baseDelay attemptCount / 2 + 1)).toNat := by
        rw [UInt64.toNat_add, hhalf, Nat.mod_eq_of_lt (by omega)]
      have hbelow : ¬ cfg.maxDelayMs.toUInt64 < cfg.baseDelay attemptCount / 2 +
          randomU32.toUInt64 % (cfg.baseDelay attemptCount / 2 + 1) := by
        rw [UInt64.lt_iff_toNat_lt, UInt32.toNat_toUInt64, hsum]
        omega
      rw [if_neg hplain, if_neg hbelow,
        @toNat_toUInt32_of_le cfg _ (by rw [hsum]; omega), hsum]
      omega

theorem backoff_mono (hmult : 1 ≤ cfg.multiplier.toNat) {a b : UInt32} (h : a ≤ b) :
    cfg.backoff a ≤ cfg.backoff b := by
  rw [UInt32.le_iff_toNat_le] at h
  unfold backoff
  by_cases ha : a = 0
  · rw [if_pos ha]
    exact Nat.zero_le _
  · have hb : b ≠ 0 := by
      rintro rfl
      exact ha (UInt32.toNat_inj.mp (Nat.le_zero.mp h))
    rw [if_neg ha, if_neg hb]
    have hpow : cfg.multiplier.toNat ^ (a.toNat - 1) ≤ cfg.multiplier.toNat ^ (b.toNat - 1) :=
      Nat.pow_le_pow_right hmult (by omega)
    have hprod := Nat.mul_le_mul_left cfg.initialDelayMs.toNat hpow
    omega

/-- Only bases below the cap are multiplied. -/
theorem multiplied_lt {n : Nat} {base b : UInt64} (h : b ∈ cfg.multiplied n base) :
    b.toNat < cfg.maxDelayMs.toNat := by
  induction n generalizing base with
  | zero => exact absurd h List.not_mem_nil
  | succ n ih =>
    rw [multiplied] at h
    by_cases hcap : cfg.maxDelayMs.toNat ≤ base.toNat
    · rw [growLoop_capped n hcap] at h
      exact absurd h List.not_mem_nil
    · rw [growLoop_below n (Nat.not_le.mp hcap)] at h
      rcases List.mem_cons.mp h with rfl | h
      · exact Nat.not_le.mp hcap
      · exact ih h

/-- A base that is at least doubled reaches the cap after as many steps as the cap
has binary digits above it. -/
theorem length_multiplied {n k : Nat} {base : UInt64} (hmult : 2 ≤ cfg.multiplier.toNat)
    (h : cfg.maxDelayMs.toNat ≤ base.toNat * 2 ^ k) : (cfg.multiplied n base).length ≤ k := by
  induction n generalizing base k with
  | zero => exact Nat.zero_le _
  | succ n ih =>
    rw [multiplied]
    by_cases hcap : cfg.maxDelayMs.toNat ≤ base.toNat
    · rw [growLoop_capped n hcap]
      exact Nat.zero_le _
    · have hlt : base.toNat < cfg.maxDelayMs.toNat := Nat.not_le.mp hcap
      rw [growLoop_below n hlt]
      cases k with
      | zero => omega
      | succ k =>
        rw [List.length_cons, Nat.succ_le_succ_iff]
        apply ih
        rw [(toNat_mul_multiplier hlt).2]
        calc cfg.maxDelayMs.toNat ≤ base.toNat * 2 ^ (k + 1) := h
          _ = base.toNat * 2 * 2 ^ k := by ring
          _ ≤ base.toNat * cfg.multiplier.toNat * 2 ^ k :=
              Nat.mul_le_mul_right _ (Nat.mul_le_mul_left _ hmult)

/-- What `edgesync_retry_apply_defaults` establishes. -/
theorem applyDefaults_usable (cfg : EdgesyncRetryConfig) {initialMs maxMs multiplier : UInt32}
    (hinitial : initialMs ≠ 0) (hmax : maxMs ≠ 0) (hmult : 2 ≤ multiplier) :
    (cfg.applyDefaults initialMs maxMs multiplier).initialDelayMs ≠ 0 ∧
      (cfg.applyDefaults initialMs maxMs multiplier).maxDelayMs ≠ 0 ∧
      2 ≤ (cfg.applyDefaults initialMs maxMs multiplier).multiplier := by
  unfold applyDefaults
  refine ⟨?_, ?_, ?_⟩
  · show (if cfg.initialDelayMs = 0 then initialMs else cfg.initialDelayMs) ≠ 0
    split <;> assumption
  · show (if cfg.maxDelayMs = 0 then maxMs else cfg.maxDelayMs) ≠ 0
    split <;> assumption
  · show 2 ≤ (if cfg.multiplier < 2 then multiplier else cfg.multiplier)
    split
    · exact hmult
    · rename_i h
      exact UInt32.not_lt.mp h

variable (cfg)

/-- The backoff is its formula, for every attempt and every random value. -/
theorem backoff_exact (hinitial : 1 ≤ cfg.initialDelayMs) (hmult : 2 ≤ cfg.multiplier)
    (attemptCount randomU32 : UInt32) :
    (cfg.jitter = false →
      (cfg.computeDelayMs attemptCount randomU32).toNat = cfg.backoff attemptCount) ∧
    (∀ base ∈ cfg.multiplied (attemptCount.toNat - 1) cfg.initialDelayMs.toUInt64,
      base.toNat * cfg.multiplier.toNat < 2 ^ 64) ∧
    (cfg.multiplied (attemptCount.toNat - 1) cfg.initialDelayMs.toUInt64).length ≤ 32 ∧
    (∀ later, attemptCount ≤ later → cfg.backoff attemptCount ≤ cfg.backoff later) ∧
    (cfg.jitter = true →
      cfg.backoff attemptCount / 2 ≤ (cfg.computeDelayMs attemptCount randomU32).toNat ∧
      (cfg.computeDelayMs attemptCount randomU32).toNat ≤ cfg.backoff attemptCount) ∧
    (cfg.computeDelayMs attemptCount randomU32).toNat ≤ cfg.maxDelayMs.toNat := by
  rw [UInt32.le_iff_toNat_le] at hinitial hmult
  have hone : 1 ≤ cfg.multiplier.toNat := Nat.le_trans (by decide) hmult
  refine ⟨fun hjitter => computeDelayMs_plain hone hjitter attemptCount randomU32,
    fun base hbase => (toNat_mul_multiplier (multiplied_lt hbase)).1,
    length_multiplied hmult ?_, fun later hle => backoff_mono hone hle,
    fun _ => computeDelayMs_jitter hone attemptCount randomU32,
    cfg.computeDelayMs_le attemptCount randomU32⟩
  have hmax := cfg.maxDelayMs.toNat_lt
  have hpos : 1 ≤ cfg.initialDelayMs.toUInt64.toNat := by
    rw [UInt32.toNat_toUInt64]
    exact hinitial
  omega

end EdgesyncRetryConfig

/-- One second, doubled up to a minute: the seventh attempt waits for the minute. -/
theorem backoff_exact_minute :
    ((⟨1000, 60000, 2, false, 0⟩ : EdgesyncRetryConfig).computeDelayMs 7 0).toNat = 60000 := by
  rw [(EdgesyncRetryConfig.backoff_exact ⟨1000, 60000, 2, false, 0⟩ (by decide) (by decide) 7 0).1
    rfl]
  decide

end EdgeSync
