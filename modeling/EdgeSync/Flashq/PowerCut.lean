/-
  Flashq/PowerCut.lean --- power cuts inside writes, and the append point.

  A cut inside a record write leaves a prefix of the record behind the log.  The
  scan stops in front of it, but the bytes are no longer erased, and the next
  record is ANDed into them.  What is proved here holds for runs whose cut
  appends left nothing, or the record.
-/
import EdgeSync.Flashq.Quiet

set_option autoImplicit false

namespace EdgeSync

open Foundation

/-! ## Runs under one regime -/

/-- Calls and restarts meet the same events. -/
def Regime.world {cfg : FlashqConfig} (R : Regime cfg) : FlashqWorld := ⟨R.env, fun _ => R.env⟩

/-- The flash invariant of a system. -/
def Sound {cfg : FlashqConfig} (R : Regime cfg) : FlashqSystem → Prop
  | .on ctx m => ∃ recs, Base R ctx.core m recs
  | .off m => Image R m fun _ => True

section Runs

variable {cfg : FlashqConfig} {R : Regime cfg} {s s' : FlashqSystem} {label : FlashqStepLabel}
  {labels : List FlashqStepLabel}

/-- One step keeps the flash invariant. -/
theorem Sound.step (hquiet : ¬ R.mayFail) (h : Sound R s) (step : FlashqStep cfg R.world s label s')
    (hfit : ∀ op, label.op? = some op → op.Fits cfg.maxMessageSize) : Sound R s' := by
  cases step with
  | returned run =>
    obtain ⟨recs, b⟩ := h
    obtain ⟨recs', ef⟩ := call_returned hquiet b (hfit _ rfl) run
    exact ⟨recs', ef.base b⟩
  | failed run =>
    obtain ⟨recs, b⟩ := h
    obtain ⟨recs', ef⟩ := call_failed hquiet b (hfit _ rfl) run
    exact ⟨recs', ef.base b⟩
  | cut run =>
    obtain ⟨recs, b⟩ := h
    exact call_cut hquiet b (hfit _ rfl) callQueues_true run
  | stop =>
    obtain ⟨recs, b⟩ := h
    exact b.image trivial
  | boot run =>
    have hb : Booted R (fun _ _ _ => True) (fun _ => True) _ _ _ :=
      boot_meets h requeueInvariant_true (fun _ _ => trivial) (fun _ _ _ _ _ => trivial) run
    cases hb with
    | fresh none core_eq base => exact ⟨[], base⟩
    | replayed opened durable base inv metas => exact ⟨_, base⟩
  | bootFail run =>
    exact boot_meets (J := fun _ _ _ => True) h requeueInvariant_true (fun _ _ => trivial)
      (fun _ _ _ _ _ => trivial) run
  | bootCut run =>
    exact boot_meets (J := fun _ _ _ => True) h requeueInvariant_true (fun _ _ => trivial)
      (fun _ _ _ _ _ => trivial) run

/-- Every run from an erased partition keeps the flash invariant. -/
theorem Sound.run (hquiet : ¬ R.mayFail) (run : FlashqRun cfg R.world (.off erasedFlash) labels s)
    (hfit : AllFit cfg labels) : Sound R s := by
  induction run with
  | nil => exact image_erased trivial
  | snoc run step ih => exact (ih hfit.init).step hquiet step fun op hop => hfit.last hop

end Runs

/-! ## Cuts that leave nothing, or the record -/

variable (cfg : FlashqConfig)

/-- What the first `n` bytes of the record `h` with the body `data`, written at
`e`, leave is nothing, or what the scan accepts as that record. -/
def LandsWhole (v : Memory) (e : Nat) (h : RecordHdr) (data : Bytes) (n : Nat) : Prop :=
  n = 0 ∨ acceptAt cfg (v.program e ((recordBytes h data).take n)) e = some h

/-- The write puts the record `h` with the body `data` at the erased end of the
log of an ACTIVE region. -/
structure AppendsAt (m : Memory) (addr : Nat) (bytes : Bytes) (r : Fin 2) (e : Nat) (h : RecordHdr)
    (data : Bytes) : Prop where
  active : IsActive (view cfg m r)
  log : ∃ recs, Log cfg (view cfg m r) dataStart recs e
  erased : ErasedFrom cfg (view cfg m r) e
  addr_eq : addr = cfg.regionOffset r + e
  bytes_eq : bytes = recordBytes h data

/-- Calls work, or the power goes: between two bytes of a write (an append leaves
nothing, or the record), before or after an erase. -/
def wholeCuts : Env FlashCall Memory FlashEvent := fun m c ev =>
  ev = .run ∨ ∃ k, ev = .cut k ∧ match c with
    | .write addr bytes => ∀ r e h data, AppendsAt cfg m addr bytes r e h data →
        LandsWhole cfg (view cfg m r) e h data k
    | _ => True

variable {cfg}

/-- What a cut write leaves of data it was to store in erased flash. -/
theorem landed_of_cut {v : Memory} {e : Nat} {head data rest : Bytes} {n : Nat}
    (hv : ErasedFrom cfg v e) (hfit : e + (head.length + data.length) ≤ cfg.regionSize) :
    Landed data ((v.program e ((head ++ (data ++ rest)).take n)).bytesAt (e + head.length)
      data.length) := by
  refine List.forall₂_iff_get.mpr ⟨by rw [Memory.length_bytesAt], fun i h1 h2 => ?_⟩
  have hget : ((v.program e ((head ++ (data ++ rest)).take n)).bytesAt (e + head.length)
      data.length).get ⟨i, h2⟩ = v.program e ((head ++ (data ++ rest)).take n)
        (e + (head.length + i)) := by
    simp [Memory.bytesAt, Nat.add_assoc]
  have hff : v (e + (head.length + i)) = 0xFF := hv _ (by omega) (by omega)
  rw [hget]
  by_cases hn : head.length + i < n
  · left
    have hlt : head.length + i < (head ++ (data ++ rest)).length := by
      rw [List.length_append, List.length_append]
      omega
    rw [Memory.program_take_at hn, Memory.program_at_of_erased hlt hff,
      List.getElem_append_right (Nat.le_add_right _ _)]
    have hsub : head.length + i - head.length = i := Nat.add_sub_cancel_left _ _
    simp only [hsub, List.getElem_append_left h1, List.get_eq_getElem]
  · right
    rw [Memory.program_take (by omega), hff]

variable (cfg) in
/-- The regime of power cuts that leave nothing, or the record. -/
def whole : Regime cfg where
  env := wholeCuts cfg
  mayFail := False
  lossy := False
  Tail := ErasedFrom cfg
  Torn := Landed
  read_events := fun h => h.elim .inl fun ⟨k, hk, _⟩ => .inr (.inl ⟨k, hk⟩)
  write_events := fun h => h.elim .inl fun ⟨k, hk, _⟩ => .inr ⟨k, hk⟩
  erase_events := fun h => h.elim .inl fun ⟨k, hk, _⟩ => .inr (.inl ⟨k, hk⟩)
  tail_stop := acceptAt_of_erasedFrom
  tail_erased := fun h => h
  tail_congr := ErasedFrom.congr
  torn_refl := landed_refl
  torn_landed := fun h => h
  append_run := fun _ _ htail _ hd hfit _ => .inr (append_to_erased htail hd hfit)
  append_cut := by
    intro m r recs e h data n hact hlog htail hs hd hfit hev
    have hlen := length_recordBytes hd
    rcases hev with hev | ⟨k, hk, hall⟩
    · exact absurd hev (by simp)
    · cases hk
      rcases hall r e h data ⟨hact, ⟨recs, hlog⟩, htail, rfl, rfl⟩ with rfl | hacc
      · left
        rw [List.take_zero, Memory.program_nil]
        exact htail
      · refine .inr ⟨hacc, ?_, ?_⟩
        · have hhdr := h.length_toBytes
          have hused := h.usedSize_le
          have hdef : h.usedSize = hdrSize + h.bodyBytes + 4 := rfl
          have hl := @landed_of_cut cfg (view cfg m r) e h.toBytes data
            (leBytes 4 (edgesyncCrc32 0 data).toNat ++
              List.replicate (h.totalSize - (hdrSize + h.bodyBytes + 4)) 0) n htail
            (by rw [hhdr, hd]; omega)
          rw [hhdr, hd] at hl
          exact hl
        · refine (htail.program _).mono ?_
          rw [List.length_take, hlen]
          omega
  guarded := 0
  header_guard := fun _ _ hev => by
    rcases hev with hev | ⟨k, hk, _⟩
    · exact absurd hev (by simp)
    · exact absurd hk (by simp)
  scan_guard := fun _ _ _ => by
    refine ⟨fun hev => ?_, fun hev => ?_⟩ <;>
    · rcases hev with hev | ⟨k, hk, _⟩
      · exact absurd hev (by simp)
      · exact absurd hk (by simp)

/-! ## The append point -/

/-- In every state of a run whose cut appends left nothing, or the record, the
flash behind the cursor is erased; where `ensure_space_locked` succeeds without
faults, `append_locked` succeeds. -/
theorem append_point_erased {cfg : FlashqConfig} {labels : List FlashqStepLabel} {ctx : FlashqCtx}
    {m : Memory} (run : FlashqRun cfg (whole cfg).world (.off erasedFlash) labels (.on ctx m))
    (hfit : AllFit cfg labels) :
    ErasedFrom cfg (view cfg m ctx.activeRegion) ctx.cursor ∧
    ∀ neededLen buf (ctx1 : FlashqCtx) m1 o,
      Runs cfg.device calmEnv (ensureSpaceLocked cfg neededLen) ctx m (.ok () ctx1 m1) →
      Runs cfg.device calmEnv (appendLocked cfg buf neededLen) ctx1 m1 o →
      ∃ ctx2 m2, o = .ok () ctx2 m2 := by
  obtain ⟨recs, b⟩ := Sound.run (R := whole cfg) (fun h => h) run hfit
  refine ⟨b.tail, fun neededLen buf ctx1 m1 o space append => ?_⟩
  have hcalm : ∀ m c ev, calmEnv m c ev → (whole cfg).env m c ev := fun _ _ _ hev => .inl hev
  have hspace : wp cfg.device calmEnv (ensureSpaceLocked cfg neededLen)
      ⟨fun _ ctx1 m1 => ErasedFrom cfg (view cfg m1 ctx1.activeRegion) ctx1.cursor ∧
        ctx1.cursor + neededLen ≤ cfg.regionSize, fun _ _ _ => True, fun _ => True⟩ ctx m :=
    wp_mono_env (wp_ensureSpaceLocked (Q := fun _ => True) b trivial trivial
      (fun ctx' m' recs' mv hroom _ => And.intro mv.base.tail hroom)
      (fun _ _ _ _ _ _ _ => trivial) (fun _ _ _ _ _ => trivial) fun _ _ => trivial)
      hcalm (fun _ _ _ h => h) (fun _ _ _ _ => trivial) fun _ _ => trivial
  obtain ⟨herased, hroom⟩ := wp_sound space hspace
  have happend : wp cfg.device calmEnv (appendLocked cfg buf neededLen)
      ⟨fun _ _ _ => True, fun _ _ _ => False, fun _ => True⟩ ctx1 m1 := by
    unfold appendLocked
    simp only [Prog.bind_eq, wp_bind, wp_read]
    refine wp_partitionWriteVerify_erased (quiet cfg) herased ?_ (fun _ => ?_) (fun h => h.elim)
      fun _ => trivial
    · rw [List.length_take]
      omega
    · simp only [wp_modify]
  cases o with
  | ok a ctx2 m2 => exact ⟨ctx2, m2, rfl⟩
  | error err ctx2 m2 => exact (wp_sound append happend).elim
  | cut m2 => exact absurd append calm_not_cut

section Torn

/-- Calls work, or the power goes between any two bytes of a write. -/
def cutsAnywhere : Env FlashCall Memory FlashEvent := fun _ _ ev => ev = .run ∨ ∃ k, ev = .cut k

/-- Flash with power cuts anywhere. -/
def cutWorld : FlashqWorld := ⟨cutsAnywhere, fun _ => cutsAnywhere⟩

/-- The events of `cutsAnywhere`. -/
def cutAllows : FlashCall → FlashEvent → Bool
  | _, .run => true
  | _, .cut _ => true
  | _, _ => false

/-- A script with power cuts plays a run. -/
theorem cut_play {cfg : FlashqConfig} {s s' : FlashqSystem} {script : FlashqScript}
    {labels : List FlashqStepLabel} (hp : s.playPermits cfg cutAllows cutAllows script = true)
    (h : s.play cfg script [] = some (labels, s')) : FlashqRun cfg cutWorld s labels s' := by
  have hcut : ∀ m c ev, cutAllows c ev = true → cutsAnywhere m c ev := by
    intro m c ev hev
    cases ev with
    | run => exact .inl rfl
    | cut k => exact .inr ⟨k, rfl⟩
    | fail n => simp [cutAllows] at hev
    | tear n => simp [cutAllows] at hev
  exact FlashqSystem.play_run hcut hcut .nil hp h

/-- A partition of 24 KiB: an empty log leaves the reserve free. -/
def roomyConfig : FlashqConfig where
  partitionSize := 24576
  maxMessages := 4
  maxMessageSize := 64
  maxMessages_ne := smallConfig.maxMessages_ne
  aligned := by decide
  sectors := by decide

/-- The power goes after 24 bytes of the first record. -/
def tornScript : FlashqScript :=
  [(.boot, []), (.call (.enqueue ⟨1, [0x61], 1, 5, [1, 2, 3]⟩), [.cut 24]), (.boot, []),
    (.call (.enqueue ⟨2, [0x61], 1, 6, [4, 5, 6]⟩), [])]

/-- What the callers see of it. -/
def tornLabels : List FlashqStepLabel :=
  [.booted, .callCut (.enqueue ⟨1, [0x61], 1, 5, [1, 2, 3]⟩), .booted,
    .call (.enqueue ⟨2, [0x61], 1, 6, [4, 5, 6]⟩) (.error .storage)]

/-- After a cut inside a record the append point is not erased, and the next
append fails its read-back. -/
theorem append_point_torn : ∃ ctx m,
    FlashqRun roomyConfig cutWorld (.off erasedFlash) tornLabels (.on ctx m) ∧
    AllFit roomyConfig tornLabels ∧ ctx.cursor < roomyConfig.regionSize ∧
    view roomyConfig m ctx.activeRegion ctx.cursor ≠ 0xFF := by
  have hcheck : (match FlashqSystem.play roomyConfig (.off erasedFlash) tornScript [] with
      | some (labels, .on ctx m) => decide (labels = tornLabels ∧
          ctx.cursor < roomyConfig.regionSize ∧
          view roomyConfig m ctx.activeRegion ctx.cursor ≠ 0xFF)
      | _ => false) = true := by decide +kernel
  have hperm : FlashqSystem.playPermits roomyConfig cutAllows cutAllows (.off erasedFlash)
      tornScript = true := by decide +kernel
  split at hcheck
  · rename_i labels ctx m hplay
    obtain ⟨rfl, hcur, hff⟩ := of_decide_eq_true hcheck
    exact ⟨ctx, m, cut_play hperm hplay, by decide, hcur, hff⟩
  · exact absurd hcheck (by simp)

/-- The power goes in front of the second record. -/
def wholeScript : FlashqScript :=
  [(.boot, []), (.call (.enqueue ⟨1, [0x61], 1, 5, [1, 2, 3]⟩), []),
    (.call (.enqueue ⟨2, [0x61], 1, 6, [4, 5, 6]⟩), [.cut 0]), (.boot, [])]

/-- What the callers see of it. -/
def wholeLabels : List FlashqStepLabel :=
  [.booted, .call (.enqueue ⟨1, [0x61], 1, 5, [1, 2, 3]⟩) (.ok .done),
    .callCut (.enqueue ⟨2, [0x61], 1, 6, [4, 5, 6]⟩), .booted]

/-- The append point after such a cut. -/
theorem append_point_erased_whole : ∃ ctx m,
    FlashqRun roomyConfig (whole roomyConfig).world (.off erasedFlash) wholeLabels (.on ctx m) ∧
    ErasedFrom roomyConfig (view roomyConfig m ctx.activeRegion) ctx.cursor := by
  let allows : FlashCall → FlashEvent → Bool := fun _ ev => ev == .run || ev == .cut 0
  have hallows : ∀ m c ev, allows c ev = true → (whole roomyConfig).env m c ev := by
    intro m c ev hev
    rcases Bool.or_eq_true_iff.mp hev with hev | hev
    · exact .inl (eq_of_beq hev)
    · refine .inr ⟨0, eq_of_beq hev, ?_⟩
      cases c with
      | write addr bytes => exact fun _ _ _ _ _ => .inl rfl
      | _ => trivial
  have hcheck : (match FlashqSystem.play roomyConfig (.off erasedFlash) wholeScript [] with
      | some (labels, .on _ _) => decide (labels = wholeLabels)
      | _ => false) = true := by decide +kernel
  have hperm : FlashqSystem.playPermits roomyConfig allows allows (.off erasedFlash)
      wholeScript = true := by decide +kernel
  split at hcheck
  · rename_i labels ctx m hplay
    obtain rfl := of_decide_eq_true hcheck
    have hrun : FlashqRun roomyConfig (whole roomyConfig).world (.off erasedFlash) wholeLabels
        (.on ctx m) := FlashqSystem.play_run hallows hallows .nil hperm hplay
    exact ⟨ctx, m, hrun, (append_point_erased hrun (by decide)).1⟩
  · exact absurd hcheck (by simp)

end Torn

end EdgeSync
