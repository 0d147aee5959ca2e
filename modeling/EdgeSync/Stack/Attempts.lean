/-
  Stack/Attempts.lean --- how often a message is handed to the transport.

  A retry is scheduled only while attempts are left, and the count of attempts outlives the
  power.  A message in flight when the power goes is tried once more, so every loss of
  power may cost one attempt beyond the limit, and no more.
-/
import EdgeSync.Stack.Delivery

set_option autoImplicit false

namespace EdgeSync

open Foundation

/-! ## Counting -/

/-- The device was running before the step, and is not after it. -/
def StackLabel.switchesOff : StackLabel → Bool
  | .publishCut _ _ _ => true
  | .callCut _ => true
  | .stopped => true
  | _ => false

/-- How often the device was switched off. -/
def powerLosses (labels : List StackLabel) : Nat := labels.countP (·.switchesOff)

/-- How often the message was handed to the transport. -/
def attempts (id : UInt64) (labels : List StackLabel) : Nat :=
  (handedMessages labels).countP (·.id == id)

/-- The message that is being delivered counts. -/
def WorkerPhase.inHand (id : UInt64) : WorkerPhase → Nat
  | .delivering msg => if msg.id = id then 1 else 0
  | _ => 0

/-- The message of the step counts. -/
def StackLabel.attempt (id : UInt64) (label : StackLabel) : Nat :=
  ((label.hands?.toList).countP (·.id == id))

theorem powerLosses_snoc (labels : List StackLabel) (label : StackLabel) :
    powerLosses (labels ++ [label]) = powerLosses labels + if label.switchesOff then 1 else 0 := by
  rw [powerLosses, List.countP_append, List.countP_singleton]
  rfl

theorem attempts_snoc (id : UInt64) (labels : List StackLabel) (label : StackLabel) :
    attempts id (labels ++ [label]) = attempts id labels + label.attempt id := by
  rw [attempts, handedMessages, List.filterMap_append, List.countP_append, ← handedMessages,
    ← attempts, StackLabel.attempt]
  cases h : label.hands? <;> simp [h]

theorem requeued_attemptCount (p : Progress) : p.requeued.attemptCount = p.attemptCount := by
  unfold Progress.requeued
  split
  · rfl
  · rfl

theorem attemptCount_durable (e : EntryMeta) : e.durable.attemptCount = e.attemptCount :=
  requeued_attemptCount e.progress

theorem attemptCount_settle (e : EntryMeta) : e.settle.attemptCount = e.attemptCount :=
  requeued_attemptCount e.progress

/-! ## The limit -/

/-- The message was handed out `k` times, and there were `losses` losses of power. -/
def Life.Within (maxAttempts losses k : Nat) : Life → Prop
  | .new => k = 0
  | .queued e => k ≤ e.attemptCount.toNat ∧ e.attemptCount.toNat ≤ maxAttempts + losses ∧
      (e.state = FlashqState.pending.code → e.attemptCount.toNat < maxAttempts + losses)
  | .gone => k ≤ maxAttempts + losses

/-- The same without power: whatever the state is, one attempt is left. -/
def Life.Left (maxAttempts losses k : Nat) : Life → Prop
  | .new => k = 0
  | .queued e => k ≤ e.attemptCount.toNat ∧ e.attemptCount.toNat < maxAttempts + losses
  | .gone => k ≤ maxAttempts + losses

/-- What holds of a journey. -/
def Journey.Within (maxAttempts : Nat) (id : UInt64) (labels : List StackLabel) : Journey → Prop
  | .off l => l.Left maxAttempts (powerLosses labels) (attempts id labels)
  | .on l w => l.Within maxAttempts (powerLosses labels) (attempts id labels + w.inHand id)

section Within

variable {cfg : StackConfig} {id : UInt64} {labels : List StackLabel} {label : StackLabel}
  {l l1 l' : Life} {w w' : WorkerPhase} {j j' : Journey} {op : StorageOp}
  {res : Except EspErr StorageReply} {maxAttempts losses k k' : Nat}

theorem Life.Within.le (h : l.Within maxAttempts losses k) : k ≤ maxAttempts + losses := by
  cases l with
  | new => rw [show k = 0 from h]; exact Nat.zero_le _
  | queued e => exact Nat.le_trans h.1 h.2.1
  | gone => exact h

theorem Life.Within.mono (h : l.Within maxAttempts losses k) (hk : k' ≤ k) :
    l.Within maxAttempts losses k' := by
  cases l with
  | new => exact Nat.le_zero.mp (Nat.le_trans hk (Nat.le_of_eq h))
  | queued e => exact ⟨Nat.le_trans hk h.1, h.2⟩
  | gone => exact Nat.le_trans hk h

/-- The power goes. -/
theorem Life.Within.off (h : l.Within maxAttempts losses k) (hk : k' ≤ k)
    (kept : (messageObject id).kept l l') : l'.Left maxAttempts (losses + 1) k' := by
  have hkept : l'.map EntryMeta.durable = l.map EntryMeta.durable := kept
  cases l with
  | new =>
    rw [(kept_new kept).mpr rfl]
    exact Nat.le_zero.mp (Nat.le_trans hk (Nat.le_of_eq h))
  | gone =>
    rw [(kept_gone kept).mpr rfl]
    exact Nat.le_succ_of_le (Nat.le_trans hk h)
  | queued e =>
    cases l' with
    | new => cases hkept
    | gone => cases hkept
    | queued e' =>
      have hcount : e'.attemptCount = e.attemptCount :=
        (attemptCount_durable e').symm.trans
          ((congrArg EntryMeta.attemptCount (Life.queued.inj hkept)).trans (attemptCount_durable e))
      show k' ≤ e'.attemptCount.toNat ∧ e'.attemptCount.toNat < maxAttempts + (losses + 1)
      rw [hcount]
      have h1 := h.1
      have h2 := h.2.1
      omega

theorem Life.Left.kept (h : l.Left maxAttempts losses k) (kept : (messageObject id).kept l l') :
    l'.Left maxAttempts losses k := by
  have hkept : l'.map EntryMeta.durable = l.map EntryMeta.durable := kept
  cases l with
  | new =>
    rw [(kept_new kept).mpr rfl]
    exact h
  | gone =>
    rw [(kept_gone kept).mpr rfl]
    exact h
  | queued e =>
    cases l' with
    | new => cases hkept
    | gone => cases hkept
    | queued e' =>
      have hcount : e'.attemptCount = e.attemptCount :=
        (attemptCount_durable e').symm.trans
          ((congrArg EntryMeta.attemptCount (Life.queued.inj hkept)).trans (attemptCount_durable e))
      show k ≤ e'.attemptCount.toNat ∧ e'.attemptCount.toNat < maxAttempts + losses
      rw [hcount]
      exact h

/-- A restart. -/
theorem Life.Left.boot (h : l.Left maxAttempts losses k) :
    (l.map EntryMeta.settle).Within maxAttempts losses k := by
  cases l with
  | new => exact h
  | gone => exact h
  | queued e =>
    show k ≤ e.settle.attemptCount.toNat ∧ e.settle.attemptCount.toNat ≤ maxAttempts + losses ∧ _
    rw [attemptCount_settle]
    exact ⟨h.1, Nat.le_of_lt h.2, fun _ => h.2⟩

/-- A publish starts a new count. -/
theorem PublishLife.within {message : EdgesyncMessage} {removed : List UInt64}
    (life : PublishLife id message removed l l') (hmax : 0 < maxAttempts)
    (h : l.Within maxAttempts losses k) : l'.Within maxAttempts losses k := by
  cases life with
  | aside => exact h
  | accepted same =>
    rw [show k = 0 from h]
    exact ⟨Nat.zero_le _, Nat.zero_le _, fun _ => Nat.lt_of_lt_of_le hmax (Nat.le_add_right _ _)⟩
  | dropped pending removed => exact h.le

/-- The next attempt is counted. -/
theorem toNat_attempt {e : EntryMeta} (h : e.attemptCount.toNat < maxAttempts + losses)
    (hroom : maxAttempts + losses < 2 ^ 32) :
    (e.attemptCount + 1).toNat = e.attemptCount.toNat + 1 := by
  rw [UInt32.toNat_add, UInt32.toNat_one, Nat.mod_eq_of_lt (by omega)]

/-- A claim takes an attempt that is left. -/
theorem MessageStep.within_claim {nowUs : Int64} (step : MessageStep id l (.claimNext nowUs) res l')
    (hroom : maxAttempts + losses < 2 ^ 32) (h : l.Within maxAttempts losses k) :
    l'.Within maxAttempts losses (k + (WorkerPhase.afterClaim res).inHand id) := by
  have hnone : ∀ {w : WorkerPhase}, w.inHand id = 0 → ∀ {l : Life}, l.Within maxAttempts losses k →
      l.Within maxAttempts losses (k + w.inHand id) := by
    intro w hw l hl
    rwa [hw, Nat.add_zero]
  cases step with
  | aside other =>
    refine hnone ?_ h
    rcases res with err | reply
    · rfl
    · rcases reply with _ | reply | _ | _
      · rfl
      · rcases reply with c | i
        · exact if_neg fun hid => other (congrArg some hid)
        · rfl
      · rfl
      · rfl
  | @claimed nowUs e claimed eligible shows =>
    have hpending : e.state = FlashqState.pending.code := by
      simp only [EntryMeta.eligible, Bool.and_eq_true, beq_iff_eq] at eligible
      exact eligible.1
    obtain ⟨hk, _, hlt⟩ := h
    have hlt := hlt hpending
    have hcount := toNat_attempt hlt hroom
    have hhand : (WorkerPhase.afterClaim (.ok (.claim (.claimed claimed)))).inHand id ≤ 1 := by
      show (if claimed.id = id then 1 else 0) ≤ 1
      split <;> omega
    refine ⟨?_, ?_, fun hstate => ?_⟩
    · show _ ≤ (e.attemptCount + 1).toNat
      omega
    · show (e.attemptCount + 1).toNat ≤ _
      omega
    · exact absurd (show FlashqState.inFlight.code = _ from hstate) (by decide)
  | corrupt eligible =>
    refine hnone rfl ⟨h.1, h.2.1, fun hstate => ?_⟩
    exact absurd (show FlashqState.deadLetter.code = _ from hstate) (by decide)
  | marked eligible => exact hnone rfl h
  | retired retires => cases retires

/-- A settlement that asks for a retry has attempts left. -/
theorem handled_retries {retry : EdgesyncRetryConfig} {msg : ClaimedMessage}
    {result : DeliveryResult} {nowUs nextRetryTimeUs : Int64} {randomU32 : UInt32} {i : UInt64}
    {deadLetter : Bool} {lastError : Int32}
    (h : (handleDeliveryResult retry msg nowUs randomU32 result).1 =
      .scheduleRetry i nextRetryTimeUs deadLetter lastError) :
    msg.id = i ∧ (deadLetter = false → retry.shouldRetry msg.attemptCount = true) := by
  cases result with
  | success => cases h
  | permanentFailure =>
    cases h
    exact ⟨rfl, fun hdead => by cases hdead⟩
  | retryableFailure =>
    simp only [handleDeliveryResult, handleRetryableFailure] at h
    split at h
    · rename_i hshould
      cases h
      exact ⟨rfl, fun _ => hshould⟩
    · cases h
      exact ⟨rfl, fun hdead => by cases hdead⟩

/-- A settlement. -/
theorem MessageStep.within_settle {events : Events} (step : MessageStep id l op res l')
    (held : Held cfg id labels l w) (hw : w = .settling op events)
    (hmax : 0 < cfg.retry.maxAttempts.toNat)
    (h : l.Within cfg.retry.maxAttempts.toNat losses k) :
    l'.Within cfg.retry.maxAttempts.toNat losses k := by
  obtain ⟨msg, result, nowUs, randomU32, -, hop, hshown⟩ := held.settling op events hw
  have hsettles := handled_settles cfg.retry msg nowUs randomU32 result
  rw [← hop] at hsettles
  cases step with
  | aside other => exact h
  | accepted same => cases hsettles
  | claimed eligible shows => cases hsettles
  | corrupt eligible => cases hsettles
  | marked eligible => cases hsettles
  | candidate pending => exact h
  | retired retires => exact Nat.le_trans h.1 h.2.1
  | staged => exact h
  | @retried e nextRetryTimeUs deadLetter lastError =>
    refine ⟨h.1, h.2.1, fun hstate => ?_⟩
    obtain ⟨hid, hleft⟩ := handled_retries hop.symm
    obtain ⟨e', he', -, hcount⟩ := hshown hid
    cases he'
    cases deadLetter with
    | true => exact absurd (show FlashqState.deadLetter.code = _ from hstate) (by decide)
    | false =>
      have hshould := hleft rfl
      rw [EdgesyncRetryConfig.shouldRetry, if_neg (fun hzero => by
        rw [hzero] at hmax
        exact absurd hmax (by decide)), decide_eq_true_eq, UInt32.lt_iff_toNat_lt, hcount] at hshould
      exact Nat.lt_of_lt_of_le hshould (Nat.le_add_right _ _)

theorem inHand_of_free (free : w.Free) : w.inHand id = 0 := by
  cases w with
  | delivering msg => exact absurd rfl (free.delivering msg)
  | _ => rfl

theorem attempt_of_idle {label : TasksLabel} (h : label.idle = true) :
    (StackLabel.task label).attempt id = 0 := by
  rw [StackLabel.attempt, hands?_of_idle h]
  rfl

/-- The power goes, in a step that hands nothing out. -/
theorem Life.Within.loss (h : l.Within maxAttempts (powerLosses labels)
      (attempts id labels + w.inHand id)) (hoff : label.switchesOff = true)
    (hhands : label.hands? = none) (kept : (messageObject id).kept l l') :
    (Journey.off l').Within maxAttempts id (labels ++ [label]) := by
  show l'.Left _ _ _
  rw [powerLosses_snoc, attempts_snoc, StackLabel.attempt, hhands, if_pos hoff]
  exact h.off (Nat.le_add_right _ _) kept

/-- A step with power. -/
theorem Life.Within.on (h : l.Within maxAttempts (powerLosses labels) k)
    (hoff : label.switchesOff = false) (hk : attempts id labels + label.attempt id + w.inHand id ≤ k) :
    (Journey.on l w).Within maxAttempts id (labels ++ [label]) := by
  show l.Within _ _ _
  rw [powerLosses_snoc, attempts_snoc, hoff]
  exact h.mono hk

theorem Journey.Within.step (hmax : 0 < cfg.retry.maxAttempts.toNat)
    (hroom : cfg.retry.maxAttempts.toNat + powerLosses labels < 2 ^ 32)
    (held : j.Held cfg id labels) (h : j.Within cfg.retry.maxAttempts.toNat id labels)
    (step : JourneyStep cfg id j label j') :
    j'.Within cfg.retry.maxAttempts.toNat id (labels ++ [label]) := by
  cases step with
  | publish life accepted removed => exact (life.within hmax h).on rfl (Nat.le_refl _)
  | @idle l w w' label idle next =>
    have hoff : (StackLabel.task label).switchesOff = false := by cases label <;> rfl
    refine Life.Within.on h hoff ?_
    rw [attempt_of_idle idle]
    rcases next with rfl | free
    · exact Nat.le_refl _
    · rw [inHand_of_free free]
      exact Nat.le_add_right _ _
  | claim step => exact (step.within_claim hroom h).on rfl (Nat.le_refl _)
  | @deliver l msg result nowUs randomU32 events =>
    refine Life.Within.on h rfl ?_
    show attempts id labels + List.countP _ [msg] + 0 ≤ attempts id labels + (if msg.id = id then 1 else 0)
    rw [List.countP_singleton]
    simp
  | settle step => exact (step.within_settle held rfl hmax h).on rfl (Nat.le_refl _)
  | publishCut life removed kept => exact (life.within hmax h).loss rfl rfl kept
  | @callCut l l1 l' w op calling step kept =>
    rcases step with rfl | ⟨res, step⟩
    · exact Life.Within.loss h rfl rfl kept
    · cases calling with
      | claim ready =>
        subst ready
        have hclaim := step.within_claim hroom h
        exact Life.Within.loss (w := .resting) (hclaim.mono (Nat.le_add_right _ _)) rfl rfl kept
      | settle settles =>
        exact (step.within_settle held settles hmax h).loss rfl rfl kept
      | stats =>
        rw [step.stats] at kept
        exact Life.Within.loss h rfl rfl kept
  | stopped kept => exact Life.Within.loss h rfl rfl kept
  | booted =>
    show Life.Within _ _ _ _
    rw [powerLosses_snoc, attempts_snoc]
    exact Life.Left.boot h
  | bootFailed kept =>
    show Life.Left _ _ _ _
    rw [powerLosses_snoc, attempts_snoc]
    exact Life.Left.kept h kept
  | bootCut kept =>
    show Life.Left _ _ _ _
    rw [powerLosses_snoc, attempts_snoc]
    exact Life.Left.kept h kept

/-- The limit holds on every journey. -/
theorem journey_within (hmax : 0 < cfg.retry.maxAttempts.toNat)
    (run : StepRun (JourneyStep cfg id) (.off .new) labels j)
    (hroom : cfg.retry.maxAttempts.toNat + powerLosses labels < 2 ^ 32) :
    j.Within cfg.retry.maxAttempts.toNat id labels := by
  induction run with
  | nil => rfl
  | snoc run last ih =>
    rw [powerLosses_snoc] at hroom
    exact (ih (by omega)).step hmax (by omega) (journey_held run) last

end Within

section Results

variable {D : DurableBackend} {cfg : StackConfig} {labels : List StackLabel} {t : Tasks D.B}

/-- A message is handed to the transport at most `max_attempts` times, and once more for
every loss of power. -/
theorem DurableRun.attempts_le (h : DurableRun D cfg labels t)
    (hmax : 0 < cfg.retry.maxAttempts.toNat)
    (hroom : cfg.retry.maxAttempts.toNat + powerLosses labels < 2 ^ 32) (id : UInt64) :
    attempts id labels ≤ cfg.retry.maxAttempts.toNat + powerLosses labels := by
  obtain ⟨l, jrun, -⟩ := h.journey id
  have hwithin : l.Within _ _ (attempts id labels + t.worker.inHand id) := journey_within hmax jrun hroom
  exact Nat.le_trans (Nat.le_add_right _ _) hwithin.le

end Results

/-- A message is handed to the transport at most `max_attempts` times, and once more for every
time the device was switched off. -/
theorem attempts_bounded (cfg : StackConfig) (hmax : 0 < cfg.retry.maxAttempts.toNat) :
    (∀ (fcfg : FlashqConfig) (labels : List StackLabel) (t : Tasks (flashqBackend fcfg))
        (id : UInt64),
      DurableRun (flashqDurable fcfg) cfg labels t →
      cfg.retry.maxAttempts.toNat + powerLosses labels < 2 ^ 32 →
      attempts id labels ≤ cfg.retry.maxAttempts.toNat + powerLosses labels) ∧
    ∀ (usage : BlobStore → UInt32 × UInt32) (ncfg : NvsConfig)
        (hmax : ncfg.maxMessages.toNat ≤ 100000) (labels : List StackLabel)
        (t : Tasks (nvsBackend usage ncfg)) (id : UInt64),
      DurableRun (nvsDurable ncfg usage hmax) cfg labels t →
      cfg.retry.maxAttempts.toNat + powerLosses labels < 2 ^ 32 →
      attempts id labels ≤ cfg.retry.maxAttempts.toNat + powerLosses labels :=
  ⟨fun _ _ _ id h hroom => h.attempts_le hmax hroom id,
    fun _ _ _ _ _ id h hroom => h.attempts_le hmax hroom id⟩

/-- One attempt is all a message gets. -/
def oneAttempt : StackConfig := ⟨.rejectNew, ⟨100, 1000, 2, false, 1⟩⟩

/-- The power goes after the only attempt, before it is settled. -/
def secondTryScript : StackScript (nvsBackend noUsage slotConfig) :=
  [(.boot, []), (.task (.publish 0 slotMessage), []), (.task (.claim 10), []),
    (.task (.deliver .retryableFailure 20 0), []), (.settleCut, [[.run, .cut false]]),
    (.boot, []), (.task (.claim 10), []), (.task (.deliver .retryableFailure 20 0), [])]

/-- The bound is reached. -/
theorem attempts_bounded_tight :
    ∃ labels t, DurableRun slotDurable oneAttempt labels t ∧ powerLosses labels = 1 ∧
      attempts slotMessage.id labels = 2 ∧
      attempts slotMessage.id labels ≤ oneAttempt.retry.maxAttempts.toNat + powerLosses labels := by
  have hcheck : (StackSystem.play oneAttempt (.off emptyStore) secondTryScript []).any
      (slotShows fun labels _ => decide (powerLosses labels = 1 ∧
        attempts slotMessage.id labels = 2)) = true := by
    decide +kernel
  obtain ⟨labels, t, run, htest⟩ := slotRun (by decide) hcheck
  obtain ⟨hlosses, htwo⟩ := of_decide_eq_true htest
  refine ⟨labels, t, run, hlosses, htwo, ?_⟩
  refine (attempts_bounded oneAttempt (by decide)).2 noUsage slotConfig slotConfig_max labels t _ run ?_
  rw [hlosses]
  decide

end EdgeSync
