/-
  Stack/Duplicates.lean --- how often the transport takes a message.

  A message that the transport took stays in flight until it is settled, and what is in
  flight is not claimed.  Only a loss of power makes it pending again, so there are at most
  as many duplicates of a message as there were losses of power.
-/
import EdgeSync.Stack.Attempts

set_option autoImplicit false

namespace EdgeSync

open Foundation

/-- How often the transport took the message. -/
def deliveries (id : UInt64) (labels : List StackLabel) : Nat := (deliveredIds labels).count id

/-- The transport took the message in this step. -/
def StackLabel.delivery (id : UInt64) (label : StackLabel) : Nat := label.delivers?.toList.count id

theorem deliveries_snoc (id : UInt64) (labels : List StackLabel) (label : StackLabel) :
    deliveries id (labels ++ [label]) = deliveries id labels + label.delivery id := by
  rw [deliveries, deliveredIds, List.filterMap_append, List.count_append, ← deliveredIds,
    ← deliveries, StackLabel.delivery]
  cases h : label.delivers? <;> simp [h]

/-- The worker has the message, and the transport has not taken it. -/
def WorkerPhase.Owes (id : UInt64) : WorkerPhase → Prop
  | .delivering msg => msg.id = id
  | .settling (.scheduleRetry i _ _ _) _ => i = id
  | _ => False

/-- The transport took the message `k` times, and there were `losses` losses of power. -/
structure Taken (losses k : Nat) (id : UInt64) (l : Life) (w : WorkerPhase) : Prop where
  le : k ≤ losses + 1
  new : l = .new → k = 0
  pending : ∀ e, l = .queued e → e.state = FlashqState.pending.code → k ≤ losses
  owed : w.Owes id → k ≤ losses

/-- The same of a journey; what is kept without power will be pending. -/
def Journey.Taken (id : UInt64) (labels : List StackLabel) : Journey → Prop
  | .off l => (l = .new → deliveries id labels = 0) ∧
      (l ≠ .gone → deliveries id labels ≤ powerLosses labels) ∧
      deliveries id labels ≤ powerLosses labels + 1
  | .on l w => EdgeSync.Taken (powerLosses labels) (deliveries id labels) id l w

section Taken

variable {cfg : StackConfig} {id : UInt64} {labels : List StackLabel} {label : StackLabel}
  {l l1 l' : Life} {w w' : WorkerPhase} {j j' : Journey} {op : StorageOp}
  {res : Except EspErr StorageReply} {losses k : Nat}

theorem Taken.fewest (hk : k ≤ losses) (hnew : l = .new → k = 0) : Taken losses k id l w :=
  ⟨Nat.le_succ_of_le hk, hnew, fun _ _ _ => hk, fun _ => hk⟩

theorem delivery_of_idle {label : TasksLabel} (h : label.idle = true) :
    (StackLabel.task label).delivery id = 0 := by
  cases label <;> first | rfl | cases h

theorem not_owes_of_free (free : w.Free) : ¬ w.Owes id := by
  intro howes
  cases w with
  | delivering msg => exact free.delivering msg rfl
  | settling op events => exact free.settling op events rfl
  | _ => exact howes

/-- A step with power that the transport is no part of. -/
theorem Taken.on (h : Taken (powerLosses labels) (deliveries id labels) id l w)
    (hoff : label.switchesOff = false) (hnone : label.delivery id = 0) :
    (Journey.on l w).Taken id (labels ++ [label]) := by
  show EdgeSync.Taken _ _ _ _ _
  rw [powerLosses_snoc, deliveries_snoc, hoff, hnone]
  exact h

/-- The power goes. -/
theorem Taken.loss (h : Taken (powerLosses labels) (deliveries id labels) id l w)
    (hoff : label.switchesOff = true) (hnone : label.delivery id = 0)
    (hnew : l' = .new → l = .new) : (Journey.off l').Taken id (labels ++ [label]) := by
  show _ ∧ _ ∧ _
  rw [powerLosses_snoc, deliveries_snoc, hnone, if_pos hoff]
  exact ⟨fun hl => h.new (hnew hl), fun _ => h.le, Nat.le_succ_of_le h.le⟩

theorem PublishLife.taken {message : EdgesyncMessage} {removed : List UInt64}
    (life : PublishLife id message removed l l') (h : Taken losses k id l w) :
    Taken losses k id l' w := by
  cases life with
  | aside => exact h
  | accepted same => exact .fewest (by rw [h.new rfl]; exact Nat.zero_le _) fun _ => h.new rfl
  | dropped pending removed => exact .fewest (h.pending _ rfl pending) fun hl => by cases hl

theorem state_of_eligible {e : EntryMeta} {nowUs : Int64} (h : e.eligible nowUs = true) :
    e.state = FlashqState.pending.code := by
  simp only [EntryMeta.eligible, Bool.and_eq_true, beq_iff_eq] at h
  exact h.1

/-- A claim takes what is pending. -/
theorem MessageStep.taken_claim {nowUs : Int64} (step : MessageStep id l (.claimNext nowUs) res l')
    (h : Taken losses k id l w) : Taken losses k id l' (.afterClaim res) := by
  cases step with
  | aside other =>
    refine ⟨h.le, h.new, h.pending, fun howes => ?_⟩
    rcases res with err | reply
    · exact howes.elim
    · rcases reply with _ | reply | _ | _
      · exact howes.elim
      · rcases reply with c | i
        · exact absurd (congrArg some (show c.id = id from howes)) other
        · exact howes.elim
      · exact howes.elim
      · exact howes.elim
  | claimed eligible shows =>
    exact .fewest (h.pending _ rfl (state_of_eligible eligible)) fun hl => by cases hl
  | corrupt eligible =>
    exact .fewest (h.pending _ rfl (state_of_eligible eligible)) fun hl => by cases hl
  | marked eligible =>
    exact .fewest (h.pending _ rfl (state_of_eligible eligible)) fun hl => by cases hl
  | retired retires => cases retires

/-- A settlement makes pending only what the transport did not take. -/
theorem MessageStep.taken_settle {events events' : Events} (step : MessageStep id l op res l')
    (held : Held cfg id labels l (.settling op events))
    (h : Taken losses k id l (.settling op events)) : Taken losses k id l' (.firing events') := by
  obtain ⟨msg, result, nowUs, randomU32, -, hop, hshown⟩ := held.settling op events rfl
  have hsettles := handled_settles cfg.retry msg nowUs randomU32 result
  rw [← hop] at hsettles
  cases step with
  | aside other => exact ⟨h.le, h.new, h.pending, fun howes => howes.elim⟩
  | accepted same => cases hsettles
  | claimed eligible shows => cases hsettles
  | corrupt eligible => cases hsettles
  | marked eligible => cases hsettles
  | candidate pending => cases hsettles
  | retired retires =>
    exact ⟨h.le, fun hl => (by cases hl), fun _ hl => (by cases hl), fun howes => howes.elim⟩
  | retried => exact .fewest (h.owed rfl) fun hl => by cases hl
  | staged => exact .fewest (h.owed rfl) fun hl => by cases hl

/-- A delivery. -/
theorem Taken.deliver {msg : ClaimedMessage} {result : DeliveryResult} {nowUs : Int64}
    {randomU32 : UInt32} {events : Events} (held : Held cfg id labels l (.delivering msg))
    (h : Taken losses k id l (.delivering msg)) :
    Taken losses (k + (StackLabel.task (.deliver msg result nowUs randomU32)).delivery id) id l
      (.settling (handleDeliveryResult cfg.retry msg nowUs randomU32 result).1 events) := by
  by_cases hid : msg.id = id
  · -- the transport takes a message that is in flight, and it stays so
    obtain ⟨e, rfl, hflying, -⟩ := held.delivering msg rfl hid
    have hk := h.owed hid
    have hone : (StackLabel.task (.deliver msg result nowUs randomU32)).delivery id ≤ 1 := by
      cases result <;> simp [StackLabel.delivery, StackLabel.delivers?, hid]
    refine ⟨Nat.add_le_add hk hone, fun hl => (by cases hl), fun e' hl hpending => ?_, fun howes => ?_⟩
    · cases hl
      rw [hflying] at hpending
      exact absurd hpending (by decide)
    · cases result with
      | success => exact howes.elim
      | permanentFailure => exact hk
      | retryableFailure => exact hk
  · have hnone : (StackLabel.task (.deliver msg result nowUs randomU32)).delivery id = 0 := by
      cases result <;> simp [StackLabel.delivery, StackLabel.delivers?, hid]
    rw [hnone]
    refine ⟨h.le, h.new, h.pending, fun howes => absurd ?_ hid⟩
    cases result with
    | success => exact howes.elim
    | permanentFailure => exact howes
    | retryableFailure =>
      have hsettles := handled_settles cfg.retry msg nowUs randomU32 .retryableFailure
      generalize (handleDeliveryResult cfg.retry msg nowUs randomU32 .retryableFailure).1 = op at *
      cases op with
      | scheduleRetry i next dead err => exact (Option.some.inj hsettles).symm.trans howes
      | _ => exact howes.elim

theorem Journey.Taken.step (held : j.Held cfg id labels) (h : j.Taken id labels)
    (step : JourneyStep cfg id j label j') : j'.Taken id (labels ++ [label]) := by
  have hcut : ∀ {label : StackLabel} {l l' : Life}, label.switchesOff = false →
      label.delivery id = 0 → (messageObject id).kept l l' → (Journey.off l).Taken id labels →
      (Journey.off l').Taken id (labels ++ [label]) := by
    intro label l l' hoff hnone kept h
    show _ ∧ _ ∧ _
    rw [powerLosses_snoc, deliveries_snoc, hnone, hoff]
    exact ⟨fun hl => h.1 ((kept_new kept).mp hl),
      fun hl => h.2.1 fun hgone => hl ((kept_gone kept).mpr hgone), h.2.2⟩
  cases step with
  | publish life accepted removed => exact (life.taken h).on rfl rfl
  | @idle l w w' label idle next =>
    have hoff : (StackLabel.task label).switchesOff = false := by cases label <;> rfl
    have h : EdgeSync.Taken _ _ id l w := h
    rcases next with rfl | free
    · exact h.on hoff (delivery_of_idle idle)
    · exact Taken.on ⟨h.le, h.new, h.pending, fun howes => absurd howes (not_owes_of_free free)⟩
        hoff (delivery_of_idle idle)
  | claim step => exact (step.taken_claim h).on rfl rfl
  | @deliver l msg result nowUs randomU32 events =>
    show EdgeSync.Taken _ _ _ _ _
    rw [powerLosses_snoc, deliveries_snoc]
    exact Taken.deliver held h
  | settle step => exact (step.taken_settle held h).on rfl rfl
  | publishCut life removed kept =>
    exact (life.taken h).loss rfl rfl (kept_new kept).mp
  | @callCut l l1 l' w op calling step kept =>
    have h : EdgeSync.Taken _ _ id l w := h
    have hl1 : l1 = .new → l = .new := by
      rcases step with rfl | ⟨res, step⟩
      · exact fun hl => hl
      · refine (step.spent ?_).1.mp
        cases calling with
        | claim ready => rfl
        | stats => rfl
        | settle settles => exact Held.no_enqueue held settles
    exact h.loss rfl rfl fun hl => hl1 ((kept_new kept).mp hl)
  | stopped kept => exact Taken.loss h rfl rfl (kept_new kept).mp
  | @booted l =>
    refine Taken.on ?_ rfl rfl
    have h : (l = .new → deliveries id labels = 0) ∧
      (l ≠ .gone → deliveries id labels ≤ powerLosses labels) ∧ _ := h
    refine ⟨h.2.2, fun hl => ?_, fun e hl _ => h.2.1 ?_, fun howes => howes.elim⟩
    · cases l with
      | new => exact h.1 rfl
      | _ => cases hl
    · cases l with
      | gone => cases hl
      | _ => simp
  | bootFailed kept => exact hcut rfl rfl kept h
  | bootCut kept => exact hcut rfl rfl kept h

theorem Journey.Taken.le (h : j.Taken id labels) : deliveries id labels ≤ powerLosses labels + 1 := by
  cases j with
  | off l => exact h.2.2
  | on l w => exact EdgeSync.Taken.le h

theorem journey_taken (run : StepRun (JourneyStep cfg id) (.off .new) labels j) :
    j.Taken id labels := by
  have hboth := run.invariant (I := fun labels j => j.Held cfg id labels ∧ j.Taken id labels)
    ⟨trivial, ⟨fun _ => rfl, fun _ => Nat.le_refl _, Nat.zero_le _⟩⟩
    fun _ _ _ _ h step => ⟨h.1.step step, h.2.step h.1 step⟩
  exact hboth.2

end Taken

/-- The transport takes a message at most once, and once more for every time the device was
switched off. -/
theorem duplicates_bounded (cfg : StackConfig) :
    (∀ (fcfg : FlashqConfig) (labels : List StackLabel) (t : Tasks (flashqBackend fcfg))
        (id : UInt64),
      DurableRun (flashqDurable fcfg) cfg labels t →
      deliveries id labels ≤ powerLosses labels + 1) ∧
    ∀ (usage : BlobStore → UInt32 × UInt32) (ncfg : NvsConfig)
        (hmax : ncfg.maxMessages.toNat ≤ 100000) (labels : List StackLabel)
        (t : Tasks (nvsBackend usage ncfg)) (id : UInt64),
      DurableRun (nvsDurable ncfg usage hmax) cfg labels t →
      deliveries id labels ≤ powerLosses labels + 1 := by
  have hbound : ∀ {D : DurableBackend} {labels : List StackLabel} {t : Tasks D.B},
      DurableRun D cfg labels t → ∀ id, deliveries id labels ≤ powerLosses labels + 1 := by
    intro D labels t h id
    obtain ⟨l, jrun, -⟩ := h.journey id
    exact (journey_taken jrun).le
  exact ⟨fun _ _ _ id h => hbound h id, fun _ _ _ _ _ id h => hbound h id⟩

/-- The power goes after the delivery, before it is settled. -/
def twiceScript : StackScript (nvsBackend noUsage slotConfig) :=
  [(.boot, []), (.task (.publish 0 slotMessage), []), (.task (.claim 10), []),
    (.task (.deliver .success 20 0), []), (.settleCut, [[.cut false]]),
    (.boot, []), (.task (.claim 10), []), (.task (.deliver .success 20 0), []),
    (.task .settle, [])]

/-- The bound is reached. -/
theorem duplicates_bounded_tight :
    ∃ labels t, DurableRun slotDurable rejectingStack labels t ∧ powerLosses labels = 1 ∧
      deliveries slotMessage.id labels = 2 ∧
      deliveries slotMessage.id labels ≤ powerLosses labels + 1 := by
  have hcheck : (StackSystem.play rejectingStack (.off emptyStore) twiceScript []).any
      (slotShows fun labels _ => decide (powerLosses labels = 1 ∧
        deliveries slotMessage.id labels = 2)) = true := by
    decide +kernel
  obtain ⟨labels, t, run, htest⟩ := slotRun (by decide) hcheck
  obtain ⟨hlosses, htwo⟩ := of_decide_eq_true htest
  exact ⟨labels, t, run, hlosses, htwo,
    (duplicates_bounded rejectingStack).2 noUsage slotConfig slotConfig_max labels t _ run⟩

end EdgeSync
