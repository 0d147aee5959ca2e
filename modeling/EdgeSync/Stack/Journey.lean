/-
  Stack/Journey.lean --- one message on its way through the stack.

  The message and the worker are followed together, over every boot: what the storage
  makes of the message, and whether the worker has it in its hands.
-/
import EdgeSync.Stack.Message
import EdgeSync.Stack.Orphans
import EdgeSync.Stack.Reboots

set_option autoImplicit false

namespace EdgeSync

open Foundation

/-! ## What steps do to one message -/

section Inversion

variable {Q : Type} {O : AtomicObject Q} {q : Q} {p p' : Powered Q} {op : StorageOp}
  {res : Except EspErr StorageReply}

theorem AtomicStep.call_inv (step : AtomicStep O p (.call op res) p') :
    ∃ q q', p = .on q ∧ p' = .on q' ∧ O.call q op res q' := by
  cases step with
  | call call => exact ⟨_, _, rfl, rfl, call⟩

/-- A call that was cut took effect or did not. -/
theorem AtomicStep.cut_inv (step : AtomicStep O p (.callCut op) p') :
    ∃ q q1 q', p = .on q ∧ p' = .off q' ∧ (q1 = q ∨ ∃ res, O.call q op res q1) ∧ O.kept q1 q' := by
  cases step with
  | undone kept => exact ⟨_, _, _, rfl, rfl, .inl rfl, kept⟩
  | done call kept => exact ⟨_, _, _, rfl, rfl, .inr ⟨_, call⟩, kept⟩

end Inversion

namespace MessageStep

variable {id : UInt64} {l l' : Life} {message : EdgesyncMessage} {policy : OverflowPolicy}

theorem enqueue_error {err : EspErr} (step : MessageStep id l (.enqueue message) (.error err) l') :
    l' = l := by
  cases step with
  | aside other => rfl

theorem enqueue_ok {reply : StorageReply}
    (step : MessageStep id l (.enqueue message) (.ok reply) l') :
    (message.id ≠ id ∧ l' = l) ∨ (message.id = id ∧ l = .new ∧ l' = .queued message.entry) := by
  cases step with
  | aside other => exact .inl ⟨fun hid => other (congrArg some hid), rfl⟩
  | accepted same => exact .inr ⟨same, rfl, rfl⟩
  | retired retires => cases retires

theorem candidate_error {err : EspErr}
    (step : MessageStep id l (.findDropCandidate policy) (.error err) l') : l' = l := by
  cases step with
  | aside other => rfl

theorem candidate_ok {i : UInt64}
    (step : MessageStep id l (.findDropCandidate policy) (.ok (.candidate i)) l') :
    l' = l ∧ (i = id → ∃ e, l = .queued e ∧ e.state = FlashqState.pending.code) := by
  cases step with
  | aside other => exact ⟨rfl, fun hid => absurd (congrArg some hid) other⟩
  | candidate pending => exact ⟨rfl, fun _ => ⟨_, rfl, pending⟩⟩

theorem remove {i : UInt64} {res : Except EspErr StorageReply}
    (step : MessageStep id l (.remove i) res l') :
    l' = l ∨ (i = id ∧ res = .ok .done ∧ l' = .gone) := by
  cases step with
  | aside other => exact .inl rfl
  | retired retires =>
    cases retires
    exact .inr ⟨rfl, rfl, rfl⟩

theorem remove_ok {reply : StorageReply} (step : MessageStep id l (.remove id) (.ok reply) l') :
    l' = .gone := by
  cases step with
  | aside other => exact absurd rfl other
  | retired retires => rfl

/-- A message that is gone does not come back. -/
theorem enqueue_gone {res : Except EspErr StorageReply}
    (step : MessageStep id .gone (.enqueue message) res l') : l' = .gone := by
  cases step with
  | aside other => rfl

theorem stats {stats : EdgesyncStats} {res : Except EspErr StorageReply}
    (step : MessageStep id l (.getStats stats) res l') : l' = l := by
  cases step with
  | aside other => rfl
  | retired retires => cases retires

end MessageStep

/-! ## What a publish does to one message -/

/-- The message that a call removed. -/
def StorageCall.removedId? : StorageCall → Option UInt64
  | (.remove id, .ok _) => some id
  | _ => none

/-- The messages that were removed. -/
def removedIds (calls : List StorageCall) : List UInt64 := calls.filterMap (·.removedId?)

/-- The message that a call is about to remove. -/
def StorageOp.removes? : StorageOp → Option UInt64
  | .remove id => some id
  | _ => none

/-- The messages that were removed, or perhaps were when the power went during the call. -/
def removedIdsCut (calls : List StorageCall) (op : StorageOp) : List UInt64 :=
  removedIds calls ++ op.removes?.toList

/-- A removal that worked is among them. -/
theorem dropped_mem {i id : UInt64} {removed : Except EspErr StorageReply} {calls : List StorageCall}
    (mem : (StorageOp.remove i, removed) ∈ calls) (dropping : i = id ∧ removed = .ok .done) :
    id ∈ removedIds calls := by
  obtain ⟨rfl, rfl⟩ := dropping
  exact List.mem_filterMap.mpr ⟨_, mem, rfl⟩

/-- What a publish that removed `removed` may do to the message `id`. -/
inductive PublishLife (id : UInt64) (message : EdgesyncMessage) (removed : List UInt64) :
    Life → Life → Prop where
  | aside {l : Life} : PublishLife id message removed l l
  | accepted (same : message.id = id) : PublishLife id message removed .new (.queued message.entry)
  /-- it made room for the new message -/
  | dropped {e : EntryMeta} (pending : e.state = FlashqState.pending.code) (mem : id ∈ removed) :
      PublishLife id message removed (.queued e) .gone

section Publish

variable {id : UInt64} {l l' : Life} {p : Powered Life} {message : EdgesyncMessage}
  {policy : OverflowPolicy} {calls : List StorageCall} {report : PublishReport} {op : StorageOp}
  {removed : List UInt64} {res : Except EspErr StorageReply}

theorem MessageStep.enqueue (step : MessageStep id l (.enqueue message) res l') :
    PublishLife id message removed l l' := by
  cases res with
  | error err =>
    rw [step.enqueue_error]
    exact .aside
  | ok reply =>
    rcases step.enqueue_ok with ⟨_, rfl⟩ | ⟨hid, rfl, rfl⟩
    · exact .aside
    · exact .accepted hid

/-- The calls of an overflow, up to the removal. -/
theorem overflow_life {i : UInt64} {removed : Except EspErr StorageReply} {calls : List StorageCall}
    (run : StepRun (AtomicStep (messageObject id)) (.on l)
      (StorageCall.label (.enqueue message, .error .queueFull) ::
        StorageCall.label (.findDropCandidate policy, .ok (.candidate i)) ::
        StorageCall.label (.remove i, removed) :: calls.map StorageCall.label) p) :
    ∃ l1, (l1 = l ∨ ∃ e, (i = id ∧ removed = .ok .done) ∧ l = .queued e ∧
        e.state = FlashqState.pending.code ∧ l1 = .gone) ∧
      (∀ reply, removed = .ok reply → i = id → l1 = .gone) ∧
      StepRun (AtomicStep (messageObject id)) (.on l1) (calls.map StorageCall.label) p := by
  obtain ⟨p1, step1, rest1⟩ := run.first
  obtain ⟨p2, step2, rest2⟩ := rest1.first
  obtain ⟨p3, step3, rest3⟩ := rest2.first
  obtain ⟨_, l1, h0, rfl, step1⟩ := step1.call_inv
  obtain ⟨_, l2, h1, rfl, step2⟩ := step2.call_inv
  obtain ⟨_, l3, h2, rfl, step3⟩ := step3.call_inv
  cases h0
  cases h1
  cases h2
  have hl1 := MessageStep.enqueue_error step1
  obtain ⟨hl2, hcandidate⟩ := MessageStep.candidate_ok step2
  rw [hl1] at hl2 hcandidate
  refine ⟨l3, ?_, fun reply hremoved hid => ?_, rest3⟩
  case refine_2 =>
    subst hremoved hid
    exact MessageStep.remove_ok step3
  rcases MessageStep.remove step3 with hl3 | ⟨hid, hok, hl3⟩
  · exact .inl (hl3.trans hl2)
  · obtain ⟨e, he, hpending⟩ := hcandidate hid
    exact .inr ⟨e, ⟨hid, hok⟩, he, hpending, hl3⟩

/-- The calls of an overflow, and then a message that is stored or not. -/
theorem overflow_enqueue {l1 : Life} {dropping : Prop}
    (hl1 : l1 = l ∨ ∃ e, dropping ∧ l = .queued e ∧ e.state = FlashqState.pending.code ∧ l1 = .gone)
    (step : l' = l1 ∨ ∃ res, MessageStep id l1 (.enqueue message) res l')
    (hmem : dropping → id ∈ removed) : PublishLife id message removed l l' := by
  rcases hl1 with rfl | ⟨e, hdropping, rfl, hpending, rfl⟩
  · rcases step with rfl | ⟨res, step⟩
    · exact .aside
    · exact step.enqueue
  · have hgone : l' = .gone := by
      rcases step with rfl | ⟨res, step⟩
      · rfl
      · exact step.enqueue_gone
    rw [hgone]
    exact .dropped hpending (hmem hdropping)

/-- A publish that returned, and the message it is about. -/
theorem publish_life (made : PublishCalls policy message calls report)
    (run : StepRun (AtomicStep (messageObject id)) (.on l) (calls.map StorageCall.label) p) :
    ∃ l', p = .on l' ∧ PublishLife id message (removedIds calls) l l' ∧
      (report.res = .ok () → message.id = id → l = .new ∧ l' = .queued message.entry) ∧
      ∀ reply, (StorageOp.remove id, .ok reply) ∈ calls → l' = .gone := by
  have henqueue : ∀ {l res}, StepRun (AtomicStep (messageObject id)) (.on l)
      [StorageCall.label (.enqueue message, res)] p → ∃ l', p = .on l' ∧
        MessageStep id l (.enqueue message) res l' := by
    intro l res run
    obtain ⟨_, l', h, rfl, step⟩ := (StepRun.single_iff.mp run).call_inv
    cases h
    exact ⟨l', rfl, step⟩
  have haccepted : ∀ {l l' reply}, MessageStep id l (.enqueue message) (.ok reply) l' →
      message.id = id → l = .new ∧ l' = .queued message.entry := by
    intro l l' reply step hid
    exact (step.enqueue_ok.resolve_left fun h => h.1 hid).2
  have hgone : ∀ {l1 l' res1 res2 i removed reply}, MessageStep id l1 (.enqueue message) res2 l' →
      (removed = .ok reply → i = id → l1 = .gone) →
      (StorageOp.remove id, .ok reply) ∈ [(.enqueue message, .error .queueFull),
        (.findDropCandidate policy, res1), (.remove i, removed), (.enqueue message, res2)] →
      l' = .gone := by
    intro l1 l' res1 res2 i removed reply step hremoved hmem
    simp only [List.mem_cons, Prod.mk.injEq, reduceCtorEq, false_and, false_or, List.not_mem_nil,
      or_false, StorageOp.remove.injEq] at hmem
    rw [hremoved hmem.2.symm hmem.1.symm] at step
    exact step.enqueue_gone
  cases made with
  | accepted =>
    obtain ⟨l', rfl, step⟩ := henqueue run
    exact ⟨l', rfl, step.enqueue, fun _ => haccepted step, by simp⟩
  | rejected keep =>
    obtain ⟨l', rfl, step⟩ := henqueue run
    exact ⟨l', rfl, step.enqueue, fun hok => (by cases hok), by simp⟩
  | noCandidate drops =>
    obtain ⟨p1, step1, run⟩ := StepRun.first run
    obtain ⟨_, l1, h0, rfl, step1⟩ := step1.call_inv
    obtain ⟨_, l2, h1, rfl, step2⟩ := (StepRun.single_iff.mp run).call_inv
    cases h0
    cases h1
    rw [MessageStep.candidate_error step2, MessageStep.enqueue_error step1]
    exact ⟨_, rfl, .aside, fun hok => (by cases hok), by simp⟩
  | @replaced i removed drops =>
    obtain ⟨l1, hl1, hremoved, run⟩ :=
      @overflow_life _ _ _ _ _ _ _ [(.enqueue message, .ok .done)] run
    obtain ⟨l', rfl, step⟩ := henqueue run
    refine ⟨l', rfl, overflow_enqueue hl1 (.inr ⟨_, step⟩) (dropped_mem (by simp)), fun _ hid => ?_,
      fun reply hmem => hgone step (hremoved reply) hmem⟩
    obtain ⟨hnew, hl'⟩ := haccepted step hid
    rcases hl1 with rfl | ⟨e, _, _, _, rfl⟩
    · exact ⟨hnew, hl'⟩
    · cases hnew
  | @dropped i removed err drops =>
    obtain ⟨l1, hl1, hremoved, run⟩ :=
      @overflow_life _ _ _ _ _ _ _ [(.enqueue message, .error err)] run
    obtain ⟨l', rfl, step⟩ := henqueue run
    exact ⟨l', rfl, overflow_enqueue hl1 (.inr ⟨_, step⟩) (dropped_mem (by simp)),
      fun hok => (by cases hok), fun reply hmem => hgone step (hremoved reply) hmem⟩

/-- A publish during which the power went. -/
theorem publish_cut_life (made : PublishCut policy message calls op)
    (run : StepRun (AtomicStep (messageObject id)) (.on l)
      (calls.map StorageCall.label ++ [.callCut op]) p) :
    ∃ l1 l', p = .off l' ∧ PublishLife id message (removedIdsCut calls op) l l1 ∧
      (∀ reply, (StorageOp.remove id, .ok reply) ∈ calls → l1 = .gone) ∧
      (messageObject id).kept l1 l' := by
  obtain ⟨p1, before, cut⟩ := run.split
  obtain ⟨l2, l1, l', rfl, rfl, hcut, hkept⟩ := (StepRun.single_iff.mp cut).cut_inv
  refine ⟨l1, l', rfl, ?_⟩
  cases made with
  | first =>
    obtain rfl := Powered.on.inj before.eq_of_nil
    refine ⟨?_, fun reply hmem => absurd hmem List.not_mem_nil, hkept⟩
    rcases hcut with rfl | ⟨res, step⟩
    · exact .aside
    · exact MessageStep.enqueue step
  | selecting =>
    obtain ⟨_, l0, h, h0, step1⟩ := (StepRun.single_iff.mp before).call_inv
    cases h
    cases h0
    have hl2 := MessageStep.enqueue_error step1
    refine ⟨?_, by simp, hkept⟩
    rcases hcut with rfl | ⟨res, step⟩
    · rw [hl2]
      exact .aside
    · have hl1 : l1 = l2 := by
        cases res with
        | error err => exact MessageStep.candidate_error step
        | ok reply =>
          cases step with
          | aside other => rfl
          | candidate pending => rfl
          | retired retires => cases retires
      rw [hl1, hl2]
      exact .aside
  | @removing i =>
    obtain ⟨p2, step1, rest⟩ := StepRun.first before
    obtain ⟨_, l3, h0, rfl, step1⟩ := step1.call_inv
    obtain ⟨_, l4, h1, h2, step2⟩ := (StepRun.single_iff.mp rest).call_inv
    cases h0
    cases h1
    cases h2
    obtain ⟨hl2, hcandidate⟩ := MessageStep.candidate_ok step2
    rw [MessageStep.enqueue_error step1] at hl2 hcandidate
    subst hl2
    refine ⟨?_, by simp, hkept⟩
    rcases hcut with rfl | ⟨res, step⟩
    · exact .aside
    · rcases MessageStep.remove step with rfl | ⟨rfl, -, rfl⟩
      · exact .aside
      · obtain ⟨e, rfl, hpending⟩ := hcandidate rfl
        exact .dropped hpending (List.mem_append_right _ (List.mem_singleton_self i))
  | @second i removed =>
    obtain ⟨l3, hl3, hremoved, rest⟩ := @overflow_life _ _ _ _ _ _ _ [] before
    obtain rfl := Powered.on.inj rest.eq_of_nil
    refine ⟨overflow_enqueue hl3 hcut ?_, fun reply hmem => ?_, hkept⟩
    · exact fun hdropping => List.mem_append_left _ (dropped_mem (by simp) hdropping)
    · simp only [List.mem_cons, Prod.mk.injEq, reduceCtorEq, false_and, false_or,
        List.not_mem_nil, or_false, StorageOp.remove.injEq] at hmem
      rw [hremoved reply hmem.2.symm hmem.1.symm] at hcut
      rcases hcut with rfl | ⟨res, step⟩
      · rfl
      · exact step.enqueue_gone

end Publish

/-! ## The journey of one message -/

/-- The message and the worker, or the message on a device without power. -/
inductive Journey where
  | off (l : Life)
  | on (l : Life) (w : WorkerPhase)

/-- The message. -/
def Journey.power : Journey → Powered Life
  | off l => .off l
  | on l _ => .on l

/-- The worker. -/
def Journey.worker? : Journey → Option WorkerPhase
  | off _ => none
  | on _ w => some w

/-- A step that neither publishes, nor claims, delivers or settles. -/
def TasksLabel.idle : TasksLabel → Bool
  | .publish _ _ _ _ => false
  | .claim _ _ => false
  | .deliver _ _ _ _ => false
  | .settle _ _ => false
  | _ => true

/-- The worker has no message in its hands. -/
structure WorkerPhase.Free (w : WorkerPhase) : Prop where
  delivering : ∀ msg, w ≠ .delivering msg
  settling : ∀ op events, w ≠ .settling op events

/-- The calls of a task that the power may cut. -/
inductive WorkerPhase.Calling (w : WorkerPhase) : StorageOp → Prop where
  | claim {nowUs : Int64} (ready : w = .firing []) : w.Calling (.claimNext nowUs)
  | settle {op : StorageOp} {events : Events} (settles : w = .settling op events) : w.Calling op
  | stats : w.Calling (.getStats {})

/-- What a step of the stack does to the message `id`. -/
inductive JourneyStep (cfg : StackConfig) (id : UInt64) : Journey → StackLabel → Journey → Prop where
  | publish {l l' : Life} {w : WorkerPhase} {p : Nat} {message : EdgesyncMessage}
      {calls : List StorageCall} {report : PublishReport}
      (life : PublishLife id message (removedIds calls) l l')
      (accepted : report.res = .ok () → message.id = id → l = .new ∧ l' = .queued message.entry)
      (removed : ∀ reply, (StorageOp.remove id, .ok reply) ∈ calls → l' = .gone) :
      JourneyStep cfg id (.on l w) (.task (.publish p message calls report)) (.on l' w)
  | idle {l : Life} {w w' : WorkerPhase} {label : TasksLabel} (idle : label.idle = true)
      (next : w' = w ∨ w'.Free) : JourneyStep cfg id (.on l w) (.task label) (.on l w')
  | claim {l l' : Life} {nowUs : Int64} {res : Except EspErr StorageReply}
      (step : MessageStep id l (.claimNext nowUs) res l') :
      JourneyStep cfg id (.on l (.firing [])) (.task (.claim nowUs res)) (.on l' (.afterClaim res))
  | deliver {l : Life} {msg : ClaimedMessage} {result : DeliveryResult} {nowUs : Int64}
      {randomU32 : UInt32} {events : Events} :
      JourneyStep cfg id (.on l (.delivering msg)) (.task (.deliver msg result nowUs randomU32))
        (.on l (.settling (handleDeliveryResult cfg.retry msg nowUs randomU32 result).1 events))
  | settle {l l' : Life} {op : StorageOp} {events : Events} {res : Except EspErr StorageReply}
      (step : MessageStep id l op res l') :
      JourneyStep cfg id (.on l (.settling op events)) (.task (.settle op res))
        (.on l' (.firing events))
  | publishCut {l l1 l' : Life} {w : WorkerPhase} {message : EdgesyncMessage}
      {calls : List StorageCall} {op : StorageOp}
      (life : PublishLife id message (removedIdsCut calls op) l l1)
      (removed : ∀ reply, (StorageOp.remove id, .ok reply) ∈ calls → l1 = .gone)
      (kept : (messageObject id).kept l1 l') :
      JourneyStep cfg id (.on l w) (.publishCut message calls op) (.off l')
  | callCut {l l1 l' : Life} {w : WorkerPhase} {op : StorageOp} (calling : w.Calling op)
      (step : l1 = l ∨ ∃ res, MessageStep id l op res l1) (kept : (messageObject id).kept l1 l') :
      JourneyStep cfg id (.on l w) (.callCut op) (.off l')
  | stopped {l l' : Life} {w : WorkerPhase} (kept : (messageObject id).kept l l') :
      JourneyStep cfg id (.on l w) .stopped (.off l')
  | booted {l : Life} :
      JourneyStep cfg id (.off l) .booted (.on (l.map EntryMeta.settle) (.firing []))
  | bootFailed {l l' : Life} {err : EspErr} (kept : (messageObject id).kept l l') :
      JourneyStep cfg id (.off l) (.bootFailed err) (.off l')
  | bootCut {l l' : Life} (kept : (messageObject id).kept l l') :
      JourneyStep cfg id (.off l) .bootCut (.off l')

section Parts

variable {cfg : StackConfig} {id : UInt64} {j : Journey} {p p' : Powered Life}
  {w w' : Option WorkerPhase} {label : StackLabel} {labels : List StackLabel}

theorem AtomicStep.off_inv {Q : Type} {O : AtomicObject Q} {q : Q} {p : Powered Q}
    {label : FlashqStepLabel} (step : AtomicStep O (.on q) label p) (hop : label.op? = none) :
    ∃ q', p = .off q' ∧ O.kept q q' := by
  cases step with
  | call call => cases hop
  | undone kept => cases hop
  | done call kept => cases hop
  | stopped kept => exact ⟨_, rfl, kept⟩

/-- A step of the message and a step of the worker make a step of the journey. -/
theorem journey_step (run : StepRun (AtomicStep (messageObject id)) j.power label.storage p')
    (step : WorkerStep cfg j.worker? label w') :
    ∃ j', j'.power = p' ∧ j'.worker? = w' ∧ JourneyStep cfg id j label j' := by
  cases j with
  | off l =>
    cases step with
    | booted =>
      cases StepRun.single_iff.mp run with
      | booted restart =>
        refine ⟨.on (l.map EntryMeta.settle) (.firing []), ?_, rfl, .booted⟩
        rw [show _ = l.map EntryMeta.settle from restart]
        rfl
    | bootFailed =>
      cases StepRun.single_iff.mp run with
      | bootFailed kept => exact ⟨_, rfl, rfl, .bootFailed kept⟩
    | bootCut =>
      cases StepRun.single_iff.mp run with
      | bootCut kept => exact ⟨_, rfl, rfl, .bootCut kept⟩
  | on l w =>
    have hcall : ∀ {op res}, StepRun (AtomicStep (messageObject id)) (.on l) [.call op res] p' →
        ∃ l', p' = .on l' ∧ MessageStep id l op res l' := by
      intro op res run
      obtain ⟨_, l', h, rfl, step⟩ := (StepRun.single_iff.mp run).call_inv
      cases h
      exact ⟨l', rfl, step⟩
    have hcut : ∀ {op}, w.Calling op →
        StepRun (AtomicStep (messageObject id)) (.on l) [.callCut op] p' →
        ∃ j', j'.power = p' ∧ j'.worker? = none ∧ JourneyStep cfg id (.on l w) (.callCut op) j' := by
      intro op hcalling run
      obtain ⟨_, l1, l', h, rfl, hstep, hkept⟩ := (StepRun.single_iff.mp run).cut_inv
      cases h
      exact ⟨.off l', rfl, rfl, .callCut hcalling hstep hkept⟩
    have hidle : ∀ {w' : WorkerPhase} {label : TasksLabel}, label.idle = true → p' = .on l →
        (w' = w ∨ w'.Free) → ∃ j', j'.power = p' ∧ j'.worker? = some w' ∧
          JourneyStep cfg id (.on l w) (.task label) j' := by
      rintro w' label hlabel rfl next
      exact ⟨.on l w', rfl, rfl, .idle hlabel next⟩
    cases step with
    | publish made =>
      obtain ⟨l', rfl, life, accepted, removed⟩ := publish_life made run
      exact ⟨.on l' w, rfl, rfl, .publish life accepted removed⟩
    | publisherFires => exact hidle rfl run.eq_of_nil (.inl rfl)
    | wake => exact hidle rfl run.eq_of_nil (.inl rfl)
    | claim =>
      obtain ⟨l', rfl, step⟩ := hcall run
      exact ⟨.on l' _, rfl, rfl, .claim step⟩
    | take waits =>
      refine hidle rfl run.eq_of_nil (.inr ?_)
      rcases waits with rfl | rfl
      · exact ⟨by simp, by simp⟩
      · exact ⟨by simp, by simp⟩
    | woken => exact hidle rfl run.eq_of_nil (.inr ⟨by simp, by simp⟩)
    | timeout => exact hidle rfl run.eq_of_nil (.inr ⟨by simp, by simp⟩)
    | deliver =>
      obtain rfl := run.eq_of_nil
      exact ⟨.on l (.settling _ _), rfl, rfl, .deliver⟩
    | settle =>
      obtain ⟨l', rfl, step⟩ := hcall run
      exact ⟨.on l' _, rfl, rfl, .settle step⟩
    | workerFires => exact hidle rfl run.eq_of_nil (.inr ⟨by simp, by simp⟩)
    | stats =>
      obtain ⟨l', rfl, step⟩ := hcall run
      exact hidle rfl (by rw [MessageStep.stats step]) (.inl rfl)
    | publishCut made =>
      obtain ⟨l1, l', rfl, life, removed, kept⟩ := publish_cut_life made run
      exact ⟨.off l', rfl, rfl, .publishCut life removed kept⟩
    | claimCut => exact hcut (.claim rfl) run
    | settleCut => exact hcut (.settle rfl) run
    | statsCut => exact hcut .stats run
    | stopped =>
      obtain ⟨l', rfl, kept⟩ := (StepRun.single_iff.mp run).off_inv rfl
      exact ⟨.off l', rfl, rfl, .stopped kept⟩

/-- A run of the message and a run of the worker make a run of the journey. -/
theorem journey_run
    (run : StepRun (AtomicStep (messageObject id)) (.off .new) (storageLabels labels) p)
    (worker : StepRun (WorkerStep cfg) none labels w) :
    ∃ j, j.power = p ∧ j.worker? = w ∧ StepRun (JourneyStep cfg id) (.off .new) labels j := by
  induction worker generalizing p with
  | nil =>
    obtain rfl := run.eq_of_nil
    exact ⟨.off .new, rfl, rfl, .nil⟩
  | @snoc labels w1 w2 label _ last ih =>
    rw [storageLabels_snoc] at run
    obtain ⟨p1, run, step⟩ := run.split
    obtain ⟨j, rfl, rfl, jrun⟩ := ih run
    obtain ⟨j', hp, hw, jstep⟩ := journey_step step last
    exact ⟨j', hp, hw, jrun.snoc jstep⟩

end Parts

/-! ## The message in hand -/

/-- The entry says that the message is in flight, for the attempt the worker was told. -/
def ClaimedMessage.ShownBy (msg : ClaimedMessage) (l : Life) : Prop :=
  ∃ e, l = .queued e ∧ e.state = FlashqState.inFlight.code ∧ msg.attemptCount = e.attemptCount

/-- What the worker delivers is in flight, and what it settles it has delivered. -/
structure Held (cfg : StackConfig) (id : UInt64) (labels : List StackLabel) (l : Life)
    (w : WorkerPhase) : Prop where
  delivering : ∀ msg, w = .delivering msg → msg.id = id → msg.ShownBy l
  settling : ∀ op events, w = .settling op events → ∃ msg result nowUs randomU32,
    .task (.deliver msg result nowUs randomU32) ∈ labels ∧
    op = (handleDeliveryResult cfg.retry msg nowUs randomU32 result).1 ∧
    (msg.id = id → msg.ShownBy l)

/-- The same of a journey. -/
def Journey.Held (cfg : StackConfig) (id : UInt64) (labels : List StackLabel) : Journey → Prop
  | .off _ => True
  | .on l w => EdgeSync.Held cfg id labels l w

section Held

variable {cfg : StackConfig} {id : UInt64} {labels : List StackLabel} {label : StackLabel}
  {l l' : Life} {w w' : WorkerPhase} {j j' : Journey} {op : StorageOp}
  {res : Except EspErr StorageReply} {message : EdgesyncMessage} {removed : List UInt64}

theorem Held.of_free (free : w.Free) : Held cfg id labels l w :=
  ⟨fun msg hw => absurd hw (free.delivering msg), fun op events hw => absurd hw (free.settling op events)⟩

theorem Held.later (h : Held cfg id labels l w)
    (hl : ∀ msg : ClaimedMessage, msg.ShownBy l → msg.ShownBy l') :
    Held cfg id (labels ++ [label]) l' w where
  delivering msg hw hid := hl msg (h.delivering msg hw hid)
  settling op events hw := by
    obtain ⟨msg, result, nowUs, randomU32, hmem, hop, hshown⟩ := h.settling op events hw
    exact ⟨msg, result, nowUs, randomU32, List.mem_append_left _ hmem, hop,
      fun hid => hl msg (hshown hid)⟩

/-- A publish leaves a message in flight alone. -/
theorem PublishLife.shown (life : PublishLife id message removed l l') {msg : ClaimedMessage}
    (h : msg.ShownBy l) : msg.ShownBy l' := by
  obtain ⟨e, rfl, hflying, hattempt⟩ := h
  cases life with
  | aside => exact ⟨e, rfl, hflying, hattempt⟩
  | dropped pending removed =>
    rw [pending] at hflying
    exact absurd hflying (by decide)

/-- A claim that hands the message out. -/
theorem MessageStep.claim_shown {nowUs : Int64} {msg : ClaimedMessage}
    (step : MessageStep id l (.claimNext nowUs) (.ok (.claim (.claimed msg))) l')
    (hid : msg.id = id) : msg.ShownBy l' := by
  cases step with
  | aside other => exact absurd (congrArg some hid) other
  | claimed eligible shows => exact ⟨_, rfl, rfl, shows.attemptCount⟩

theorem Journey.Held.step (h : j.Held cfg id labels) (step : JourneyStep cfg id j label j') :
    j'.Held cfg id (labels ++ [label]) := by
  cases step with
  | publish life accepted removed => exact h.later fun _ => life.shown
  | idle idle next =>
    rcases next with rfl | free
    · exact h.later fun _ hs => hs
    · exact .of_free free
  | @claim l l' nowUs res step =>
    refine ⟨fun msg hw hid => ?_, fun op events hw => absurd hw (afterClaim_not_settling res op events)⟩
    rcases res with err | reply
    · cases hw
    · rcases reply with _ | reply | _ | _
      · cases hw
      · rcases reply with c | i
        · cases hw
          exact step.claim_shown hid
        · cases hw
      · cases hw
      · cases hw
  | @deliver l msg result nowUs randomU32 events =>
    refine ⟨fun msg hw => (by cases hw), fun op events hw => ?_⟩
    cases hw
    exact ⟨msg, result, nowUs, randomU32, List.mem_append_right _ (List.mem_singleton_self _), rfl,
      h.delivering msg rfl⟩
  | settle step => exact .of_free ⟨by simp, by simp⟩
  | booted => exact .of_free ⟨by simp, by simp⟩
  | publishCut life removed kept => trivial
  | callCut calling step kept => trivial
  | stopped kept => trivial
  | bootFailed kept => trivial
  | bootCut kept => trivial

theorem journey_held (run : StepRun (JourneyStep cfg id) (.off .new) labels j) :
    j.Held cfg id labels :=
  run.invariant (I := fun labels j => j.Held cfg id labels) trivial fun _ _ _ _ h step => h.step step

end Held

end EdgeSync
