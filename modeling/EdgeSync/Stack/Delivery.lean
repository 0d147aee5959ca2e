/-
  Stack/Delivery.lean --- delivery at least once, over every loss of power.

  A message that was accepted stays until the transport took it or room was made for
  another one; what was settled for good is not delivered again; and every delivery is one
  of a message that was published.
-/
import EdgeSync.Stack.Durable
import EdgeSync.Stack.Script

set_option autoImplicit false

namespace EdgeSync

open Foundation

/-! ## What a run shows -/

/-- The message that a publish reported as accepted. -/
def StackLabel.accepts? : StackLabel → Option EdgesyncMessage
  | .task (.publish _ message _ ⟨.ok _, _⟩) => some message
  | _ => none

/-- The messages that `edgesync_queue_publish` accepted. -/
def acceptedMessages (labels : List StackLabel) : List EdgesyncMessage :=
  labels.filterMap (·.accepts?)

/-- The message that is handed to the transport. -/
def StackLabel.hands? : StackLabel → Option ClaimedMessage
  | .task (.deliver msg _ _ _) => some msg
  | _ => none

/-- The messages that were handed to the transport, in order. -/
def handedMessages (labels : List StackLabel) : List ClaimedMessage := labels.filterMap (·.hands?)

/-- The message that the transport took. -/
def StackLabel.delivers? : StackLabel → Option UInt64
  | .task (.deliver msg .success _ _) => some msg.id
  | _ => none

/-- The messages that the transport took. -/
def deliveredIds (labels : List StackLabel) : List UInt64 := labels.filterMap (·.delivers?)

/-- The messages a publish removed to make room, or perhaps removed when the power went. -/
def StackLabel.drops : StackLabel → List UInt64
  | .task (.publish _ _ calls _) => removedIds calls
  | .publishCut _ calls op => removedIdsCut calls op
  | _ => []

/-- The messages that made room for others. -/
def droppedIds (labels : List StackLabel) : List UInt64 := labels.flatMap (·.drops)

theorem accepts?_of_idle {label : TasksLabel} (h : label.idle = true) :
    (StackLabel.task label).accepts? = none := by
  cases label <;> first | rfl | cases h

theorem hands?_of_idle {label : TasksLabel} (h : label.idle = true) :
    (StackLabel.task label).hands? = none := by
  cases label <;> first | rfl | cases h

/-- The message of a journey. -/
def Journey.life : Journey → Life
  | .off l => l
  | .on l _ => l

section Calls

variable {id : UInt64} {l l' : Life} {op : StorageOp} {res : Except EspErr StorageReply}
  {message : EdgesyncMessage} {removed : List UInt64}

/-- What becomes of a message in a call that publishes nothing. -/
theorem MessageStep.spent (step : MessageStep id l op res l') (hop : op.enqueueId? = none) :
    (l' = .new ↔ l = .new) ∧ (l' = .gone → l = .gone ∨ ∃ newState, Retires op id newState) := by
  cases step with
  | aside other => exact ⟨Iff.rfl, .inl⟩
  | accepted same => cases hop
  | retired retires => exact ⟨by simp, fun _ => .inr ⟨_, retires⟩⟩
  | claimed eligible shows => exact ⟨by simp, fun h => by cases h⟩
  | corrupt eligible => exact ⟨by simp, fun h => by cases h⟩
  | marked eligible => exact ⟨by simp, fun h => by cases h⟩
  | retried => exact ⟨by simp, fun h => by cases h⟩
  | staged => exact ⟨by simp, fun h => by cases h⟩
  | candidate pending => exact ⟨by simp, fun h => by cases h⟩

theorem PublishLife.spent (life : PublishLife id message removed l l') :
    (l' = .new → l = .new) ∧ (l' = .gone → l = .gone ∨ id ∈ removed) := by
  cases life with
  | aside => exact ⟨fun h => h, .inl⟩
  | accepted same => exact ⟨fun _ => rfl, fun h => by cases h⟩
  | dropped pending mem => exact ⟨fun h => (by cases h), fun _ => .inr mem⟩

theorem kept_new (h : (messageObject id).kept l l') : l' = .new ↔ l = .new := by
  cases l <;> cases l' <;> simp_all [messageObject, Life.map]

theorem kept_gone (h : (messageObject id).kept l l') : l' = .gone ↔ l = .gone := by
  cases l <;> cases l' <;> simp_all [messageObject, Life.map]

/-- The worker settles with a retry, or because the transport took the message. -/
theorem handled_retires {retry : EdgesyncRetryConfig} {msg : ClaimedMessage}
    {result : DeliveryResult} {nowUs : Int64} {randomU32 : UInt32} {newState : FlashqState}
    (h : Retires (handleDeliveryResult retry msg nowUs randomU32 result).1 id newState) :
    result = .success ∧ msg.id = id := by
  cases result with
  | success =>
    cases h
    exact ⟨rfl, rfl⟩
  | permanentFailure => cases h
  | retryableFailure =>
    simp only [handleDeliveryResult, handleRetryableFailure] at h
    split at h <;> cases h

end Calls

/-! ## At least once -/

/-- Where a message that was accepted is, and why one is gone. -/
structure Accounted (id : UInt64) (labels : List StackLabel) (l : Life) : Prop where
  accepted : ∀ message ∈ acceptedMessages labels, message.id = id → l ≠ .new
  gone : l = .gone → id ∈ deliveredIds labels ∨ id ∈ droppedIds labels

section Accounted

variable {cfg : StackConfig} {id : UInt64} {labels : List StackLabel} {label : StackLabel}
  {l l' : Life} {j j' : Journey}

theorem Accounted.later (h : Accounted id labels l)
    (haccepts : ∀ message, label.accepts? = some message → message.id = id → l' ≠ .new)
    (hnew : l' = .new → l = .new)
    (hgone : l' = .gone → l = .gone ∨ id ∈ deliveredIds labels ∨ id ∈ label.drops) :
    Accounted id (labels ++ [label]) l' where
  accepted message hm hid := by
    rw [acceptedMessages, List.filterMap_append] at hm
    rcases List.mem_append.mp hm with hm | hm
    · exact fun hl => h.accepted message hm hid (hnew hl)
    · obtain ⟨label', hlabel, hsome⟩ := List.mem_filterMap.mp hm
      rw [List.mem_singleton.mp hlabel] at hsome
      exact haccepts message hsome hid
  gone hl := by
    rw [deliveredIds, List.filterMap_append, droppedIds, List.flatMap_append, List.mem_append,
      List.mem_append, List.flatMap_singleton]
    rcases hgone hl with hl | hdelivered | hdropped
    · exact (h.gone hl).imp .inl .inl
    · exact .inl (.inl hdelivered)
    · exact .inr (.inr hdropped)

/-- The worker publishes nothing. -/
theorem Held.no_enqueue {w : WorkerPhase} {op : StorageOp} {events : Events}
    (held : Held cfg id labels l w) (hw : w = .settling op events) : op.enqueueId? = none := by
  obtain ⟨msg, result, nowUs, randomU32, -, hop, -⟩ := held.settling op events hw
  have hsettles := handled_settles cfg.retry msg nowUs randomU32 result
  rw [← hop] at hsettles
  cases op <;> first | rfl | cases hsettles

theorem Accounted.step (held : j.Held cfg id labels) (h : Accounted id labels j.life)
    (step : JourneyStep cfg id j label j') : Accounted id (labels ++ [label]) j'.life := by
  have hsettled : ∀ {l w op events newState}, Held cfg id labels l w → w = .settling op events →
      Retires op id newState → id ∈ deliveredIds labels := by
    intro l w op events newState held hw retires
    obtain ⟨msg, result, nowUs, randomU32, hmem, rfl, -⟩ := held.settling op events hw
    obtain ⟨rfl, hid⟩ := handled_retires retires
    exact List.mem_filterMap.mpr ⟨_, hmem, congrArg some hid⟩
  cases step with
  | @publish l l' w p message calls report life accepted removed =>
    refine h.later ?_ life.spent.1 fun hl => (life.spent.2 hl).imp_right .inr
    intro message' haccepts hid
    obtain ⟨res, dropped⟩ := report
    cases res with
    | error err => cases haccepts
    | ok u =>
      cases haccepts
      rw [(accepted rfl hid).2]
      exact fun hl => by cases hl
  | @idle l w w' label idle next =>
    refine h.later (fun message haccepts => ?_) (fun hl => hl) .inl
    rw [accepts?_of_idle idle] at haccepts
    cases haccepts
  | claim step =>
    obtain ⟨hnew, hgone⟩ := step.spent rfl
    refine h.later (fun message haccepts => by cases haccepts) hnew.mp fun hl => ?_
    refine (hgone hl).imp_right ?_
    rintro ⟨newState, retires⟩
    cases retires
  | deliver => exact h.later (fun message haccepts => by cases haccepts) (fun hl => hl) .inl
  | @settle l l' op events res step =>
    obtain ⟨hnew, hgone⟩ := step.spent (Held.no_enqueue held rfl)
    refine h.later (fun message haccepts => by cases haccepts) hnew.mp fun hl => ?_
    refine (hgone hl).imp_right ?_
    rintro ⟨newState, retires⟩
    exact .inl (hsettled held rfl retires)
  | publishCut life removed kept =>
    refine h.later (fun message haccepts => by cases haccepts)
      (fun hl => life.spent.1 ((kept_new kept).mp hl)) fun hl => ?_
    exact (life.spent.2 ((kept_gone kept).mp hl)).imp_right .inr
  | @callCut l l1 l' w op calling step kept =>
    have hop : op.enqueueId? = none := by
      cases calling with
      | claim ready => rfl
      | stats => rfl
      | settle settles => exact Held.no_enqueue held settles
    have hspent : (l1 = .new ↔ l = .new) ∧
        (l1 = .gone → l = .gone ∨ ∃ newState, Retires op id newState) := by
      rcases step with rfl | ⟨res, step⟩
      · exact ⟨Iff.rfl, .inl⟩
      · exact step.spent hop
    refine h.later (fun message haccepts => by cases haccepts)
      (fun hl => hspent.1.mp ((kept_new kept).mp hl)) fun hl => ?_
    refine (hspent.2 ((kept_gone kept).mp hl)).imp_right ?_
    rintro ⟨newState, retires⟩
    cases calling with
    | claim ready => cases retires
    | stats => cases retires
    | settle settles => exact .inl (hsettled held settles retires)
  | stopped kept =>
    exact h.later (fun message haccepts => by cases haccepts) (kept_new kept).mp
      fun hl => .inl ((kept_gone kept).mp hl)
  | @booted l =>
    refine h.later (fun message haccepts => by cases haccepts) ?_ ?_
    · cases l <;> simp [Journey.life, Life.map]
    · cases l <;> simp [Journey.life, Life.map]
  | bootFailed kept =>
    exact h.later (fun message haccepts => by cases haccepts) (kept_new kept).mp
      fun hl => .inl ((kept_gone kept).mp hl)
  | bootCut kept =>
    exact h.later (fun message haccepts => by cases haccepts) (kept_new kept).mp
      fun hl => .inl ((kept_gone kept).mp hl)

theorem journey_accounted (run : StepRun (JourneyStep cfg id) (.off .new) labels j) :
    Accounted id labels j.life := by
  have hboth := run.invariant (I := fun labels j => j.Held cfg id labels ∧ Accounted id labels j.life)
    ⟨trivial, ⟨fun _ hm => absurd hm List.not_mem_nil, fun hl => by cases hl⟩⟩
    fun _ _ _ _ h step => ⟨h.1.step step, h.2.step h.1 step⟩
  exact hboth.2

end Accounted

/-! ## What the worker was handed -/

section Handed

variable {cfg : StackConfig} {labels : List StackLabel} {label : StackLabel}
  {w w' : Option WorkerPhase}

theorem publishedMessages_append (labels labels' : List FlashqStepLabel) :
    publishedMessages (labels ++ labels') = publishedMessages labels ++ publishedMessages labels' :=
  List.filterMap_append

/-- The storage accepted what the queue says it accepted. -/
theorem WorkerStep.accepts (step : WorkerStep cfg w label w') {message : EdgesyncMessage}
    (h : label.accepts? = some message) : message ∈ publishedMessages label.storage := by
  cases step with
  | publish made => cases made <;> cases h <;> simp [publishedMessages, StackLabel.storage,
      TasksLabel.calls, StorageCall.label, FlashqStepLabel.publishedMessage?]
  | _ => cases h

theorem accepted_published (run : StepRun (WorkerStep cfg) none labels w)
    {message : EdgesyncMessage} (hm : message ∈ acceptedMessages labels) :
    message ∈ publishedMessages (storageLabels labels) := by
  induction run with
  | nil => exact absurd hm List.not_mem_nil
  | @snoc labels w1 w2 label _ last ih =>
    rw [storageLabels_snoc, publishedMessages_append]
    rw [acceptedMessages, List.filterMap_append] at hm
    rcases List.mem_append.mp hm with hm | hm
    · exact List.mem_append_left _ (ih hm)
    · obtain ⟨label', hlabel, hsome⟩ := List.mem_filterMap.mp hm
      rw [List.mem_singleton.mp hlabel] at hsome
      exact List.mem_append_right _ (last.accepts hsome)

/-- A claim handed the message out. -/
def Claimed (labels : List StackLabel) (msg : ClaimedMessage) : Prop :=
  ∃ nowUs, .call (.claimNext nowUs) (.ok (.claim (.claimed msg))) ∈ storageLabels labels

theorem Claimed.later {msg : ClaimedMessage} (h : Claimed labels msg) :
    Claimed (labels ++ [label]) msg := by
  obtain ⟨nowUs, hmem⟩ := h
  refine ⟨nowUs, ?_⟩
  rw [storageLabels_snoc]
  exact List.mem_append_left _ hmem

/-- What the worker hands to the transport it has claimed. -/
structure WorkerClaimed (labels : List StackLabel) (w : Option WorkerPhase) : Prop where
  handed : ∀ msg ∈ handedMessages labels, Claimed labels msg
  delivering : ∀ msg, w = some (.delivering msg) → Claimed labels msg

theorem WorkerClaimed.later (h : WorkerClaimed labels w)
    (hhands : ∀ msg, label.hands? = some msg → w = some (.delivering msg))
    (hdelivering : ∀ msg, w' = some (.delivering msg) → w = some (.delivering msg) ∨
      Claimed (labels ++ [label]) msg) : WorkerClaimed (labels ++ [label]) w' where
  handed msg hmsg := by
    rw [handedMessages, List.filterMap_append] at hmsg
    rcases List.mem_append.mp hmsg with hmsg | hmsg
    · exact (h.handed msg hmsg).later
    · obtain ⟨label', hlabel, hsome⟩ := List.mem_filterMap.mp hmsg
      rw [List.mem_singleton.mp hlabel] at hsome
      exact (h.delivering msg (hhands msg hsome)).later
  delivering msg hw := (hdelivering msg hw).elim (fun hw => (h.delivering msg hw).later) fun h => h

theorem WorkerClaimed.step (h : WorkerClaimed labels w) (step : WorkerStep cfg w label w') :
    WorkerClaimed (labels ++ [label]) w' := by
  cases step with
  | @claim nowUs res =>
    refine h.later (fun _ hh => by cases hh) fun msg hw => .inr ⟨nowUs, ?_⟩
    rw [storageLabels_snoc]
    refine List.mem_append_right _ (List.mem_singleton.mpr ?_)
    have hres : res = .ok (.claim (.claimed msg)) := by
      rcases res with err | reply
      · cases hw
      · rcases reply with _ | reply | _ | _
        · cases hw
        · rcases reply with c | i
          · cases hw
            rfl
          · cases hw
        · cases hw
        · cases hw
    rw [hres]
    rfl
  | @deliver msg result nowUs randomU32 =>
    refine h.later (fun msg' hh => ?_) fun _ hw => by cases hw
    cases hh
    rfl
  | take waits =>
    refine h.later (fun _ hh => by cases hh) fun msg hw => ?_
    rcases waits with rfl | rfl <;> cases hw
  | publish made => exact h.later (fun _ hh => by cases hh) fun _ hw => .inl hw
  | publisherFires => exact h.later (fun _ hh => by cases hh) fun _ hw => .inl hw
  | wake => exact h.later (fun _ hh => by cases hh) fun _ hw => .inl hw
  | stats => exact h.later (fun _ hh => by cases hh) fun _ hw => .inl hw
  | _ => exact h.later (fun _ hh => by cases hh) fun _ hw => by cases hw

theorem worker_claimed (run : StepRun (WorkerStep cfg) none labels w) : WorkerClaimed labels w :=
  run.invariant (I := WorkerClaimed)
    ⟨fun _ h => absurd h List.not_mem_nil, fun _ h => by cases h⟩ fun _ _ _ _ h step => h.step step

end Handed

/-! ## What is over stays over -/

/-- A step after which the transport does not get the message again. -/
inductive Ends (id : UInt64) : StackLabel → Prop where
  | delivered {reply : StorageReply} : Ends id (.task (.settle (.markDelivered id) (.ok reply)))
  | deadLetter {nextRetryTimeUs : Int64} {lastError : Int32} {reply : StorageReply} :
      Ends id (.task (.settle (.scheduleRetry id nextRetryTimeUs true lastError) (.ok reply)))
  | corrupt {nowUs : Int64} : Ends id (.task (.claim nowUs (.ok (.claim (.corrupt id)))))
  | dropped {p : Nat} {message : EdgesyncMessage} {calls : List StorageCall}
      {report : PublishReport} {reply : StorageReply}
      (removed : (StorageOp.remove id, .ok reply) ∈ calls) :
      Ends id (.task (.publish p message calls report))
  | droppedCut {message : EdgesyncMessage} {calls : List StorageCall} {op : StorageOp}
      {reply : StorageReply} (removed : (StorageOp.remove id, .ok reply) ∈ calls) :
      Ends id (.publishCut message calls op)

/-- The message is gone, or a dead letter. -/
def Life.Over : Life → Prop
  | .new => False
  | .queued e => e.state = FlashqState.deadLetter.code
  | .gone => True

section Over

variable {cfg : StackConfig} {id : UInt64} {labels : List StackLabel} {label : StackLabel}
  {l l' : Life} {j j' : Journey} {op : StorageOp} {res : Except EspErr StorageReply}

theorem Life.Over.not_shown (settled : l.Over) (msg : ClaimedMessage) : ¬ msg.ShownBy l := by
  rintro ⟨e, rfl, hflying, -⟩
  rw [show e.state = _ from settled] at hflying
  exact absurd hflying (by decide)

theorem Life.Over.not_eligible {e : EntryMeta} {nowUs : Int64} (settled : (Life.queued e).Over) :
    e.eligible nowUs ≠ true := by
  rw [EntryMeta.eligible, show e.state = _ from settled]
  simp [FlashqState.code]

/-- Only a retry brings a dead letter back. -/
theorem MessageStep.over (step : MessageStep id l op res l') (settled : l.Over)
    (hretry : ∀ nextRetryTimeUs deadLetter lastError,
      op ≠ .scheduleRetry id nextRetryTimeUs deadLetter lastError) : l'.Over := by
  cases step with
  | aside other => exact settled
  | accepted same => exact settled.elim
  | claimed eligible shows => exact absurd eligible settled.not_eligible
  | corrupt eligible => exact absurd eligible settled.not_eligible
  | marked eligible => exact absurd eligible settled.not_eligible
  | retired retires => trivial
  | retried => exact absurd rfl (hretry _ _ _)
  | staged => exact absurd rfl (hretry _ _ _)
  | candidate pending => exact settled

theorem PublishLife.over {message : EdgesyncMessage} {removed : List UInt64}
    (life : PublishLife id message removed l l') (settled : l.Over) : l'.Over := by
  cases life with
  | aside => exact settled
  | accepted same => exact settled.elim
  | dropped pending removed => trivial

theorem requeued_deadLetter {p : Progress} :
    p.requeued.state = FlashqState.deadLetter.code ↔ p.state = FlashqState.deadLetter.code := by
  unfold Progress.requeued
  split
  · rename_i h
    rw [h]
    exact iff_of_false (show FlashqState.pending.code ≠ _ by decide) (by decide)
  · exact Iff.rfl

theorem kept_over (h : (messageObject id).kept l l') (settled : l.Over) : l'.Over := by
  cases l with
  | new => exact settled.elim
  | gone =>
    rw [(kept_gone h).mpr rfl]
    trivial
  | queued e =>
    cases l' with
    | new => exact absurd ((kept_new h).mp rfl) (by simp)
    | gone => trivial
    | queued e' =>
      have hdurable : e'.durable.state = e.durable.state := by
        rw [Life.queued.inj h]
      exact requeued_deadLetter.mp (hdurable.trans (requeued_deadLetter.mpr settled))

theorem Life.Over.settle (settled : l.Over) : (l.map EntryMeta.settle).Over := by
  cases l with
  | new => exact settled.elim
  | gone => trivial
  | queued e => exact requeued_deadLetter.mpr settled

/-- The worker retries what is in flight only. -/
theorem Held.no_retry {w : WorkerPhase} {events : Events} (held : Held cfg id labels l w)
    (hw : w = .settling op events) (settled : l.Over) (nextRetryTimeUs : Int64) (deadLetter : Bool)
    (lastError : Int32) : op ≠ .scheduleRetry id nextRetryTimeUs deadLetter lastError := by
  rintro rfl
  obtain ⟨msg, result, nowUs, randomU32, -, hop, hshown⟩ := held.settling _ events hw
  have hsettles := handled_settles cfg.retry msg nowUs randomU32 result
  rw [← hop] at hsettles
  exact settled.not_shown msg (hshown (Option.some.inj hsettles).symm)

theorem Life.Over.step (held : j.Held cfg id labels) (settled : j.life.Over)
    (step : JourneyStep cfg id j label j') :
    j'.life.Over ∧ ∀ msg, label.hands? = some msg → msg.id ≠ id := by
  cases step with
  | publish life accepted removed => exact ⟨life.over settled, fun _ h => by cases h⟩
  | @idle l w w' label idle next =>
    exact ⟨settled, fun msg h => by rw [hands?_of_idle idle] at h; cases h⟩
  | claim step => exact ⟨step.over settled (by simp), fun _ h => by cases h⟩
  | @deliver l msg result nowUs randomU32 events =>
    refine ⟨settled, fun msg' h hid => ?_⟩
    cases h
    exact settled.not_shown msg (Held.delivering held msg rfl hid)
  | settle step =>
    exact ⟨step.over settled (Held.no_retry held rfl settled), fun _ h => by cases h⟩
  | publishCut life removed kept => exact ⟨kept_over kept (life.over settled), fun _ h => by cases h⟩
  | callCut calling step kept =>
    refine ⟨kept_over kept ?_, fun _ h => by cases h⟩
    rcases step with rfl | ⟨res, step⟩
    · exact settled
    · refine step.over settled ?_
      cases calling with
      | claim ready => simp
      | settle settles => exact Held.no_retry held settles settled
      | stats => simp
  | stopped kept => exact ⟨kept_over kept settled, fun _ h => by cases h⟩
  | booted => exact ⟨settled.settle, fun _ h => by cases h⟩
  | bootFailed kept => exact ⟨kept_over kept settled, fun _ h => by cases h⟩
  | bootCut kept => exact ⟨kept_over kept settled, fun _ h => by cases h⟩

theorem Ends.over (ends : Ends id label) (step : JourneyStep cfg id j label j') : j'.life.Over := by
  cases ends with
  | delivered =>
    cases step with
    | idle idle next => cases idle
    | settle step =>
      cases step with
      | aside other => exact absurd rfl other
      | retired retires => trivial
  | deadLetter =>
    cases step with
    | idle idle next => cases idle
    | settle step =>
      cases step with
      | aside other => exact absurd rfl other
      | retired retires => trivial
      | retried => rfl
  | corrupt =>
    cases step with
    | idle idle next => cases idle
    | claim step =>
      cases step with
      | aside other => exact absurd rfl other
      | corrupt eligible => rfl
  | dropped hmem =>
    cases step with
    | idle idle next => cases idle
    | @publish l l' w p message calls report life accepted removed =>
      rw [show (Journey.on l' w).life = .gone from removed _ hmem]
      trivial
  | droppedCut hmem =>
    cases step with
    | @publishCut l l1 l' w message calls op life removed kept =>
      rw [show (Journey.off l').life = .gone from (kept_gone kept).mpr (removed _ hmem)]
      trivial

/-- What keeps a message away from the transport, from one step of its journey on. -/
theorem journey_kept_away (P : Journey → Prop) (ok : StackLabel → Prop)
    {before after : List StackLabel}
    (run : StepRun (JourneyStep cfg id) (.off .new) (before ++ label :: after) j)
    (first : ∀ j1 j2, JourneyStep cfg id j1 label j2 → P j2)
    (next : ∀ labels j1 label j2, j1.Held cfg id labels → P j1 → ok label →
      JourneyStep cfg id j1 label j2 → P j2 ∧ ∀ msg, label.hands? = some msg → msg.id ≠ id)
    (hok : ∀ label ∈ after, ok label) : ∀ msg ∈ handedMessages after, msg.id ≠ id := by
  obtain ⟨j1, run1, rest⟩ := run.split
  obtain ⟨j2, step, rest⟩ := rest.first
  have held := (journey_held run1).step step
  have hall := rest.invariant
    (I := fun labels j => j.Held cfg id (before ++ [label] ++ labels) ∧
      ((∀ label ∈ labels, ok label) → P j ∧ ∀ msg ∈ handedMessages labels, msg.id ≠ id))
    ⟨by rwa [List.append_nil], fun _ => ⟨first _ _ step, fun _ h => absurd h List.not_mem_nil⟩⟩
    fun labels s1 label s2 h step => by
      obtain ⟨held, haway⟩ := h
      refine ⟨by rw [← List.append_assoc]; exact held.step step, fun hok => ?_⟩
      obtain ⟨hp, hno⟩ := haway fun x hx => hok x (List.mem_append_left _ hx)
      obtain ⟨hp', hlabel⟩ := next _ _ _ _ held hp
        (hok label (List.mem_append_right _ List.mem_cons_self)) step
      refine ⟨hp', fun msg hmsg => ?_⟩
      rw [handedMessages, List.filterMap_append] at hmsg
      rcases List.mem_append.mp hmsg with hmsg | hmsg
      · exact hno msg hmsg
      · obtain ⟨label', hl, hsome⟩ := List.mem_filterMap.mp hmsg
        rw [List.mem_singleton.mp hl] at hsome
        exact hlabel msg hsome
  exact (hall.2 hok).2

/-- What ended is not handed to the transport again. -/
theorem journey_over {before after : List StackLabel}
    (run : StepRun (JourneyStep cfg id) (.off .new) (before ++ label :: after) j)
    (ends : Ends id label) : ∀ msg ∈ handedMessages after, msg.id ≠ id :=
  journey_kept_away (fun j => j.life.Over) (fun _ => True) run
    (fun _ _ step => ends.over step) (fun _ _ _ _ held settled _ step => settled.step held step)
    fun _ _ => trivial

end Over

/-! ## The results -/

section Results

variable {D : DurableBackend} {cfg : StackConfig} {labels : List StackLabel} {t : Tasks D.B}

/-- A message that was accepted is in the queue as it was accepted, or the transport took it,
or it made room for another one. -/
theorem DurableRun.at_least_once (h : DurableRun D cfg labels t) {message : EdgesyncMessage}
    (hm : message ∈ acceptedMessages labels) :
    (∃ x ∈ D.queue t.ctx t.dev, D.view x = D.view (StoredMessage.ofMessage message)) ∨
      message.id ∈ deliveredIds labels ∨ message.id ∈ droppedIds labels := by
  obtain ⟨l, jrun, seen⟩ := h.journey message.id
  have haccounted : Accounted message.id labels l := journey_accounted jrun
  cases l with
  | new => exact absurd rfl (haccounted.accepted message hm rfl)
  | gone => exact .inr (haccounted.gone rfl)
  | queued e =>
    obtain ⟨he, hid⟩ := seen.inTable
    rw [← D.metas_queue t.ctx t.dev] at he
    obtain ⟨x, hx, rfl⟩ := List.mem_map.mp he
    obtain ⟨message', hm', hview⟩ := D.keeps.published h.queue x hx
    have hid' : x.id = message'.id := congrArg (·.id) (D.keeps.heading hview)
    have hsame := published_eq h.unique hm' (accepted_published (stack_worker h.run) hm)
      (hid'.symm.trans hid)
    exact .inl ⟨x, hx, hsame ▸ hview⟩

/-- What is handed to the transport was published. -/
theorem DurableRun.genuine (h : DurableRun D cfg labels t) {msg : ClaimedMessage}
    (hmsg : msg ∈ handedMessages labels) :
    ∃ message ∈ publishedMessages (storageLabels labels),
      msg.Tells (StoredMessage.ofMessage message) := by
  obtain ⟨nowUs, hclaim⟩ := (worker_claimed (stack_worker h.run)).handed msg hmsg
  exact D.keeps.claims h.queue hclaim

/-- A message that was delivered, dead-lettered or dropped is not delivered again. -/
theorem DurableRun.final {before after : List StackLabel} {label : StackLabel} {id : UInt64}
    (h : DurableRun D cfg (before ++ label :: after) t) (ends : Ends id label) :
    ∀ msg ∈ handedMessages after, msg.id ≠ id := by
  obtain ⟨l, jrun, -⟩ := h.journey id
  exact journey_over jrun ends

end Results

/-! ## Both backends -/

/-- However often the power goes, an accepted message is in the queue as it was accepted, or the
transport took it, or it made room for another one.  The NVS backend may lose its payload. -/
theorem delivered_at_least_once (cfg : StackConfig) :
    (∀ (fcfg : FlashqConfig) (labels : List StackLabel) (t : Tasks (flashqBackend fcfg))
        (message : EdgesyncMessage),
      DurableRun (flashqDurable fcfg) cfg labels t → message ∈ acceptedMessages labels →
      (∃ x ∈ (FlashqCtx.core t.ctx).queue fcfg t.dev,
          x.accepted = StoredMessage.ofMessage message) ∨
        message.id ∈ deliveredIds labels ∨ message.id ∈ droppedIds labels) ∧
    ∀ (usage : BlobStore → UInt32 × UInt32) (ncfg : NvsConfig)
        (hmax : ncfg.maxMessages.toNat ≤ 100000) (labels : List StackLabel)
        (t : Tasks (nvsBackend usage ncfg)) (message : EdgesyncMessage),
      DurableRun (nvsDurable ncfg usage hmax) cfg labels t → message ∈ acceptedMessages labels →
      (∃ x ∈ NvsCtx.queue t.ctx t.dev,
          x.accepted.heading = (StoredMessage.ofMessage message).heading) ∨
        message.id ∈ deliveredIds labels ∨ message.id ∈ droppedIds labels :=
  ⟨fun _ _ _ _ h hm => h.at_least_once hm, fun _ _ _ _ _ _ h hm => h.at_least_once hm⟩

/-! ## A loss of power during a delivery -/

theorem slotConfig_max : slotConfig.maxMessages.toNat ≤ 100000 := by decide

/-- The stack over four slots. -/
def slotDurable : DurableBackend := nvsDurable slotConfig noUsage slotConfig_max

/-- The messages have ids of their own, and the run passes a test. -/
def slotShows (test : List StackLabel → Tasks (nvsBackend noUsage slotConfig) → Bool) :
    List StackLabel × StackSystem (nvsBackend noUsage slotConfig) → Bool
  | (labels, .on t) => decide ((publishedIds (storageLabels labels)).Nodup ∧
      AllCounted (storageLabels labels)) && test labels t
  | (_, .off _) => false

/-- No NVS call of the events fails, though the power may go. -/
def faultless (evs : List BlobEvent) : Bool := evs.all (· != BlobEvent.fail)

/-- What a script without faults shows of the stack over four slots. -/
theorem slotRun {cfg : StackConfig} {script : StackScript (nvsBackend noUsage slotConfig)}
    {test : List StackLabel → Tasks (nvsBackend noUsage slotConfig) → Bool}
    (hno : (script.all fun x => x.2.all faultless) = true)
    (h : (StackSystem.play cfg (.off emptyStore) script []).any (slotShows test) = true) :
    ∃ labels t, DurableRun slotDurable cfg labels t ∧ test labels t = true := by
  obtain ⟨x, hplay, hshows⟩ := (Option.any_eq_true _ _).mp h
  obtain ⟨labels, s⟩ := x
  cases s with
  | off dev => cases hshows
  | on t =>
    obtain ⟨hlabels, htest⟩ := Bool.and_eq_true_iff.mp hshows
    obtain ⟨hu, hlen⟩ := of_decide_eq_true hlabels
    refine ⟨labels, t, ⟨?_, hu, hlen⟩, htest⟩
    refine StackSystem.play_run (W := nvsWorld noUsage slotConfig workingStore)
      (fun _ _ => by simp [workingStore, nvsWorld, nvsBackend, blobDevice]) rfl
      (fun x hx evs hevs ev hev dev c => ?_) .nil hplay
    rintro rfl
    exact absurd (List.all_eq_true.mp (List.all_eq_true.mp (List.all_eq_true.mp hno x hx)
      evs hevs) _ hev) (by decide)

/-- The power goes while the message is delivered. -/
def interruptedScript : StackScript (nvsBackend noUsage slotConfig) :=
  [(.boot, []), (.task (.publish 0 slotMessage), []), (.task (.claim 10), []), (.stop, []),
    (.boot, [[.cut true]]), (.boot, [])]

theorem delivered_at_least_once_interrupted :
    ∃ labels t, DurableRun slotDurable rejectingStack labels t ∧
      slotMessage ∈ acceptedMessages labels ∧ deliveredIds labels = [] ∧ droppedIds labels = [] ∧
      ∃ x ∈ NvsCtx.queue t.ctx t.dev,
        x.accepted.heading = (StoredMessage.ofMessage slotMessage).heading := by
  have hcheck : (StackSystem.play rejectingStack (.off emptyStore) interruptedScript []).any
      (slotShows fun labels _ => decide (acceptedMessages labels = [slotMessage] ∧
        handedMessages labels = [] ∧ deliveredIds labels = [] ∧ droppedIds labels = [])) = true := by
    decide +kernel
  obtain ⟨labels, t, run, htest⟩ := slotRun (by decide) hcheck
  obtain ⟨haccepted, -, hdelivered, hdropped⟩ := of_decide_eq_true htest
  have hm : slotMessage ∈ acceptedMessages labels := by
    rw [haccepted]
    exact List.mem_singleton_self _
  refine ⟨labels, t, run, hm, hdelivered, hdropped, ?_⟩
  have hone := (delivered_at_least_once rejectingStack).2 noUsage slotConfig slotConfig_max labels t
    slotMessage run hm
  rw [hdelivered, hdropped] at hone
  exact hone.resolve_right fun h => h.elim List.not_mem_nil List.not_mem_nil

/-! ## Settled for good -/

/-- What was delivered, made a dead letter or dropped is not handed to the transport again,
whatever happens to the power. -/
theorem settled_is_final (cfg : StackConfig) :
    (∀ (fcfg : FlashqConfig) (before after : List StackLabel) (label : StackLabel)
        (t : Tasks (flashqBackend fcfg)) (id : UInt64),
      DurableRun (flashqDurable fcfg) cfg (before ++ label :: after) t → Ends id label →
      ∀ msg ∈ handedMessages after, msg.id ≠ id) ∧
    ∀ (usage : BlobStore → UInt32 × UInt32) (ncfg : NvsConfig)
        (hmax : ncfg.maxMessages.toNat ≤ 100000) (before after : List StackLabel)
        (label : StackLabel) (t : Tasks (nvsBackend usage ncfg)) (id : UInt64),
      DurableRun (nvsDurable ncfg usage hmax) cfg (before ++ label :: after) t → Ends id label →
      ∀ msg ∈ handedMessages after, msg.id ≠ id :=
  ⟨fun _ _ _ _ _ _ h ends => h.final ends, fun _ _ _ _ _ _ _ _ h ends => h.final ends⟩

/-- Another message, after the next start. -/
def nextMessage : EdgesyncMessage := { slotMessage with id := 8 }

/-- One message is delivered, and after a restart another one. -/
def settledScript : StackScript (nvsBackend noUsage slotConfig) :=
  [(.boot, []), (.task (.publish 0 slotMessage), []), (.task (.claim 10), []),
    (.task (.deliver .success 20 0), []), (.task .settle, []), (.stop, []), (.boot, []),
    (.task (.publish 0 nextMessage), []), (.task (.claim 10), []),
    (.task (.deliver .success 20 0), [])]

/-- The step at which the first message is settled. -/
def settledLabel : StackLabel := .task (.settle (.markDelivered 7) (.ok .done))

theorem settled_is_final_restarted :
    ∃ before after t, DurableRun slotDurable rejectingStack (before ++ settledLabel :: after) t ∧
      Ends slotMessage.id settledLabel ∧ (handedMessages after).map (·.id) = [nextMessage.id] ∧
      ∀ msg ∈ handedMessages after, msg.id ≠ slotMessage.id := by
  have hcheck : (StackSystem.play rejectingStack (.off emptyStore) settledScript []).any
      (slotShows fun labels _ => decide (labels.take 4 ++ settledLabel :: labels.drop 5 = labels ∧
        (handedMessages (labels.drop 5)).map (·.id) = [nextMessage.id])) = true := by
    decide +kernel
  obtain ⟨labels, t, run, htest⟩ := slotRun (by decide) hcheck
  obtain ⟨hlabels, hhanded⟩ := of_decide_eq_true htest
  rw [← hlabels] at run
  refine ⟨labels.take 4, labels.drop 5, t, run, .delivered, hhanded, ?_⟩
  exact (settled_is_final rejectingStack).2 noUsage slotConfig slotConfig_max _ _ _ t _ run .delivered

/-! ## What reaches the transport -/

/-- Every message that is handed to the transport is one that was published, to the same
destination and of the same length. -/
theorem handed_out_genuine (cfg : StackConfig) :
    (∀ (fcfg : FlashqConfig) (labels : List StackLabel) (t : Tasks (flashqBackend fcfg))
        (msg : ClaimedMessage),
      DurableRun (flashqDurable fcfg) cfg labels t → msg ∈ handedMessages labels →
      ∃ message ∈ publishedMessages (storageLabels labels),
        msg.Tells (StoredMessage.ofMessage message)) ∧
    ∀ (usage : BlobStore → UInt32 × UInt32) (ncfg : NvsConfig)
        (hmax : ncfg.maxMessages.toNat ≤ 100000) (labels : List StackLabel)
        (t : Tasks (nvsBackend usage ncfg)) (msg : ClaimedMessage),
      DurableRun (nvsDurable ncfg usage hmax) cfg labels t → msg ∈ handedMessages labels →
      ∃ message ∈ publishedMessages (storageLabels labels),
        msg.Tells (StoredMessage.ofMessage message) :=
  ⟨fun _ _ _ _ h hmsg => h.genuine hmsg, fun _ _ _ _ _ _ h hmsg => h.genuine hmsg⟩

/-- The power goes while the claim is written, and the message is delivered after the restart. -/
def lateScript : StackScript (nvsBackend noUsage slotConfig) :=
  [(.boot, []), (.task (.publish 0 slotMessage), []), (.claimCut 10, [[.run, .cut true]]),
    (.boot, []), (.task (.claim 10), []), (.task (.deliver .success 20 0), [])]

theorem handed_out_genuine_late :
    ∃ labels t msg, DurableRun slotDurable rejectingStack labels t ∧
      msg ∈ handedMessages labels ∧
      ∃ message ∈ publishedMessages (storageLabels labels),
        msg.Tells (StoredMessage.ofMessage message) := by
  have hcheck : (StackSystem.play rejectingStack (.off emptyStore) lateScript []).any
      (slotShows fun labels _ => decide ((handedMessages labels).length = 1)) = true := by
    decide +kernel
  obtain ⟨labels, t, run, htest⟩ := slotRun (by decide) hcheck
  obtain ⟨msg, hmsg⟩ := List.length_eq_one_iff.mp (of_decide_eq_true htest)
  have hmem : msg ∈ handedMessages labels := by
    rw [hmsg]
    exact List.mem_singleton_self msg
  exact ⟨labels, t, msg, run, hmem, (handed_out_genuine rejectingStack).2 noUsage slotConfig
    slotConfig_max labels t msg run hmem⟩

end EdgeSync
