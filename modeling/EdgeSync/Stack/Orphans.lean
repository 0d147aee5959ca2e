/-
  Stack/Orphans.lean --- messages in flight.

  The worker has at most one message in its hands.  The index says so as long as the
  functions that the calls of the worker need do not fail; where one of them fails, an entry
  may stay IN_FLIGHT although nobody delivers its message.
-/
import EdgeSync.Flashq.Recording
import EdgeSync.Nvs.Settling
import EdgeSync.Restarts
import EdgeSync.Stack.Events

set_option autoImplicit false

namespace EdgeSync

open Foundation

/-! ## The message of the worker -/

/-- The message that a settlement is about. -/
def StorageOp.settledId? : StorageOp → Option UInt64
  | .markDelivered id => some id
  | .scheduleRetry id _ _ _ => some id
  | _ => none

/-- The message between its claim and the end of `handle_delivery_result`. -/
def WorkerPhase.handles? : WorkerPhase → Option UInt64
  | .delivering msg => some msg.id
  | .settling op _ => op.settledId?
  | _ => none

/-- The only entry in flight is the one of `id?`. -/
structure InFlightIs (q : List EntryMeta) (id? : Option UInt64) : Prop where
  unique : (q.map (·.id)).Nodup
  states : ∀ e ∈ q, e.state = FlashqState.inFlight.code ↔ id? = some e.id
  present : ∀ id, id? = some id → id ∈ q.map (·.id)

section Calls

variable {q q' : List EntryMeta} {id? : Option UInt64} {early : Bool} {capacity : Nat}
  {op : StorageOp} {res : Except EspErr StorageReply}

theorem InFlightIs.enqueued {message : EdgesyncMessage} (h : InFlightIs q id?)
    (hnew : message.id ∉ q.map (·.id)) : InFlightIs (q ++ [message.entry]) id? where
  unique := by
    rw [List.map_append]
    refine h.unique.append (List.nodup_singleton _) fun id hid hid' => ?_
    rw [List.map_singleton, List.mem_singleton] at hid'
    rw [hid'] at hid
    exact hnew hid
  states e he := by
    rcases List.mem_append.mp he with he | he
    · exact h.states e he
    · rw [List.mem_singleton.mp he]
      refine iff_of_false (show FlashqState.pending.code ≠ _ by decide) fun hid => ?_
      exact hnew (h.present _ hid)
  present id hid := by
    rw [List.map_append]
    exact List.mem_append_left _ (h.present id hid)

/-- A message that leaves the queue is not in flight, or it was the one in flight. -/
theorem InFlightIs.retired {id : UInt64} {pos : Nat} (h : InFlightIs q id?)
    (hfound : findMeta q id = some pos) :
    InFlightIs (swapRemove q pos) (if id? = some id then none else id?) := by
  have hmem := fun e => @mem_swapRemove_of_found _ _ _ EntryMeta.id q id pos h.unique hfound e
  obtain ⟨x, hx, -⟩ := findPos_some hfound
  refine ⟨((((perm_swapRemove hx).map (·.id)).nodup_iff).mp h.unique).of_cons, fun e he => ?_,
    fun i hi => ?_⟩
  · obtain ⟨he, hne⟩ := (hmem e).mp he
    rw [h.states e he]
    split
    · rename_i hid
      rw [hid]
      exact iff_of_false (fun heq => hne (Option.some.inj heq).symm) (by simp)
    · exact Iff.rfl
  · split at hi
    · cases hi
    · rename_i hid
      obtain ⟨e, he, rfl⟩ := List.mem_map.mp (h.present i hi)
      refine List.mem_map_of_mem ((hmem e).mpr ⟨he, fun heq => hid ?_⟩)
      rw [← heq]
      exact hi

/-- An entry takes a state. -/
theorem InFlightIs.changed {id : UInt64} {pos : Nat} {f : Progress → Progress}
    {id?' : Option UInt64} (h : InFlightIs q id?) (hfound : findMeta q id = some pos)
    (hstate : ∀ e ∈ q, e.id = id → ((f e.progress).state = FlashqState.inFlight.code ↔ id?' = some id))
    (hother : ∀ i, i ≠ id → (id?' = some i ↔ id? = some i)) :
    InFlightIs (q.modify pos (·.change f)) id?' := by
  have hmem := fun e => @mem_modify_of_found _ _ _ EntryMeta.id q id pos (·.change f) h.unique hfound e
  refine ⟨by rw [map_id_modify]; exact h.unique, fun e he => ?_, fun i hi => ?_⟩
  · rcases (hmem e).mp he with ⟨he, hne⟩ | ⟨a, ha, hid, rfl⟩
    · rw [h.states e he, hother e.id hne]
    · rw [show (a.change f).id = id from hid]
      exact hstate a ha hid
  · rw [map_id_modify]
    by_cases hid : i = id
    · obtain ⟨e, he, heq⟩ := findPos_some hfound
      rw [hid]
      exact List.mem_map.mpr ⟨e, List.mem_of_getElem? he, eq_of_beq heq⟩
    · exact h.present i ((hother i hid).mp hi)

/-- A claim takes a pending entry. -/
theorem selectClaim_pending {nowUs : Int64} {pos : Nat} (hsel : selectClaim nowUs q = some pos) :
    ∃ e, q[pos]? = some e ∧ e.state = FlashqState.pending.code := by
  obtain ⟨e, he, hok⟩ := pick_some hsel
  simp only [EntryMeta.eligible, Bool.and_eq_true, beq_iff_eq] at hok
  exact ⟨e, he, hok.1⟩

/-- Calls that neither claim nor settle. -/
theorem InFlightIs.spared (h : InFlightIs q id?) (step : CallStep early capacity q op res q')
    (hnew : ∀ message, op = .enqueue message → message.id ∉ q.map (·.id))
    (hclaim : ∀ nowUs, op ≠ .claimNext nowUs)
    (hsettle : ∀ id, op.settledId? ≠ some id)
    (hremove : ∀ id, op = .remove id → id? ≠ some id) : InFlightIs q' id? := by
  cases step with
  | refused => exact h
  | enqueued room => exact h.enqueued (hnew _ rfl)
  | claimed selected entry shows => exact absurd rfl (hclaim _)
  | claimLost isEarly selected => exact absurd rfl (hclaim _)
  | corrupt selected entry => exact absurd rfl (hclaim _)
  | corruptLost selected => exact absurd rfl (hclaim _)
  | @retired _ id newState pos retires found =>
    cases retires with
    | delivered => exact absurd rfl (hsettle _)
    | removed =>
      have hout := h.retired found
      rwa [if_neg (hremove _ rfl)] at hout
  | retried found => exact absurd rfl (hsettle _)
  | retryLost found => exact absurd rfl (hsettle _)
  | candidate selected entry => exact h
  | stats => exact h

/-- A claim, while nothing is in flight. -/
theorem InFlightIs.claimed {nowUs : Int64} (h : InFlightIs q none)
    (step : CallStep early capacity q (.claimNext nowUs) res q')
    (hlost : ∀ err, early = true → res = .error err → q' = q) :
    InFlightIs q' (WorkerPhase.afterClaim res).handles? := by
  have hmarked : ∀ {pos : Nat} {f : Progress → Progress}, selectClaim nowUs q = some pos →
      (∀ p, p.state = FlashqState.pending.code → (f p).state ≠ FlashqState.inFlight.code) →
      InFlightIs (q.modify pos (·.change f)) none := by
    intro pos f hsel hstate
    obtain ⟨e, he, hpending⟩ := selectClaim_pending hsel
    refine h.changed (findPos_of_nodup h.unique he) (fun a ha hid => ?_) fun i _ => Iff.rfl
    obtain rfl := List.inj_on_of_nodup_map h.unique ha (List.mem_of_getElem? he) hid
    exact iff_of_false (hstate _ hpending) (by simp)
  cases step with
  | refused => exact h
  | @claimed _ pos e claimed selected entry shows =>
    rw [show (WorkerPhase.afterClaim (.ok (.claim (.claimed claimed)))).handles? = some e.id from
      congrArg some shows.id]
    refine h.changed (findPos_of_nodup h.unique entry) (fun a ha hid => iff_of_true rfl rfl)
      fun i hne => iff_of_false (fun heq => hne (Option.some.inj heq).symm) (by simp)
  | claimLost isEarly selected =>
    rw [hlost _ isEarly rfl]
    exact h
  | corrupt selected entry =>
    exact hmarked selected fun _ _ => show FlashqState.deadLetter.code ≠ _ by decide
  | corruptLost selected =>
    refine hmarked selected fun p hp => ?_
    rw [show p.marked.state = p.state from rfl, hp]
    decide
  | retired retires found => cases retires

/-- A retry that was assigned. -/
theorem InFlightIs.retried {id : UInt64} {pos : Nat} {nextRetryTimeUs : Int64} {deadLetter : Bool}
    {lastError : Int32} (h : InFlightIs q (some id)) (hfound : findMeta q id = some pos) :
    InFlightIs (q.modify pos (·.change (Progress.retried nextRetryTimeUs deadLetter lastError)))
      none := by
  refine h.changed hfound (fun a ha hid => iff_of_false ?_ (by simp)) fun i hne =>
    iff_of_false (by simp) fun heq => hne (Option.some.inj heq).symm
  cases deadLetter
  · exact show FlashqState.pending.code ≠ _ by decide
  · exact show FlashqState.deadLetter.code ≠ _ by decide

/-- The settlement was recorded, or it was a retry and the index has it. -/
def StorageOp.Took (op : StorageOp) (res : Except EspErr StorageReply) (q q' : List EntryMeta) :
    Prop :=
  (∃ reply, res = .ok reply) ∨
    ∃ (id : UInt64) (nextRetryTimeUs : Int64) (deadLetter : Bool) (lastError : Int32) (pos : Nat),
      op = .scheduleRetry id nextRetryTimeUs deadLetter lastError ∧ findMeta q id = some pos ∧
      q' = q.modify pos (·.change (Progress.retried nextRetryTimeUs deadLetter lastError))

theorem InFlightIs.settled {id : UInt64} (h : InFlightIs q (some id)) (hop : op.settledId? = some id)
    (step : CallStep early capacity q op res q') (took : op.Took res q q') : InFlightIs q' none := by
  rcases took with ⟨reply, rfl⟩ | ⟨_, _, _, _, pos, rfl, hfound, rfl⟩
  · cases step with
    | enqueued room => cases hop
    | claimed selected entry shows => cases hop
    | corrupt selected entry => cases hop
    | @retired _ id' newState pos retires found =>
      cases retires with
      | delivered =>
        cases hop
        have hout := h.retired found
        rwa [if_pos rfl] at hout
      | removed => cases hop
    | retried found =>
      cases hop
      exact h.retried found
    | candidate selected entry => cases hop
    | stats => cases hop
  · cases hop
    exact h.retried hfound

end Calls

/-! ## Publishes -/

section Publish

variable {B : StorageBackend} {env : Env B.Call B.Dev B.Event} {ctx ctx' : B.Ctx} {dev dev' : B.Dev}
  {policy : OverflowPolicy} {message : EdgesyncMessage} {calls : List StorageCall}
  {report : PublishReport} {id? : Option UInt64}

/-- The message that is dropped is not in flight. -/
theorem InFlightIs.dropping {id : UInt64} {removed res : Except EspErr StorageReply}
    (h : InFlightIs (B.metas ctx) id?) (run : Calls B env ctx dev
      [(.enqueue message, .error .queueFull), (.findDropCandidate policy, .ok (.candidate id)),
        (.remove id, removed), (.enqueue message, res)] ctx' dev') : id? ≠ some id := by
  obtain ⟨⟨e, he, hid, hstate⟩, _⟩ := run.dropping
  intro hid?
  have hflight := (h.states e he).mpr (by rw [hid, hid?])
  rw [hstate] at hflight
  exact absurd hflight (by decide)

/-- A publish of a new message. -/
theorem InFlightIs.publish (h : InFlightIs (B.metas ctx) id?) (run : Calls B env ctx dev calls ctx' dev')
    (made : PublishCalls policy message calls report)
    (hnew : message.id ∉ (B.metas ctx).map (·.id)) : InFlightIs (B.metas ctx') id? := by
  have henqueue : ∀ {ctx dev ctx' dev' res}, InFlightIs (B.metas ctx) id? →
      message.id ∉ (B.metas ctx).map (·.id) →
      Calls B env ctx dev [(.enqueue message, res)] ctx' dev' → InFlightIs (B.metas ctx') id? := by
    intro ctx dev ctx' dev' res h hnew run
    obtain ⟨ctx1, dev1, step, rest⟩ := run.cons_step
    obtain ⟨rfl, rfl⟩ := rest.eq_of_nil
    exact h.spared step (fun m hm => by cases hm; exact hnew) (by simp) (by simp [StorageOp.settledId?])
      (by simp)
  have hdrop : ∀ {id removed res}, Calls B env ctx dev [(.enqueue message, .error .queueFull),
      (.findDropCandidate policy, .ok (.candidate id)), (.remove id, removed),
      (.enqueue message, res)] ctx' dev' → InFlightIs (B.metas ctx') id? := by
    intro id removed res run
    have hnot := h.dropping run
    obtain ⟨_, ctx1, ctx2, dev2, heq, step, rest⟩ := run.dropping
    rw [heq] at step
    have hnext : InFlightIs (B.metas ctx2) id? := h.spared step (by simp) (by simp)
      (by simp [StorageOp.settledId?]) fun i hi => by cases hi; exact hnot
    refine henqueue hnext (fun hmem => hnew ?_) rest
    rcases step.ids with hids | ⟨m, hop, _⟩ | ⟨_, _, _, _, hperm⟩
    · rwa [hids] at hmem
    · cases hop
    · exact hperm.mem_iff.mpr (List.mem_cons_of_mem _ hmem)
  cases made with
  | accepted => exact henqueue h hnew run
  | rejected keep => exact henqueue h hnew run
  | noCandidate drops =>
    obtain ⟨ctx1, dev1, step1, rest⟩ := run.cons_step
    obtain ⟨ctx2, dev2, step2, rest⟩ := rest.cons_step
    obtain ⟨rfl, rfl⟩ := rest.eq_of_nil
    rw [step2.candidate_error, step1.enqueue_error]
    exact h
  | replaced drops => exact hdrop run
  | dropped drops => exact hdrop run

/-- The calls of a publish are about other messages than the one in flight. -/
theorem InFlightIs.passed (h : InFlightIs (B.metas ctx) id?) (run : Calls B env ctx dev calls ctx' dev')
    (made : PublishCalls policy message calls report)
    (hnew : message.id ∉ (B.metas ctx).map (·.id)) : ∀ call ∈ calls, call.1.PassesBy id? := by
  have henqueue : (StorageOp.enqueue message).PassesBy id? := fun hid => hnew (h.present _ hid)
  cases made with
  | accepted => simpa using henqueue
  | rejected keep => simpa using henqueue
  | noCandidate drops => simpa [StorageOp.PassesBy] using henqueue
  | replaced drops =>
    have hremove := h.dropping run
    simp only [List.forall_mem_cons, List.not_mem_nil, false_imp_iff, implies_true, and_true]
    exact ⟨henqueue, trivial, hremove, henqueue⟩
  | dropped drops =>
    have hremove := h.dropping run
    simp only [List.forall_mem_cons, List.not_mem_nil, false_imp_iff, implies_true, and_true]
    exact ⟨henqueue, trivial, hremove, henqueue⟩

end Publish

/-! ## What a backend does about the message in flight -/

/-- Where the calls of the worker are served, they do what they are for, and `Holds` says why
the settlement of the message in flight will. -/
structure KeepsFlight (B : StorageBackend)
    (Serves : Env B.Call B.Dev B.Event → B.Ctx → B.Dev → StorageOp → Prop)
    (Holds : B.Ctx → B.Dev → Option UInt64 → Prop) : Prop where
  passed : ∀ {env : Env B.Call B.Dev B.Event} {ctx ctx' : B.Ctx} {dev dev' : B.Dev} {op : StorageOp}
    {res : Except EspErr StorageReply} {id? : Option UInt64}, Holds ctx dev id? → op.PassesBy id? →
    Runs B.device env (B.ops.call op) ctx dev (.returned res ctx' dev') → Holds ctx' dev' id?
  claimed : ∀ {env : Env B.Call B.Dev B.Event} {ctx ctx' : B.Ctx} {dev dev' : B.Dev} {nowUs : Int64}
    {res : Except EspErr StorageReply}, Holds ctx dev none → ((B.metas ctx).map (·.id)).Nodup →
    Serves env ctx dev (.claimNext nowUs) →
    Runs B.device env (B.ops.call (.claimNext nowUs)) ctx dev (.returned res ctx' dev') →
    (∀ err, B.early = true → res = .error err → B.metas ctx' = B.metas ctx) ∧
      Holds ctx' dev' (WorkerPhase.afterClaim res).handles?
  settled : ∀ {env : Env B.Call B.Dev B.Event} {ctx ctx' : B.Ctx} {dev dev' : B.Dev} {op : StorageOp}
    {res : Except EspErr StorageReply} {id : UInt64}, Holds ctx dev (some id) →
    id ∈ (B.metas ctx).map (·.id) → op.settledId? = some id → Serves env ctx dev op →
    Runs B.device env (B.ops.call op) ctx dev (.returned res ctx' dev') →
    op.Took res (B.metas ctx) (B.metas ctx') ∧ Holds ctx' dev' none

/-! ## The tasks -/

/-- A step, and the events that its storage calls may meet. -/
structure FaultyLabel (B : StorageBackend) where
  label : TasksLabel
  env : Env B.Call B.Dev B.Event

section Tasks

variable {B : StorageBackend} {Serves : Env B.Call B.Dev B.Event → B.Ctx → B.Dev → StorageOp → Prop}
  {Holds : B.Ctx → B.Dev → Option UInt64 → Prop} {cfg : StackConfig} {s s' : Tasks B}
  {label : FaultyLabel B} {labels : List (FaultyLabel B)}

/-- Every step has failures of its own. -/
def FaultyStep (cfg : StackConfig) (s : Tasks B) (label : FaultyLabel B) (s' : Tasks B) : Prop :=
  TasksStep label.env cfg s label.label s'

/-- New messages have new ids, and the calls of the worker are served. -/
def Tended (Serves : Env B.Call B.Dev B.Event → B.Ctx → B.Dev → StorageOp → Prop) (s : Tasks B)
    (label : FaultyLabel B) : Prop :=
  match label.label with
  | .publish _ message _ _ => message.id ∉ (B.metas s.ctx).map (·.id)
  | .claim nowUs _ => Serves label.env s.ctx s.dev (.claimNext nowUs)
  | .settle op _ => Serves label.env s.ctx s.dev op
  | _ => True

/-- The index and the worker agree on the message in flight. -/
structure Tasks.OneInFlight (Holds : B.Ctx → B.Dev → Option UInt64 → Prop) (s : Tasks B) : Prop where
  index : InFlightIs (B.metas s.ctx) s.worker.handles?
  settling : ∀ op events, s.worker = .settling op events → ∃ id, op.settledId? = some id
  holds : Holds s.ctx s.dev s.worker.handles?

theorem handled_settles (retry : EdgesyncRetryConfig) (msg : ClaimedMessage) (nowUs : Int64)
    (randomU32 : UInt32) (result : DeliveryResult) :
    (handleDeliveryResult retry msg nowUs randomU32 result).1.settledId? = some msg.id := by
  cases result with
  | success => rfl
  | permanentFailure => rfl
  | retryableFailure =>
    simp only [handleDeliveryResult, handleRetryableFailure]
    split <;> rfl

theorem KeepsFlight.calls {env : Env B.Call B.Dev B.Event} {ctx ctx' : B.Ctx} {dev dev' : B.Dev}
    {calls : List StorageCall} {id? : Option UInt64} (keeps : KeepsFlight B Serves Holds)
    (run : Calls B env ctx dev calls ctx' dev') (h : Holds ctx dev id?)
    (hpass : ∀ call ∈ calls, call.1.PassesBy id?) : Holds ctx' dev' id? := by
  induction run with
  | nil => exact h
  | cons run rest ih =>
    exact ih (keeps.passed h (hpass _ List.mem_cons_self) run)
      fun call hcall => hpass call (List.mem_cons_of_mem _ hcall)

theorem Tasks.OneInFlight.step (keeps : KeepsFlight B Serves Holds) (h : s.OneInFlight Holds)
    (tended : Tended Serves s label) (step : FaultyStep cfg s label s') : s'.OneInFlight Holds := by
  obtain ⟨label, env⟩ := label
  have hindex := h.index
  have hholds := h.holds
  have step : TasksStep env cfg s label s' := step
  cases step with
  | publish idle run made =>
    have hpass := hindex.passed run made tended
    exact ⟨hindex.publish run made tended, h.settling, keeps.calls run hholds hpass⟩
  | publisherFires fires => exact ⟨hindex, h.settling, hholds⟩
  | wake wakes => exact ⟨hindex, h.settling, hholds⟩
  | @claim nowUs res ctx' dev' ready run =>
    rw [ready] at hindex hholds
    obtain ⟨hlost, hnext⟩ := keeps.claimed hholds hindex.unique tended run
    exact ⟨hindex.claimed (B.step run) hlost,
      fun op events hw => absurd hw (afterClaim_not_settling res op events), hnext⟩
  | take rests =>
    rw [rests] at hindex hholds
    have hhandles : (if s.notified = 0 then WorkerPhase.blocked else .firing []).handles? = none := by
      split <;> rfl
    refine ⟨?_, fun op events hw => ?_, ?_⟩
    · simp only [hhandles]
      exact hindex
    · simp only [] at hw
      split at hw <;> cases hw
    · simp only [hhandles]
      exact hholds
  | woken blocked notified =>
    rw [blocked] at hindex hholds
    exact ⟨hindex, (fun op events hw => by cases hw), hholds⟩
  | timeout blocked =>
    rw [blocked] at hindex hholds
    exact ⟨hindex, (fun op events hw => by cases hw), hholds⟩
  | @deliver msg result nowUs randomU32 delivers =>
    have hid := handled_settles cfg.retry msg nowUs randomU32 result
    have hhandles : s.worker.handles? =
        (handleDeliveryResult cfg.retry msg nowUs randomU32 result).1.settledId? := by
      rw [hid, delivers]
      rfl
    rw [hhandles] at hindex hholds
    refine ⟨hindex, fun op events hw => ?_, hholds⟩
    cases hw
    exact ⟨_, hid⟩
  | @settle op events res ctx' dev' settles run =>
    obtain ⟨id, hid⟩ := h.settling op events settles
    rw [settles, show (WorkerPhase.settling op events).handles? = some id from hid] at hindex hholds
    obtain ⟨took, hnext⟩ := keeps.settled hholds (hindex.present id rfl) hid tended run
    exact ⟨hindex.settled hid (B.step run) took, (fun op events hw => by cases hw), hnext⟩
  | workerFires fires =>
    rw [fires] at hindex hholds
    exact ⟨hindex, (fun op events hw => by cases hw), hholds⟩
  | stats run =>
    have hpass : (StorageOp.getStats {}).PassesBy s.worker.handles? := trivial
    exact ⟨hindex.spared (B.step run) (by simp) (by simp) (by simp [StorageOp.settledId?]) (by simp),
      h.settling, keeps.passed hholds hpass run⟩

theorem Tasks.OneInFlight.run (keeps : KeepsFlight B Serves Holds) (h : s.OneInFlight Holds)
    (run : StepRun (Guarded (FaultyStep cfg) (Tended Serves)) s labels s') : s'.OneInFlight Holds :=
  run.invariant (I := fun _ s => s.OneInFlight Holds) h
    fun _ _ _ _ h step => h.step keeps step.2 step.1

/-- After a restart that settled the entries, nothing is in flight. -/
theorem Tasks.oneInFlight_start {ctx : B.Ctx} {dev : B.Dev}
    (hsettled : ∃ q : List EntryMeta, B.metas ctx = q.map EntryMeta.settle)
    (hu : ((B.metas ctx).map (·.id)).Nodup) (h : Holds ctx dev none) :
    (Tasks.start ctx dev).OneInFlight Holds where
  index := by
    refine ⟨hu, fun e he => iff_of_false ?_ (by simp [Tasks.start, WorkerPhase.handles?]),
      fun id hid => by cases hid⟩
    obtain ⟨q, hq⟩ := hsettled
    have he : e ∈ q.map EntryMeta.settle := hq ▸ he
    obtain ⟨x, _, rfl⟩ := List.mem_map.mp he
    exact settle_state_ne x
  settling op events h := by cases h
  holds := h

end Tasks

/-! ## Both backends -/

/-- The NVS functions that a call of the worker needs. -/
def NvsServes (cfg : NvsConfig) (env : Env BlobCall BlobStore BlobEvent) (ctx : NvsCtx)
    (s : BlobStore) : StorageOp → Prop
  | .claimNext nowUs => ClaimWrites cfg env ctx s nowUs
  | .markDelivered _ => ¬ NvsFails env .eraseKey ∧ ¬ NvsFails env .commit
  | .scheduleRetry _ _ _ _ => ¬ NvsFails env .getBlob
  | _ => True

/-- A settlement needs the flash driver, and room for its record. -/
def FlashqServes (cfg : FlashqConfig) (env : Env FlashCall Memory FlashEvent) (ctx : FlashqCtx)
    (m : Memory) (op : StorageOp) : Prop :=
  ∀ id, op.settledId? = some id → FlashWorks cfg env ctx ∧ Recordable cfg ctx m op

theorem nvs_keepsFlight {cfg : NvsConfig} (usage : BlobStore → UInt32 × UInt32)
    (hmax : cfg.maxMessages.toNat ≤ 100000) :
    KeepsFlight (nvsBackend usage cfg) (NvsServes cfg) (HoldsFlight cfg) where
  passed h hop run := h.passed hmax hop run
  claimed {env ctx ctx' dev dev' nowUs res} h hu serves run := by
    obtain ⟨herror, hok⟩ := h.claim hu serves run
    refine ⟨fun err _ => herror err, ?_⟩
    have hnone := h.call run
    rcases res with err | reply
    · exact hnone
    · cases reply with
      | claim reply =>
        cases reply with
        | claimed msg => exact hok msg rfl
        | corrupt id => exact hnone
      | _ => exact hnone
  settled {env ctx ctx' dev dev' op res id} h hin hop serves run := by
    refine ⟨?_, h.call run⟩
    cases op with
    | markDelivered i =>
      cases hop
      exact .inl (h.delivered hin serves.1 serves.2 run)
    | scheduleRetry i nextRetryTimeUs deadLetter lastError =>
      cases hop
      obtain ⟨pos, hfound, hmetas⟩ := h.retried hin serves run
      exact .inr ⟨_, _, _, _, pos, rfl, hfound, hmetas⟩
    | _ => cases hop

theorem flashq_keepsFlight (cfg : FlashqConfig) :
    KeepsFlight (flashqBackend cfg) (FlashqServes cfg) fun _ _ _ => True where
  passed _ _ _ := trivial
  claimed _ _ _ _ := ⟨fun _ hearly => absurd hearly Bool.false_ne_true, trivial⟩
  settled {env ctx ctx' dev dev' op res id} _ hin hop serves run := by
    refine ⟨.inl ?_, trivial⟩
    obtain ⟨hworks, hroom⟩ := serves id hop
    obtain ⟨pos, hpos⟩ := findMeta_of_mem hin
    have hpos : findEntry ctx.index id = some pos := (findMeta_metas ctx id).symm.trans hpos
    have hcall : wp cfg.device env (flashqCall cfg op)
        ⟨fun _ _ _ => True, fun _ _ _ => False, fun _ => True⟩ ctx dev := by
      cases op with
      | markDelivered i =>
        cases hop
        exact wp_seq (wp_opMarkDelivered_works hworks hroom hpos) (fun _ _ _ _ => wp_ret.mpr trivial)
          (fun _ _ _ h => h) fun _ h => h
      | scheduleRetry i nextRetryTimeUs deadLetter lastError =>
        cases hop
        exact wp_seq (wp_opScheduleRetry_works hworks hroom hpos) (fun _ _ _ _ => wp_ret.mpr trivial)
          (fun _ _ _ h => h) fun _ h => h
      | _ => cases hop
    have hmeets := wp_sound run hcall
    cases res with
    | ok reply => exact ⟨reply, rfl⟩
    | error err => exact hmeets.elim

/-- At most one message is in flight, and it is the worker's: in every run that starts with a
restart, whatever else fails, as long as the calls of the worker are served. -/
theorem no_orphan (cfg : StackConfig) :
    (∀ (fcfg : FlashqConfig) (boot : Env FlashCall Memory FlashEvent) (ctx : FlashqCtx)
        (m m' : Memory) (labels : List (FaultyLabel (flashqBackend fcfg)))
        (s : Tasks (flashqBackend fcfg)),
      Runs fcfg.device boot (opRecover fcfg) (FlashqCtx.fresh fcfg) m (.ok () ctx m') →
      (ctx.metas.map (·.id)).Nodup →
      StepRun (Guarded (FaultyStep cfg) (Tended (FlashqServes fcfg))) (.start ctx m') labels s →
      InFlightIs (FlashqCtx.metas s.ctx) s.worker.handles?) ∧
    ∀ (ncfg : NvsConfig) (usage : BlobStore → UInt32 × UInt32)
        (boot : Env BlobCall BlobStore BlobEvent) (ctx : NvsCtx) (m m' : BlobStore)
        (labels : List (FaultyLabel (nvsBackend usage ncfg))) (s : Tasks (nvsBackend usage ncfg)),
      ncfg.maxMessages.toNat ≤ 100000 →
      Runs (blobDevice usage) boot (nvsOpRecover ncfg) (NvsCtx.fresh ncfg) m (.ok () ctx m') →
      (ctx.metas.map (·.id)).Nodup → (∀ x ∈ ctx.metas, x.Encodable ncfg.scratchSize) →
      StepRun (Guarded (FaultyStep cfg) (Tended (NvsServes ncfg))) (.start ctx m') labels s →
      InFlightIs (NvsCtx.metas s.ctx) s.worker.handles? := by
  constructor
  · intro fcfg boot ctx m m' labels s hboot hu run
    have hsettled := leaves_sound hboot (leaves_opRecover fcfg (FlashqCtx.fresh fcfg))
    have hstart : (Tasks.start ctx m' : Tasks (flashqBackend fcfg)).OneInFlight fun _ _ _ => True :=
      Tasks.oneInFlight_start hsettled hu trivial
    exact (hstart.run (flashq_keepsFlight fcfg) run).index
  · intro ncfg usage boot ctx m m' labels s hmax hboot hu hencodable run
    have hsettled := leaves_sound hboot (leaves_nvsOpRecover ncfg (NvsCtx.fresh ncfg))
    have hholds : HoldsFlight ncfg ctx m' none :=
      ⟨leaves_sound hboot (owned_nvsOpRecover (NvsCtx.fresh ncfg)), hencodable, by simp⟩
    have hstart : (Tasks.start ctx m' : Tasks (nvsBackend usage ncfg)).OneInFlight (HoldsFlight ncfg) :=
      Tasks.oneInFlight_start hsettled hu hholds
    exact (hstart.run (nvs_keepsFlight usage hmax) run).index

/-! ## A message that nobody delivers -/

theorem recover_empty : Runs (blobDevice noUsage) quietStore (nvsOpRecover slotConfig)
    (NvsCtx.fresh slotConfig) emptyStore (.ok () (NvsCtx.fresh slotConfig) emptyStore) := by
  have hexec : exec (blobDevice noUsage) (nvsOpRecover slotConfig) (NvsCtx.fresh slotConfig)
      emptyStore [] = .ok () (NvsCtx.fresh slotConfig) emptyStore := rfl
  have hcalm : ∀ s c, quietStore s c (blobDevice noUsage).calm := fun _ _ => rfl
  rw [← hexec]
  exact exec_runs hcalm _ _ _ [] fun _ hev => absurd hev List.not_mem_nil

/-- The message is published, and the record of its claim cannot be written. -/
def orphanScript : List (TasksAction × List (List BlobEvent)) :=
  [(.publish 0 slotMessage, []), (.claim 10, [[.run, .run, .fail]])]

/-- The worker rests, and the message is in flight. -/
def orphanShows : List TasksLabel × Tasks (nvsBackend noUsage slotConfig) → Bool
  | (labels, s) => decide (labels.length = 2 ∧ s.worker = .resting ∧
      (NvsCtx.metas s.ctx).map (fun e => (e.id, e.state)) = [(7, FlashqState.inFlight.code)])

/-- `nvs_set_blob` fails when the claim is to be recorded.  The worker has no message, the
entry stays IN_FLIGHT. -/
theorem claim_orphans : ∃ (labels : List TasksLabel) (s : Tasks (nvsBackend noUsage slotConfig)),
    Runs (blobDevice noUsage) quietStore (nvsOpRecover slotConfig) (NvsCtx.fresh slotConfig)
      emptyStore (.ok () (NvsCtx.fresh slotConfig) emptyStore) ∧
    StepRun (TasksStep anyStore rejectingStack) (.start (NvsCtx.fresh slotConfig) emptyStore) labels s ∧
    s.worker.handles? = none ∧
    ∃ e ∈ NvsCtx.metas s.ctx, e.state = FlashqState.inFlight.code := by
  have hcheck : ((Tasks.start (NvsCtx.fresh slotConfig) emptyStore :
      Tasks (nvsBackend noUsage slotConfig)).play rejectingStack orphanScript []).any orphanShows =
      true := by decide +kernel
  obtain ⟨labels, s, run, hshows⟩ := Tasks.play_passes anyStore (fun _ _ => trivial)
    (fun _ _ _ _ _ _ _ _ => trivial) hcheck
  obtain ⟨_, hworker, hmetas⟩ := of_decide_eq_true hshows
  refine ⟨labels, s, recover_empty, run, by rw [hworker]; rfl, ?_⟩
  have hmem : (7, FlashqState.inFlight.code) ∈
      (NvsCtx.metas s.ctx).map (fun e => (e.id, e.state)) := by
    rw [hmetas]
    exact List.mem_singleton_self _
  obtain ⟨e, he, heq⟩ := List.mem_map.mp hmem
  exact ⟨e, he, congrArg Prod.snd heq⟩

/-! ## Runs with failures -/

section Playing

variable {B : StorageBackend} {F : Type} {allow : F → B.Call → B.Event → Bool}
  {guard : Tasks B → TasksLabel → F → Bool}
  {Serves : Env B.Call B.Dev B.Event → B.Ctx → B.Dev → StorageOp → Prop} {cfg : StackConfig}

/-- Play a script whose steps fail as they say, and pass a guard on the state before them. -/
def Tasks.playFaulty (cfg : StackConfig) (allow : F → B.Call → B.Event → Bool)
    (guard : Tasks B → TasksLabel → F → Bool) :
    Tasks B → List (TasksAction × List (List B.Event) × F) → List (FaultyLabel B) →
    Option (List (FaultyLabel B) × Tasks B)
  | s, [], labels => some (labels, s)
  | s, (a, evs, f) :: script, labels =>
      match s.actBy (callAdmitted B (allow f)) cfg a evs with
      | none => none
      | some (label, s') =>
          if guard s label f then
            s'.playFaulty cfg allow guard script
              (labels ++ [⟨label, fun _ c ev => allow f c ev = true⟩])
          else none

theorem Tasks.playFaulty_run {script : List (TasksAction × List (List B.Event) × F)}
    {s0 s s' : Tasks B} {labels labels' : List (FaultyLabel B)}
    (hguard : ∀ s label f, guard s label f = true →
      Tended Serves s ⟨label, fun _ c ev => allow f c ev = true⟩)
    (run : StepRun (Guarded (FaultyStep cfg) (Tended Serves)) s0 labels s)
    (h : s.playFaulty cfg allow guard script labels = some (labels', s')) :
    StepRun (Guarded (FaultyStep cfg) (Tended Serves)) s0 labels' s' := by
  induction script generalizing s labels with
  | nil =>
    cases h
    exact run
  | cons x script ih =>
    obtain ⟨a, evs, f⟩ := x
    rw [Tasks.playFaulty] at h
    cases hact : s.actBy (callAdmitted B (allow f)) cfg a evs with
    | none => simp [hact] at h
    | some y =>
      obtain ⟨label, s1⟩ := y
      simp only [hact] at h
      split at h
      case isFalse => cases h
      case isTrue hpass =>
        have hstep : FaultyStep cfg s ⟨label, fun _ c ev => allow f c ev = true⟩ s1 :=
          Tasks.actBy_step (fun _ _ _ _ _ _ _ hcall => callAdmitted_runs hcall) hact
        exact ih (run.snoc ⟨hstep, hguard s label f hpass⟩) h

end Playing

/-- New messages have new ids, and none of the functions that the worker needs fails. -/
def nvsTended (s : Tasks (nvsBackend noUsage slotConfig)) (label : TasksLabel)
    (failed : List NvsFunction) : Bool :=
  match label with
  | .publish _ message _ _ => decide (message.id ∉ (NvsCtx.metas s.ctx).map (·.id))
  | .claim _ _ => decide (NvsFunction.setBlob ∉ failed ∧ NvsFunction.commit ∉ failed)
  | .settle (.markDelivered _) _ =>
      decide (NvsFunction.eraseKey ∉ failed ∧ NvsFunction.commit ∉ failed)
  | .settle (.scheduleRetry _ _ _ _) _ => decide (NvsFunction.getBlob ∉ failed)
  | .settle _ _ => false
  | _ => true

theorem nvsTended_tended (s : Tasks (nvsBackend noUsage slotConfig)) (label : TasksLabel)
    (failed : List NvsFunction) (h : nvsTended s label failed = true) :
    Tended (NvsServes slotConfig) s ⟨label, fun _ c ev => nvsAllow failed c ev = true⟩ := by
  have hnot : ∀ {f : NvsFunction}, f ∉ failed →
      ¬ NvsFails (fun (_ : BlobStore) c ev => nvsAllow failed c ev = true) f := by
    rintro f hf ⟨_, c, rfl, hev⟩
    exact hf (of_decide_eq_true hev rfl)
  cases label with
  | publish p message calls report =>
    have hnew : message.id ∉ (NvsCtx.metas s.ctx).map (·.id) := of_decide_eq_true h
    exact hnew
  | claim nowUs res =>
    obtain ⟨hset, hcommit⟩ := of_decide_eq_true h
    exact fun _ _ _ _ _ => ⟨hnot hset, hnot hcommit⟩
  | settle op res =>
    cases op with
    | markDelivered id =>
      obtain ⟨herase, hcommit⟩ := of_decide_eq_true h
      exact ⟨hnot herase, hnot hcommit⟩
    | scheduleRetry id nextRetryTimeUs deadLetter lastError => exact hnot (of_decide_eq_true h)
    | _ => cases h
  | _ => exact trivial

/-- Any flash call may fail, or only the erasure of one region. -/
def flashAllow (region? : Option (Fin 2)) (c : FlashCall) (ev : FlashEvent) : Bool :=
  match region?, c, ev with
  | none, _, _ => true
  | some r, .erase addr _, .fail _ => decide (addr = fullConfig.regionOffset r)
  | some _, _, .fail _ => false
  | some _, _, _ => true

/-- There is room for the record, and only the erasure of the old region fails. -/
def flashqSettles (ctx : FlashqCtx) (m : Memory) (op : StorageOp) (region? : Option (Fin 2)) : Bool :=
  decide (region? = some ctx.activeRegion ∧ Recordable fullConfig ctx m op)

theorem flashqSettles_iff {ctx : FlashqCtx} {m : Memory} {op : StorageOp} {region? : Option (Fin 2)} :
    flashqSettles ctx m op region? = true ↔
      region? = some ctx.activeRegion ∧ Recordable fullConfig ctx m op := decide_eq_true_iff

/-- New messages have new ids, and settlements are recorded. -/
def flashqTended (s : Tasks (flashqBackend fullConfig)) (label : TasksLabel)
    (region? : Option (Fin 2)) : Bool :=
  match label with
  | .publish _ message _ _ => decide (message.id ∉ (FlashqCtx.metas s.ctx).map (·.id))
  | .settle op _ => flashqSettles s.ctx s.dev op region?
  | _ => true

theorem flashqTended_tended (s : Tasks (flashqBackend fullConfig)) (label : TasksLabel)
    (region? : Option (Fin 2)) (h : flashqTended s label region? = true) :
    Tended (FlashqServes fullConfig) s ⟨label, fun _ c ev => flashAllow region? c ev = true⟩ := by
  cases label with
  | publish p message calls report =>
    have hnew : message.id ∉ (FlashqCtx.metas s.ctx).map (·.id) := of_decide_eq_true h
    exact hnew
  | claim nowUs res =>
    intro id hid
    cases hid
  | settle op res =>
    obtain ⟨rfl, hroom⟩ := flashqSettles_iff.mp h
    refine fun _ _ => ⟨fun m c n hev => ?_, hroom⟩
    cases c with
    | erase addr len =>
      have haddr : addr = fullConfig.regionOffset (FlashqCtx.activeRegion s.ctx) :=
        of_decide_eq_true hev
      exact haddr
    | read addr len => cases hev
    | write addr data => cases hev
  | _ => exact trivial

/-- An attempt to publish and one to claim fail.  A retry is scheduled, with `evs`, and the
message is claimed again. -/
def failuresScript {Event F : Type} (publishFails claimFails retryFails : List Event × F)
    (works : F) : List (TasksAction × List (List Event) × F) :=
  [(.publish 0 slotMessage, [publishFails.1], publishFails.2), (.publish 0 slotMessage, [], works),
    (.publisherFires 0, [], works), (.wake 0, [], works), (.claim 10, [claimFails.1], claimFails.2),
    (.take, [], works), (.claim 20, [], works), (.deliver .retryableFailure 30 0, [], works),
    (.settle, [retryFails.1], retryFails.2), (.workerFires, [], works), (.workerFires, [], works),
    (.claim 100030, [], works)]

/-- What the storage calls return, and the message in flight after them. -/
def failuresShow {B : StorageBackend} (retried : Except EspErr StorageReply) (payloadOff : Nat) :
    List (FaultyLabel B) × Tasks B → Bool
  | (labels, s) => decide (
      (labels.map (·.label.calls)).filter (· ≠ []) =
        [[(.enqueue slotMessage, .error .storage)], [(.enqueue slotMessage, .ok .done)],
          [(.claimNext 10, .error .storage)],
          [(.claimNext 20, .ok (.claim (.claimed
            ⟨7, [0x61], 1, .inFlight, 1, 5, 20, 0, 0, 3, payloadOff⟩)))],
          [(.scheduleRetry 7 100030 false 0x8A0A, retried)],
          [(.claimNext 100030, .ok (.claim (.claimed
            ⟨7, [0x61], 1, .inFlight, 2, 5, 100030, 100030, 0x8A0A, 3, payloadOff⟩)))]] ∧
      s.worker.handles? = some 7)

/-- On the NVS backend the record of the retry cannot be written. -/
def nvsFailures : List (TasksAction × List (List BlobEvent) × List NvsFunction) :=
  failuresScript ([.fail], [.setBlob]) ([.run, .fail], [.getBlob])
    ([.run, .run, .fail], [.setBlob, .commit]) []

/-- On the flash queue the retry comes after a compaction that cannot erase the old region. -/
def flashFailures : List (TasksAction × List (List FlashEvent) × Option (Fin 2)) :=
  failuresScript ([.run, .fail 0], none) ([.run, .run, .fail 0], none)
    (List.replicate 13 .run ++ [.fail 0], some 0) none

/-- The flash queue after its first start. -/
def flashStart : Option (FlashqCtx × Memory) :=
  match exec fullConfig.device (opRecover fullConfig) (FlashqCtx.fresh fullConfig) erasedFlash [] with
  | .ok _ ctx m => some (ctx, m)
  | _ => none

theorem flashStart_runs {ctx : FlashqCtx} {m : Memory} (h : flashStart = some (ctx, m)) :
    Runs fullConfig.device calmEnv (opRecover fullConfig) (FlashqCtx.fresh fullConfig) erasedFlash
      (.ok () ctx m) := by
  have hrun := @calm_runs fullConfig _ (opRecover fullConfig) (FlashqCtx.fresh fullConfig) erasedFlash
  unfold flashStart at h
  split at h
  case h_1 hexec =>
    cases h
    rwa [hexec] at hrun
  case h_2 => cases h

/-- Calls fail, and the message in flight is the one that is delivered. -/
theorem no_orphan_failures :
    (∃ (ctx : FlashqCtx) (m : Memory) (labels : List (FaultyLabel (flashqBackend fullConfig)))
        (s : Tasks (flashqBackend fullConfig)),
      Runs fullConfig.device calmEnv (opRecover fullConfig) (FlashqCtx.fresh fullConfig) erasedFlash
        (.ok () ctx m) ∧
      StepRun (Guarded (FaultyStep rejectingStack) (Tended (FlashqServes fullConfig)))
        (.start ctx m) labels s ∧
      failuresShow (.ok .done) 63 (labels, s) = true ∧
      InFlightIs (FlashqCtx.metas s.ctx) (some 7)) ∧
    ∃ (labels : List (FaultyLabel (nvsBackend noUsage slotConfig)))
        (s : Tasks (nvsBackend noUsage slotConfig)),
      StepRun (Guarded (FaultyStep rejectingStack) (Tended (NvsServes slotConfig)))
        (.start (NvsCtx.fresh slotConfig) emptyStore) labels s ∧
      failuresShow (.error .storage) 1 (labels, s) = true ∧
      InFlightIs (NvsCtx.metas s.ctx) (some 7) := by
  constructor
  · have hcheck : flashStart.any (fun start => start.1.index.isEmpty &&
        ((Tasks.start start.1 start.2 : Tasks (flashqBackend fullConfig)).playFaulty rejectingStack
          flashAllow flashqTended flashFailures []).any (failuresShow (.ok .done) 63)) = true := by
      decide +kernel
    obtain ⟨⟨ctx, m⟩, hstart, hcheck⟩ := (Option.any_eq_true _ _).mp hcheck
    obtain ⟨hempty, hcheck⟩ := Bool.and_eq_true_iff.mp hcheck
    obtain ⟨⟨labels, s⟩, hplay, hshows⟩ := (Option.any_eq_true _ _).mp hcheck
    have hboot := flashStart_runs hstart
    have run := Tasks.playFaulty_run flashqTended_tended .nil hplay
    have hu : (ctx.metas.map (·.id)).Nodup := by
      rw [FlashqCtx.metas, List.isEmpty_iff.mp hempty]
      exact List.nodup_nil
    refine ⟨ctx, m, labels, s, hboot, run, hshows, ?_⟩
    rw [← (of_decide_eq_true hshows).2]
    exact (no_orphan rejectingStack).1 fullConfig calmEnv ctx erasedFlash m labels s hboot hu run
  · have hcheck : ((Tasks.start (NvsCtx.fresh slotConfig) emptyStore :
        Tasks (nvsBackend noUsage slotConfig)).playFaulty rejectingStack nvsAllow nvsTended
          nvsFailures []).any (failuresShow (.error .storage) 1) = true := by decide +kernel
    obtain ⟨⟨labels, s⟩, hplay, hshows⟩ := (Option.any_eq_true _ _).mp hcheck
    have run := Tasks.playFaulty_run nvsTended_tended .nil hplay
    refine ⟨labels, s, run, hshows, ?_⟩
    rw [← (of_decide_eq_true hshows).2]
    exact (no_orphan rejectingStack).2 slotConfig noUsage quietStore _ _ _ labels s
      (by decide) recover_empty List.nodup_nil (by simp [NvsCtx.metas, NvsCtx.fresh]) run

end EdgeSync
