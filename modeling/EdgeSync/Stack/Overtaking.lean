/-
  Stack/Overtaking.lean --- how long a message waits for its turn.

  A message that is due is passed over only for messages that are ahead of it, and each
  of them is handed out once.  Only new messages and settled retries can bring more; and
  after every claim the worker is back at the next one in a few steps.
-/
import EdgeSync.Selected
import EdgeSync.Stack.Stats
import EdgeSync.Stack.Wakeup

set_option autoImplicit false

namespace EdgeSync

open Foundation

/-! ## Messages ahead -/

/-- A waiting message that a claim need not pass over for `e`. -/
def EntryMeta.aheadOf (e x : EntryMeta) : Bool :=
  x.id != e.id && x.state == FlashqState.pending.code && !e.claimedBefore x

/-- How many there are. -/
def ahead (e : EntryMeta) (q : List EntryMeta) : Nat := q.countP e.aheadOf

namespace StorageCall

/-- The call hands out another message. -/
def overtakes (e : EntryMeta) : StorageCall → Bool
  | (.claimNext _, .ok (.claim (.claimed claimed))) => claimed.id != e.id
  | _ => false

/-- The call may put another message ahead. -/
def joins (e : EntryMeta) : StorageCall → Bool
  | (.enqueue message, .ok _) => e.aheadOf message.entry
  | (.scheduleRetry id _ deadLetter _, res) => id != e.id && !(deadLetter && res.isOk)
  | _ => false

end StorageCall

section Ahead

variable {e x : EntryMeta} {q q' : List EntryMeta} {pos capacity : Nat} {early : Bool}
  {f : Progress → Progress} {op : StorageOp} {res : Except EspErr StorageReply}

theorem aheadOf_of_state (h : x.state ≠ FlashqState.pending.code) : e.aheadOf x = false := by
  rw [EntryMeta.aheadOf, beq_false_of_ne h, Bool.and_false, Bool.false_and]

theorem aheadOf_of_id (h : x.id = e.id) : e.aheadOf x = false := by
  rw [EntryMeta.aheadOf, h, bne_self_eq_false, Bool.false_and, Bool.false_and]

/-- Only the entry that changes moves ahead or falls behind. -/
theorem ahead_modify (hx : q[pos]? = some x) :
    ahead e (q.modify pos (·.change f)) + (if e.aheadOf x then 1 else 0) =
      ahead e q + (if e.aheadOf (x.change f) then 1 else 0) := by
  rw [ahead, ahead, (perm_modify hx).countP_eq, (perm_swapRemove hx).countP_eq, List.countP_cons,
    List.countP_cons]
  omega

theorem ahead_swapRemove (hx : q[pos]? = some x) : ahead e (swapRemove q pos) ≤ ahead e q := by
  rw [ahead, ahead, (perm_swapRemove hx).countP_eq, List.countP_cons]
  exact Nat.le_add_right _ _

/-- An entry that stays where it is. -/
theorem ahead_modify_same (hx : q[pos]? = some x) (hsame : e.aheadOf (x.change f) = e.aheadOf x) :
    ahead e (q.modify pos (·.change f)) = ahead e q := by
  have h := ahead_modify (e := e) (f := f) hx
  rw [hsame] at h
  exact Nat.add_right_cancel h

/-- An entry that does not wait any more. -/
theorem ahead_modify_le (hx : q[pos]? = some x) (hnot : e.aheadOf (x.change f) = false) :
    ahead e (q.modify pos (·.change f)) ≤ ahead e q := by
  have h := ahead_modify (e := e) (f := f) hx
  rw [hnot] at h
  simp only [Bool.false_eq_true, if_false] at h
  omega

/-- What is selected while `e` waits is `e`, or ahead of it. -/
theorem selected_ahead {nowUs : Int64} (hin : e ∈ q) (hready : e.Ready nowUs)
    (selected : selectClaim nowUs q = some pos) (hx : q[pos]? = some x) (hid : x.id ≠ e.id) :
    e.aheadOf x = true := by
  obtain ⟨x', hx', hbest⟩ := selectClaim_best selected
  obtain rfl := Option.some.inj (hx'.symm.trans hx)
  rw [EntryMeta.aheadOf, hbest.ready.1, EntryMeta.not_claimedBefore_iff.mpr (hbest.best e hin hready)]
  simp [hid]

/-- A call that no other message gains from. -/
theorem turn_of_le (hover : StorageCall.overtakes e (op, res) = false) (h : ahead e q' ≤ ahead e q) :
    ahead e q' + (if StorageCall.overtakes e (op, res) then 1 else 0) ≤
      ahead e q + (if StorageCall.joins e (op, res) then 1 else 0) := by
  rw [hover]
  exact h.trans (Nat.le_add_right _ _)

/-- A retry brings a message ahead at most once. -/
theorem turn_of_retry {id : UInt64} {nextRetryTimeUs : Int64} {deadLetter : Bool} {lastError : Int32}
    (hx : q[pos]? = some x) (hid : x.id = id)
    (hdead : (deadLetter && res.isOk) = true → e.aheadOf (x.change f) = false) :
    ahead e (q.modify pos (·.change f)) ≤ ahead e q + (if StorageCall.joins e
      (.scheduleRetry id nextRetryTimeUs deadLetter lastError, res) then 1 else 0) := by
  have h := ahead_modify (e := e) (f := f) hx
  by_cases hself : x.id = e.id
  · have hchange : (x.change f).id = e.id := hself
    rw [aheadOf_of_id hself, aheadOf_of_id hchange] at h
    omega
  · cases hdone : deadLetter && res.isOk with
    | true =>
      rw [hdead hdone] at h
      simp only [Bool.false_eq_true, if_false] at h
      omega
    | false =>
      have hjoins : StorageCall.joins e (.scheduleRetry id nextRetryTimeUs deadLetter lastError, res) =
          true := by
        rw [StorageCall.joins, hdone, ← hid]
        simp [hself]
      rw [hjoins]
      split at h <;> split at h <;> simp only [if_true] <;> omega

/-- A call hands out a message that was ahead, or leaves those that are. -/
theorem CallStep.turn (step : CallStep early capacity q op res q')
    (hwaits : ∀ nowUs, op = .claimNext nowUs → e ∈ q ∧ e.Ready nowUs) :
    ahead e q' + (if StorageCall.overtakes e (op, res) then 1 else 0) ≤
      ahead e q + (if StorageCall.joins e (op, res) then 1 else 0) := by
  have herror : ∀ {op : StorageOp} {err : EspErr}, StorageCall.overtakes e (op, .error err) = false :=
    fun {op _} => by cases op <;> rfl
  cases step with
  | refused => exact turn_of_le herror (Nat.le_refl _)
  | @enqueued message room =>
    rw [ahead, List.countP_append, List.countP_singleton]
    exact Nat.le_refl _
  | @claimed nowUs pos x claimed selected entry shows =>
    obtain ⟨hin, hready⟩ := hwaits nowUs rfl
    have hnot : e.aheadOf (x.change (Progress.claimed nowUs)) = false :=
      aheadOf_of_state (show FlashqState.inFlight.code ≠ FlashqState.pending.code by decide)
    by_cases hid : x.id = e.id
    · refine turn_of_le ?_ (ahead_modify_le entry hnot)
      rw [StorageCall.overtakes, shows.id, hid, bne_self_eq_false]
    · have h := ahead_modify (e := e) (f := Progress.claimed nowUs) entry
      rw [hnot, selected_ahead hin hready selected entry hid] at h
      simp only [Bool.false_eq_true, if_false, if_true] at h
      refine (Nat.add_le_add_left ?_ _).trans (h.le.trans (Nat.le_add_right _ _))
      split
      · exact Nat.le_refl _
      · exact Nat.zero_le _
  | @claimLost nowUs pos err isEarly selected =>
    obtain ⟨x, entry, -⟩ := selectClaim_best selected
    exact turn_of_le herror (ahead_modify_le entry
      (aheadOf_of_state (show FlashqState.inFlight.code ≠ FlashqState.pending.code by decide)))
  | corrupt selected entry =>
    exact turn_of_le rfl (ahead_modify_le entry
      (aheadOf_of_state (show FlashqState.deadLetter.code ≠ FlashqState.pending.code by decide)))
  | corruptLost selected =>
    obtain ⟨x, entry, -⟩ := selectClaim_best selected
    exact turn_of_le herror (ahead_modify_same entry rfl).le
  | retired retires found =>
    obtain ⟨x, hx, -⟩ := findPos_some found
    exact turn_of_le (by cases retires <;> rfl) (ahead_swapRemove hx)
  | @retried id nextRetryTimeUs deadLetter lastError pos found =>
    obtain ⟨x, hx, hid⟩ := findPos_some found
    refine turn_of_retry (x := x) hx (eq_of_beq hid) fun hdead => ?_
    obtain rfl : deadLetter = true := (Bool.and_eq_true_iff.mp hdead).1
    exact aheadOf_of_state (show FlashqState.deadLetter.code ≠ FlashqState.pending.code by decide)
  | @retryLost id nextRetryTimeUs deadLetter lastError pos err found =>
    obtain ⟨x, hx, hid⟩ := findPos_some found
    refine turn_of_retry (x := x) hx (eq_of_beq hid) fun hdead => ?_
    exact absurd (Bool.and_eq_true_iff.mp hdead).2 Bool.false_ne_true
  | candidate selected entry => exact turn_of_le rfl (Nat.le_refl _)
  | stats => exact turn_of_le rfl (Nat.le_refl _)

end Ahead

/-! ## The worker -/

/-- How many steps the worker has left until it claims again. -/
def WorkerPhase.remaining : WorkerPhase → Nat
  | firing events => events.length
  | resting => 2
  | blocked => 1
  | delivering _ => 4
  | settling _ events => events.length + 1

/-- A step of the worker. -/
def TasksLabel.byWorker : TasksLabel → Bool
  | .claim _ _ => true
  | .take => true
  | .woken => true
  | .timeout => true
  | .deliver _ _ _ _ => true
  | .settle _ _ => true
  | .workerFires _ _ => true
  | _ => false

/-- The worker claims. -/
def TasksLabel.claims : TasksLabel → Bool
  | .claim _ _ => true
  | _ => false

/-- When the worker claims. -/
def TasksLabel.claimedAt? : TasksLabel → Option Int64
  | .claim nowUs _ => some nowUs
  | _ => none

/-- It hands out another message than `e`. -/
def TasksLabel.overtakes (e : EntryMeta) : TasksLabel → Bool
  | .claim nowUs res => StorageCall.overtakes e (.claimNext nowUs, res)
  | _ => false

/-- It hands out `e`. -/
def TasksLabel.serves (e : EntryMeta) : TasksLabel → Bool
  | .claim _ (.ok (.claim (.claimed claimed))) => claimed.id == e.id
  | _ => false

/-- It claims, and hands out nothing. -/
def TasksLabel.fruitless : TasksLabel → Bool
  | .claim _ (.ok (.claim (.claimed _))) => false
  | .claim _ _ => true
  | _ => false

/-- What a run starts with, the worker has claimed or been given. -/
def WorkerPhase.Handling (cfg : EdgesyncRetryConfig) : WorkerPhase → Prop
  | firing events => events.length ≤ 2
  | settling op events => ∃ msg result nowUs randomU32,
      op = (handleDeliveryResult cfg msg nowUs randomU32 result).1 ∧
      events = (handleDeliveryResult cfg msg nowUs randomU32 result).2.map (·, msg.id)
  | _ => True

section Worker

variable {B : StorageBackend} {env : Env B.Call B.Dev B.Event} {cfg : StackConfig}
  {s s' : Tasks B} {label : TasksLabel} {labels : List TasksLabel}

/-- At most two events follow a delivery, and what it leads to is no claim. -/
theorem handled_small (rcfg : EdgesyncRetryConfig) (msg : ClaimedMessage) (nowUs : Int64)
    (randomU32 : UInt32) (result : DeliveryResult) :
    (handleDeliveryResult rcfg msg nowUs randomU32 result).2.length ≤ 2 ∧
      ∀ now, (handleDeliveryResult rcfg msg nowUs randomU32 result).1 ≠ .claimNext now := by
  cases result with
  | success => exact ⟨Nat.le_succ 1, fun _ h => by cases h⟩
  | permanentFailure => exact ⟨Nat.le_refl 2, fun _ h => by cases h⟩
  | retryableFailure =>
    rw [handleDeliveryResult, handleRetryableFailure]
    split
    · exact ⟨Nat.le_refl 2, fun _ h => by cases h⟩
    · exact ⟨Nat.le_refl 2, fun _ h => by cases h⟩

theorem WorkerPhase.Handling.step (h : s.worker.Handling cfg.retry)
    (step : TasksStep env cfg s label s') : s'.worker.Handling cfg.retry := by
  cases step with
  | publish idle run made => exact h
  | publisherFires fires => exact h
  | wake wakes => exact h
  | @claim nowUs res ctx' dev' ready run =>
    show (WorkerPhase.afterClaim res).Handling cfg.retry
    unfold WorkerPhase.afterClaim
    split
    · trivial
    · exact Nat.le_succ 1
    · trivial
  | take rests =>
    show (if s.notified = 0 then WorkerPhase.blocked else .firing []).Handling cfg.retry
    split
    · trivial
    · exact Nat.zero_le 2
  | woken blocked notified => exact Nat.zero_le 2
  | timeout blocked => exact Nat.zero_le 2
  | deliver delivers => exact ⟨_, _, _, _, rfl, rfl⟩
  | settle settles run =>
    rw [settles] at h
    obtain ⟨msg, result, nowUs, randomU32, -, rfl⟩ := h
    show (List.map _ _).length ≤ 2
    rw [List.length_map]
    exact (handled_small cfg.retry msg nowUs randomU32 result).1
  | @workerFires event id events fires =>
    rw [fires] at h
    exact Nat.le_of_succ_le h
  | stats run => exact h

theorem WorkerPhase.Handling.run {ctx : B.Ctx} {dev : B.Dev}
    (run : StepRun (TasksStep env cfg) (.start ctx dev) labels s) : s.worker.Handling cfg.retry :=
  run.invariant (I := fun _ s => s.worker.Handling cfg.retry) (Nat.zero_le 2)
    fun _ _ _ _ h step => h.step step

/-- At most four steps are left. -/
theorem WorkerPhase.Handling.remaining_le (h : s.worker.Handling cfg.retry) :
    s.worker.remaining ≤ 4 := by
  cases hw : s.worker with
  | firing events =>
    rw [hw] at h
    exact Nat.le_trans h (by decide)
  | resting => exact (by decide : 2 ≤ 4)
  | blocked => exact (by decide : 1 ≤ 4)
  | delivering msg => exact Nat.le_refl 4
  | settling op events =>
    rw [hw] at h
    obtain ⟨msg, result, nowUs, randomU32, -, rfl⟩ := h
    rw [WorkerPhase.remaining, List.length_map]
    have hlen := (handled_small cfg.retry msg nowUs randomU32 result).1
    omega

/-- Every step of the worker brings it nearer to its next claim, and a claim leads at most
four steps away. -/
theorem TasksStep.nearer (step : TasksStep env cfg s label s') :
    s'.worker.remaining + (if label.byWorker then 1 else 0) ≤
      s.worker.remaining + (if label.claims then 5 else 0) := by
  cases step with
  | publish idle run made => exact Nat.le_refl _
  | publisherFires fires => exact Nat.le_refl _
  | wake wakes => exact Nat.le_refl _
  | @claim nowUs res ctx' dev' ready run =>
    rw [ready]
    show (WorkerPhase.afterClaim res).remaining + 1 ≤ 0 + 5
    unfold WorkerPhase.afterClaim
    split
    · exact Nat.le_refl 5
    · exact (by decide : 2 ≤ 5)
    · exact (by decide : 3 ≤ 5)
  | take rests =>
    rw [rests]
    show (if s.notified = 0 then WorkerPhase.blocked else .firing []).remaining + 1 ≤ 2 + 0
    split
    · exact Nat.le_refl 2
    · exact Nat.le_succ 1
  | woken blocked notified =>
    rw [blocked]
    exact Nat.le_refl 1
  | timeout blocked =>
    rw [blocked]
    exact Nat.le_refl 1
  | @deliver msg result nowUs randomU32 delivers =>
    rw [delivers]
    show (List.map _ _).length + 1 + 1 ≤ 4
    rw [List.length_map]
    have hlen := (handled_small cfg.retry msg nowUs randomU32 result).1
    omega
  | settle settles run =>
    rw [settles]
    exact Nat.le_refl _
  | workerFires fires =>
    rw [fires]
    exact Nat.le_refl _
  | stats run => exact Nat.le_refl _

end Worker

/-! ## Turns -/

section Turns

variable {B : StorageBackend} {env : Env B.Call B.Dev B.Event} {cfg : StackConfig} {e : EntryMeta}
  {s s' : Tasks B} {label : TasksLabel} {labels : List TasksLabel}

/-- The entry is in the index, and the worker claims only when it is due. -/
def Waits (e : EntryMeta) (s : Tasks B) (label : TasksLabel) : Prop :=
  e ∈ B.metas s.ctx ∧ ∀ nowUs ∈ label.claimedAt?, e.nextRetryAtUs ≤ nowUs

-- through the one time there may be, not through all of `Int64`
instance (s : Tasks B) : Decidable (Waits e s label) :=
  @instDecidableAnd _ _ inferInstance (Option.decidableForallMem label.claimedAt?)

/-- A call other than a claim. -/
theorem ahead_call {ctx ctx' : B.Ctx} {dev dev' : B.Dev} {op : StorageOp}
    {res : Except EspErr StorageReply} (hno : ∀ nowUs, op ≠ .claimNext nowUs)
    (run : Runs B.device env (B.ops.call op) ctx dev (.returned res ctx' dev')) :
    ahead e (B.metas ctx') ≤ ahead e (B.metas ctx) + [(op, res)].countP (StorageCall.joins e) := by
  have hturn := (B.step run).turn (e := e) fun nowUs hop => absurd hop (hno nowUs)
  rw [List.countP_singleton]
  exact (Nat.le_add_right _ _).trans hturn

/-- The calls of a publish. -/
theorem ahead_calls {ctx ctx' : B.Ctx} {dev dev' : B.Dev} {calls : List StorageCall}
    (run : Calls B env ctx dev calls ctx' dev')
    (hno : ∀ call ∈ calls, ∀ nowUs, call.1 ≠ .claimNext nowUs) :
    ahead e (B.metas ctx') ≤ ahead e (B.metas ctx) + calls.countP (·.joins e) := by
  induction run with
  | nil => exact Nat.le_refl _
  | @cons ctx ctx1 ctx2 dev dev1 dev2 op res calls run rest ih =>
    have hop : ∀ nowUs, op ≠ .claimNext nowUs := hno (op, res) List.mem_cons_self
    have hfirst := ahead_call (e := e) hop run
    have hrest := ih fun call hcall => hno call (List.mem_cons_of_mem _ hcall)
    rw [List.countP_singleton] at hfirst
    rw [List.countP_cons]
    omega

theorem PublishCalls.no_claim {policy : OverflowPolicy} {message : EdgesyncMessage}
    {calls : List StorageCall} {report : PublishReport}
    (made : PublishCalls policy message calls report) :
    ∀ call ∈ calls, ∀ nowUs, call.1 ≠ .claimNext nowUs := by
  cases made <;> simp

/-- A step hands out a message that was ahead, or leaves those that are. -/
theorem TasksStep.turn (hpending : e.state = FlashqState.pending.code)
    (h : s.worker.Handling cfg.retry) (step : TasksStep env cfg s label s')
    (waits : Waits e s label) :
    ahead e (B.metas s'.ctx) + (if label.overtakes e then 1 else 0) ≤
      ahead e (B.metas s.ctx) + label.calls.countP (·.joins e) := by
  cases step with
  | publish idle run made => exact ahead_calls run made.no_claim
  | @claim nowUs res ctx' dev' ready run =>
    have hready : e.Ready nowUs := ⟨hpending, waits.2 nowUs rfl⟩
    have hturn := (B.step run).turn fun now hop => by
      cases hop
      exact ⟨waits.1, hready⟩
    exact (List.countP_singleton ..).symm ▸ hturn
  | @settle op events res ctx' dev' settles run =>
    rw [settles] at h
    obtain ⟨msg, result, nowUs, randomU32, rfl, -⟩ := h
    exact ahead_call (handled_small cfg.retry msg nowUs randomU32 result).2 run
  | stats run => exact ahead_call (fun _ h => by cases h) run
  | _ => exact Nat.le_refl _

/-- While `e` waits, another message is handed out only as often as one was ahead of it or
came to be. -/
theorem overtaken_le (hpending : e.state = FlashqState.pending.code)
    (h : s.worker.Handling cfg.retry)
    (run : StepRun (Guarded (TasksStep env cfg) (Waits e)) s labels s') :
    labels.countP (·.overtakes e) ≤
      ahead e (B.metas s.ctx) + (storageCalls labels).countP (·.joins e) := by
  have hpaid := run.budget (I := fun s => s.worker.Handling cfg.retry)
    (P := fun s => ahead e (B.metas s.ctx))
    (c := fun label => if label.overtakes e then 1 else 0)
    (g := fun label => label.calls.countP (·.joins e)) h
    fun s1 label s2 h step => ⟨h.step step.1, step.1.turn hpending h step.2⟩
  rw [sum_map_ite, Nat.one_mul] at hpaid
  rw [storageCalls, List.countP_flatMap]
  exact (Nat.le_add_left _ _).trans hpaid

/-- The steps of the worker, by its claims. -/
theorem worker_steps_le (run : StepRun (TasksStep env cfg) s labels s') :
    labels.countP (·.byWorker) ≤ s.worker.remaining + 5 * labels.countP (·.claims) := by
  have hpaid := run.budget (I := fun _ => True) (P := fun s => s.worker.remaining)
    (c := fun label => if label.byWorker then 1 else 0)
    (g := fun label => if label.claims then 5 else 0) trivial
    fun s1 label s2 _ step => ⟨trivial, step.nearer⟩
  rw [sum_map_ite, sum_map_ite, Nat.one_mul] at hpaid
  exact (Nat.le_add_left _ _).trans hpaid

/-- A claim hands out another message, `e` or nothing. -/
theorem claims_count (label : TasksLabel) : (if label.claims then 1 else 0) =
    (if label.overtakes e then 1 else 0) + (if label.serves e then 1 else 0) +
      (if label.fruitless then 1 else 0) := by
  cases label with
  | claim nowUs res =>
    rcases res with err | reply
    · rfl
    · rcases reply with _ | reply | _ | _
      · rfl
      · rcases reply with claimed | id
        · show 1 = (if (!(claimed.id == e.id)) = true then 1 else 0) +
            (if (claimed.id == e.id) = true then 1 else 0) + 0
          cases claimed.id == e.id <;> rfl
        · rfl
      · rfl
      · rfl
  | _ => rfl

theorem claims_split (labels : List TasksLabel) : labels.countP (·.claims) =
    labels.countP (·.overtakes e) + labels.countP (·.serves e) + labels.countP (·.fruitless) := by
  induction labels with
  | nil => rfl
  | cons label labels ih =>
    rw [List.countP_cons, List.countP_cons, List.countP_cons, List.countP_cons, ih,
      claims_count (e := e)]
    omega

/-- Over both backends, under any faults and for any steps of publishers and worker: as long
as a message waits and is due at every claim, other messages are handed out at most as often
as there were messages ahead of it, messages published ahead of it and settled retries; and
the worker makes at most five steps for each of these, for each claim that hands it out and
for each that hands out nothing, and four more. -/
theorem overtaking_bounded (B : StorageBackend) (env : Env B.Call B.Dev B.Event)
    (cfg : StackConfig) (ctx : B.Ctx) (dev : B.Dev) (before after : List TasksLabel)
    (s s' : Tasks B) (e : EntryMeta)
    (reached : StepRun (TasksStep env cfg) (.start ctx dev) before s)
    (hpending : e.state = FlashqState.pending.code)
    (run : StepRun (Guarded (TasksStep env cfg) (Waits e)) s after s') :
    after.countP (·.overtakes e) ≤
        ahead e (B.metas s.ctx) + (storageCalls after).countP (·.joins e) ∧
      after.countP (·.byWorker) ≤ 4 + 5 * (ahead e (B.metas s.ctx) +
        (storageCalls after).countP (·.joins e) + after.countP (·.serves e) +
        after.countP (·.fruitless)) := by
  have h : s.worker.Handling cfg.retry := .run reached
  have hover := overtaken_le hpending h run
  refine ⟨hover, ?_⟩
  have hsteps := worker_steps_le run.unguarded
  have hfour := h.remaining_le
  rw [claims_split (e := e)] at hsteps
  omega

end Turns

/-- A message of a higher priority. -/
def urgentMessage : EdgesyncMessage := ⟨8, [0x61], 2, 6, [4]⟩

/-- Both messages are published. -/
def twoPublished : List TasksAction := [.publish 0 retriedMessage, .publish 1 urgentMessage]

/-- The urgent one is handed out, retried and handed out again. -/
def urgentTwice : List TasksAction :=
  [.claim 9, .deliver .retryableFailure 10 0, .settle, .workerFires, .workerFires, .claim 200000]

/-- It comes first as often as the bound permits. -/
theorem overtaking_bounded_tight : ∃ before after s s',
    StepRun (TasksStep quietStore smallStack)
      (.start (NvsCtx.fresh smallStore) emptyStore : Tasks (nvsBackend noUsage smallStore)) before s ∧
    StepRun (Guarded (TasksStep quietStore smallStack) (Waits retriedMessage.entry)) s after s' ∧
    after.countP (·.overtakes retriedMessage.entry) = 2 ∧
    ahead retriedMessage.entry (NvsCtx.metas s.ctx) +
      (storageCalls after).countP (·.joins retriedMessage.entry) = 2 ∧
    after.countP (·.serves retriedMessage.entry) = 0 ∧ after.countP (·.fruitless) = 0 ∧
    after.countP (·.byWorker) ≤ 4 + 5 * 2 := by
  let guard : Tasks (nvsBackend noUsage smallStore) → TasksLabel → Bool :=
    fun s label => decide (Waits retriedMessage.entry s label)
  have hplay : ((Tasks.start (NvsCtx.fresh smallStore) emptyStore :
      Tasks (nvsBackend noUsage smallStore)).play smallStack (twoPublished.map (·, [])) []).any
      (fun out => decide (ahead retriedMessage.entry (NvsCtx.metas out.2.ctx) = 1) &&
        (out.2.playGuarded smallStack guard (urgentTwice.map (·, [])) []).any fun out =>
          decide (out.1.countP (·.overtakes retriedMessage.entry) = 2 ∧
            (storageCalls out.1).countP (·.joins retriedMessage.entry) = 1 ∧
            out.1.countP (·.serves retriedMessage.entry) = 0 ∧
            out.1.countP (·.fruitless) = 0)) = true := by
    decide +kernel
  obtain ⟨before, s, reached, htest⟩ := Tasks.play_passes quietStore (fun _ _ => rfl)
    (eventsIn_map _) hplay
  obtain ⟨hahead, htest⟩ := Bool.and_eq_true_iff.mp htest
  have hahead := of_decide_eq_true hahead
  cases hafter : s.playGuarded smallStack guard (urgentTwice.map (·, [])) [] with
  | none => simp [hafter] at htest
  | some out =>
    rw [hafter] at htest
    obtain ⟨hover, hjoins, hserves, hnone⟩ := of_decide_eq_true htest
    have run : StepRun (Guarded (TasksStep quietStore smallStack) (Waits retriedMessage.entry)) s
        out.1 out.2 :=
      (Tasks.playGuarded_run quietStore (fun _ _ => rfl) (eventsIn_map _) .nil hafter).mono
        fun _ _ _ step => ⟨step.1, of_decide_eq_true step.2⟩
    have hsum : ahead retriedMessage.entry (NvsCtx.metas s.ctx) +
        (storageCalls out.1).countP (·.joins retriedMessage.entry) = 2 := by
      rw [hahead, hjoins]
    have hbound := overtaking_bounded (nvsBackend noUsage smallStore) quietStore smallStack _ _
      before out.1 s out.2 retriedMessage.entry reached rfl run
    have hsteps : out.1.countP (·.byWorker) ≤ 4 + 5 * 2 := by
      refine hbound.2.trans (Nat.le_of_eq ?_)
      rw [hserves, hnone]
      exact congrArg (4 + 5 * ·) hsum
    exact ⟨before, out.1, s, out.2, reached, run, hover, hsum, hserves, hnone, hsteps⟩

end EdgeSync
