/-
  Spec.lean --- what the backends are for: a table of messages.

  The abstract queue is a list of messages, each with its destination, its
  payload and the bookkeeping of its entry.  Nothing here knows of flash,
  records or slots.  `settle` is what a reader of the queue may assume after a
  restart: a message that was in flight is pending again, and due at once.
-/
import Mathlib.Data.List.Nodup
import EdgeSync.Storage

set_option autoImplicit false

namespace EdgeSync

open Foundation

/-! ## The changing part of an entry -/

/-- The fields of an entry that change while the message is queued.  They are
what an UPDATE record carries. -/
structure Progress where
  state : UInt8
  attemptCount : UInt32
  lastAttemptAtUs : Int64
  nextRetryAtUs : Int64
  lastError : Int32
  deriving DecidableEq, Repr

namespace EntryMeta

/-- The changing part. -/
def progress (e : EntryMeta) : Progress where
  state := e.state
  attemptCount := e.attemptCount
  lastAttemptAtUs := e.lastAttemptAtUs
  nextRetryAtUs := e.nextRetryAtUs
  lastError := e.lastError

/-- Replace the changing part. -/
def withProgress (p : Progress) (e : EntryMeta) : EntryMeta :=
  { e with
    state := p.state
    attemptCount := p.attemptCount
    lastAttemptAtUs := p.lastAttemptAtUs
    nextRetryAtUs := p.nextRetryAtUs
    lastError := p.lastError }

@[simp] theorem withProgress_id (p : Progress) (e : EntryMeta) : (e.withProgress p).id = e.id := rfl

@[simp] theorem withProgress_destinationLen (p : Progress) (e : EntryMeta) :
    (e.withProgress p).destinationLen = e.destinationLen := rfl

@[simp] theorem withProgress_payloadLen (p : Progress) (e : EntryMeta) :
    (e.withProgress p).payloadLen = e.payloadLen := rfl

@[simp] theorem progress_withProgress (p : Progress) (e : EntryMeta) :
    (e.withProgress p).progress = p := rfl

@[simp] theorem withProgress_progress (e : EntryMeta) : e.withProgress e.progress = e := rfl

@[simp] theorem withProgress_withProgress (p p' : Progress) (e : EntryMeta) :
    (e.withProgress p).withProgress p' = e.withProgress p' := rfl

end EntryMeta

namespace Progress

/-- A message as it is accepted. -/
def queued : Progress := ⟨FlashqState.pending.code, 0, 0, 0, 0⟩

/-- A claim at `nowUs`. -/
def claimed (nowUs : Int64) (p : Progress) : Progress :=
  { p with
    state := FlashqState.inFlight.code
    attemptCount := p.attemptCount + 1
    lastAttemptAtUs := nowUs }

/-- A scheduled retry, or a dead letter. -/
def retried (nextRetryTimeUs : Int64) (deadLetter : Bool) (lastError : Int32) (p : Progress) :
    Progress :=
  { p with
    state := (if deadLetter then FlashqState.deadLetter else FlashqState.pending).code
    nextRetryAtUs := if deadLetter then 0 else nextRetryTimeUs
    lastError := lastError }

/-- Another state. -/
def inState (newState : FlashqState) (p : Progress) : Progress := { p with state := newState.code }

/-- The fields a retry assigns before it is recorded. -/
def staged (nextRetryTimeUs : Int64) (deadLetter : Bool) (lastError : Int32) (p : Progress) :
    Progress :=
  { p with
    nextRetryAtUs := if deadLetter then 0 else nextRetryTimeUs
    lastError := lastError }

/-- What a restart makes of a message. -/
def requeued (p : Progress) : Progress :=
  if p.state = FlashqState.inFlight.code then
    { p with state := FlashqState.pending.code, nextRetryAtUs := 0 }
  else p

theorem requeued_state_ne (p : Progress) : p.requeued.state ≠ FlashqState.inFlight.code := by
  unfold requeued
  split
  · show FlashqState.pending.code ≠ FlashqState.inFlight.code
    decide
  · assumption

theorem requeued_requeued (p : Progress) : p.requeued.requeued = p.requeued :=
  if_neg (requeued_state_ne p)

end Progress

/-- What a restart makes of an entry. -/
def EntryMeta.settle (e : EntryMeta) : EntryMeta := e.withProgress e.progress.requeued

theorem EntryMeta.settle_of_ne {e : EntryMeta} (h : e.state ≠ FlashqState.inFlight.code) :
    e.settle = e := by
  have hp : e.progress.requeued = e.progress := if_neg h
  rw [settle, hp, withProgress_progress]

/-! ## Messages -/

/-- A message of the queue. -/
structure StoredMessage extends EntryMeta where
  destination : Bytes
  payload : Bytes
  deriving DecidableEq, Repr

namespace StoredMessage

/-- A message as it is accepted. -/
def ofMessage (message : EdgesyncMessage) : StoredMessage where
  id := message.id
  state := FlashqState.pending.code
  priority := message.priority
  destinationLen := UInt16.ofNat (strlen message.destination)
  attemptCount := 0
  payloadLen := message.payloadLen
  createdAtUs := message.createdAtUs
  lastAttemptAtUs := 0
  nextRetryAtUs := 0
  lastError := 0
  destination := cString message.destination
  payload := message.payload

/-- Change the changing part. -/
def change (f : Progress → Progress) (s : StoredMessage) : StoredMessage :=
  { s with toEntryMeta := s.toEntryMeta.withProgress (f s.toEntryMeta.progress) }

/-- What a restart makes of a message. -/
def settle (s : StoredMessage) : StoredMessage := s.change Progress.requeued

/-- What a claim at `nowUs` hands out; the payload lies behind the destination in
the claim buffer. -/
def claimedMessage (nowUs : Int64) (s : StoredMessage) : ClaimedMessage where
  id := s.id
  destination := s.destination
  priority := s.priority
  state := .inFlight
  attemptCount := s.attemptCount + 1
  createdAtUs := s.createdAtUs
  lastAttemptAtUs := nowUs
  nextRetryAtUs := s.nextRetryAtUs
  lastError := s.lastError
  payloadLen := s.payloadLen
  payloadOff := hdrSize + s.destinationLen.toNat

@[simp] theorem change_id (f : Progress → Progress) (s : StoredMessage) : (s.change f).id = s.id :=
  rfl

@[simp] theorem change_destination (f : Progress → Progress) (s : StoredMessage) :
    (s.change f).destination = s.destination := rfl

@[simp] theorem change_payload (f : Progress → Progress) (s : StoredMessage) :
    (s.change f).payload = s.payload := rfl

@[simp] theorem change_progress (f : Progress → Progress) (s : StoredMessage) :
    (s.change f).toEntryMeta.progress = f s.toEntryMeta.progress := rfl

theorem change_change (f g : Progress → Progress) (s : StoredMessage) :
    (s.change f).change g = s.change fun p => g (f p) := rfl

theorem settle_settle (s : StoredMessage) : s.settle.settle = s.settle := by
  rw [settle, settle, change_change]
  simp only [Progress.requeued_requeued]

end StoredMessage

/-- The entries of the messages, as the selection loops see them. -/
def metas (q : List StoredMessage) : List EntryMeta := q.map (·.toEntryMeta)

/-- Where the message with this id is. -/
def findMessage (q : List StoredMessage) (id : UInt64) : Option Nat := findPos (fun s => s.id == id) q

/-- The state takes a message out of the queue. -/
def isFinal (state : UInt8) : Bool :=
  state == FlashqState.delivered.code || state == FlashqState.removed.code

/-- The message with this id makes progress, or leaves the queue. -/
def progressTo (id : UInt64) (p : Progress) (q : List StoredMessage) : List StoredMessage :=
  match findMessage q id with
  | none => q
  | some pos => if isFinal p.state then swapRemove q pos else q.modify pos (·.change fun _ => p)

/-! ## The queue as a transition system -/

/-- Calls that end a message, with the state they record. -/
inductive Retires : StorageOp → UInt64 → FlashqState → Prop where
  | delivered (id : UInt64) : Retires (.markDelivered id) id .delivered
  | removed (id : UInt64) : Retires (.remove id) id .removed

/-- What a call may do to the queue. -/
inductive QueueStep (q : List StoredMessage) :
    StorageOp → Except EspErr StorageReply → List StoredMessage → Prop where
  | refused {op : StorageOp} {err : EspErr} : QueueStep q op (.error err) q
  /-- a retry that was not recorded, but whose fields were assigned -/
  | staged {id : UInt64} {nextRetryTimeUs : Int64} {deadLetter : Bool} {lastError : Int32}
      {pos : Nat} (found : findMessage q id = some pos) :
      QueueStep q (.scheduleRetry id nextRetryTimeUs deadLetter lastError) (.error .storage)
        (q.modify pos (·.change (Progress.staged nextRetryTimeUs deadLetter lastError)))
  | candidate {policy : OverflowPolicy} {pos : Nat} {s : StoredMessage}
      (selected : selectDrop policy (metas q) = some pos) (entry : q[pos]? = some s) :
      QueueStep q (.findDropCandidate policy) (.ok (.candidate s.id)) q
  | stats {stats stats' : EdgesyncStats} : QueueStep q (.getStats stats) (.ok (.stats stats')) q
  | enqueued {message : EdgesyncMessage} :
      QueueStep q (.enqueue message) (.ok .done) (q ++ [StoredMessage.ofMessage message])
  | claimed {nowUs : Int64} {pos : Nat} {s : StoredMessage}
      (selected : selectClaim nowUs (metas q) = some pos) (entry : q[pos]? = some s) :
      QueueStep q (.claimNext nowUs) (.ok (.claim (.claimed (s.claimedMessage nowUs))))
        (q.modify pos (·.change (Progress.claimed nowUs)))
  | retired {op : StorageOp} {id : UInt64} {newState : FlashqState} {pos : Nat}
      (retires : Retires op id newState) (found : findMessage q id = some pos) :
      QueueStep q op (.ok .done) (swapRemove q pos)
  | retried {id : UInt64} {nextRetryTimeUs : Int64} {deadLetter : Bool} {lastError : Int32}
      {pos : Nat} (found : findMessage q id = some pos) :
      QueueStep q (.scheduleRetry id nextRetryTimeUs deadLetter lastError) (.ok .done)
        (q.modify pos (·.change (Progress.retried nextRetryTimeUs deadLetter lastError)))

/-- A message that was accepted is the last one. -/
theorem QueueStep.enqueue_ok {q q' : List StoredMessage} {message : EdgesyncMessage}
    {reply : StorageReply} (step : QueueStep q (.enqueue message) (.ok reply) q') :
    q' = q ++ [StoredMessage.ofMessage message] := by
  cases step with
  | enqueued => rfl
  | retired retires found => cases retires

/-- A claim changes the message that was selected. -/
theorem QueueStep.claim_ok {q q' : List StoredMessage} {nowUs : Int64} {c : ClaimedMessage}
    (step : QueueStep q (.claimNext nowUs) (.ok (.claim (.claimed c))) q') :
    ∃ pos s, selectClaim nowUs (metas q) = some pos ∧ q[pos]? = some s ∧
      c = s.claimedMessage nowUs ∧ q' = q.modify pos (·.change (Progress.claimed nowUs)) := by
  cases step with
  | claimed selected entry => exact ⟨_, _, selected, entry, rfl, rfl⟩

/-- A message that was retired is gone. -/
theorem QueueStep.retired_ok {q q' : List StoredMessage} {op : StorageOp} {id : UInt64}
    {newState : FlashqState} {reply : StorageReply} (retires : Retires op id newState)
    (step : QueueStep q op (.ok reply) q') :
    ∃ pos, findMessage q id = some pos ∧ q' = swapRemove q pos := by
  cases step with
  | @retired _ id' _ pos retires' found =>
    obtain rfl : id = id' := by
      cases retires <;> cases retires' <;> rfl
    exact ⟨pos, found, rfl⟩
  | candidate selected entry => cases retires
  | stats => cases retires
  | enqueued => cases retires
  | claimed selected entry => cases retires
  | retried found => cases retires

theorem QueueStep.retry_ok {q q' : List StoredMessage} {id : UInt64} {nextRetryTimeUs : Int64}
    {deadLetter : Bool} {lastError : Int32} {reply : StorageReply}
    (step : QueueStep q (.scheduleRetry id nextRetryTimeUs deadLetter lastError) (.ok reply) q') :
    ∃ pos, findMessage q id = some pos ∧
      q' = q.modify pos (·.change (Progress.retried nextRetryTimeUs deadLetter lastError)) := by
  cases step with
  | retired retires found => cases retires
  | retried found => exact ⟨_, found, rfl⟩

/-- The ids in the queue. -/
def messageIds (q : List StoredMessage) : List UInt64 := q.map (·.id)

theorem messageIds_modify (q : List StoredMessage) (pos : Nat) (f : Progress → Progress) :
    messageIds (q.modify pos (·.change f)) = messageIds q := map_modify_of_eq fun _ _ => rfl

/-- A call that fails adds no id and removes none. -/
theorem QueueStep.ids_of_error {q q' : List StoredMessage} {op : StorageOp} {err : EspErr}
    (step : QueueStep q op (.error err) q') : messageIds q' = messageIds q := by
  cases step with
  | refused => rfl
  | staged found => exact messageIds_modify _ _ _

/-- A call adds no id but the one it enqueues. -/
theorem QueueStep.mem_ids {q q' : List StoredMessage} {op : StorageOp}
    {res : Except EspErr StorageReply} (step : QueueStep q op res q') {id : UInt64}
    (h : id ∈ messageIds q') : id ∈ messageIds q ∨ op.enqueueId? = some id := by
  cases step with
  | refused => exact .inl h
  | staged found => exact .inl (by rwa [messageIds_modify] at h)
  | candidate selected entry => exact .inl h
  | stats => exact .inl h
  | enqueued =>
    rw [messageIds, List.map_append] at h
    rcases List.mem_append.mp h with h | h
    · exact .inl h
    · rw [List.map_singleton, List.mem_singleton] at h
      exact .inr (by rw [h]; rfl)
  | claimed selected entry => exact .inl (by rwa [messageIds_modify] at h)
  | retired retires found =>
    obtain ⟨s, hs, rfl⟩ := List.mem_map.mp h
    exact .inl (List.mem_map_of_mem (mem_of_mem_swapRemove hs))
  | retried found => exact .inl (by rwa [messageIds_modify] at h)

theorem nodup_swapRemove {q : List StoredMessage} {pos : Nat} (h : (messageIds q).Nodup)
    (hpos : pos < q.length) : (messageIds (swapRemove q pos)).Nodup := by
  have hperm := (perm_swapRemove (List.getElem?_eq_getElem hpos)).map (·.id)
  exact ((hperm.nodup_iff.mp h).of_cons)

/-- Ids stay unique as long as new messages have new ids. -/
theorem QueueStep.nodup {q q' : List StoredMessage} {op : StorageOp}
    {res : Except EspErr StorageReply} (step : QueueStep q op res q') (h : (messageIds q).Nodup)
    (hnew : ∀ id, op.enqueueId? = some id → id ∉ messageIds q) : (messageIds q').Nodup := by
  cases step with
  | refused => exact h
  | staged found => rwa [messageIds_modify]
  | candidate selected entry => exact h
  | stats => exact h
  | @enqueued message =>
    rw [messageIds, List.map_append]
    refine h.append (List.nodup_singleton _) fun id hid hid' => ?_
    rw [List.map_singleton, List.mem_singleton] at hid'
    rw [hid'] at hid
    exact hnew _ rfl hid
  | claimed selected entry => rwa [messageIds_modify]
  | retired retires found =>
    obtain ⟨s, hs, _⟩ := findPos_some found
    exact nodup_swapRemove h (List.getElem?_eq_some_iff.mp hs).1
  | retried found => rwa [messageIds_modify]

/-! ## Projections that the replay respects -/

/-- A view of entries that a replay respects: it shows the id, and what it shows
of a changed entry depends on what it shows of the entry. -/
structure Lens (β : Type) where
  get : EntryMeta → β
  id_eq : ∀ a b, get a = get b → a.id = b.id
  progress_eq : ∀ p a b, get a = get b → get (a.withProgress p) = get (b.withProgress p)

/-- Everything. -/
def Lens.all : Lens EntryMeta where
  get := fun e => e
  id_eq := fun _ _ h => by rw [h]
  progress_eq := fun _ _ _ h => by rw [h]

/-- The part of an entry that never changes. -/
def EntryMeta.identity (e : EntryMeta) : UInt64 × UInt8 × UInt16 × UInt32 × Int64 :=
  (e.id, e.priority, e.destinationLen, e.payloadLen, e.createdAtUs)

/-- Equality of entries is equality of both parts. -/
theorem EntryMeta.ext_parts {a b : EntryMeta} (h1 : a.identity = b.identity)
    (h2 : a.progress = b.progress) : a = b := by
  cases a
  cases b
  simp only [identity, progress, Prod.mk.injEq, Progress.mk.injEq] at h1 h2
  obtain ⟨rfl, rfl, rfl, rfl, rfl⟩ := h1
  obtain ⟨rfl, rfl, rfl, rfl, rfl⟩ := h2
  rfl

end EdgeSync
