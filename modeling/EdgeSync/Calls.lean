/-
  Calls.lean --- what a call does to the entries of an index, whatever the
  storage does.

  `CallStep` holds of both backends, on any storage contents and under any faults.
  The backends differ in what an error leaves: the NVS backend assigns the new
  state of an entry before it writes the record (`early`), the flash queue only
  stages the fields of a retry.
-/
import EdgeSync.Spec

set_option autoImplicit false

namespace EdgeSync

open Foundation

namespace Progress

/-- The entry of a message that cannot be read. -/
def marked (p : Progress) : Progress := { p with lastError := EspErr.storageCorrupt.code }

/-- The same, dead-lettered. -/
def corrupted (p : Progress) : Progress := p.marked.inState .deadLetter

/-- What a retry that failed leaves. -/
def retryLost (early : Bool) (nextRetryTimeUs : Int64) (deadLetter : Bool) (lastError : Int32)
    (p : Progress) : Progress :=
  if early then p.retried nextRetryTimeUs deadLetter lastError
  else p.staged nextRetryTimeUs deadLetter lastError

end Progress

/-- Change the changing part of an entry. -/
def EntryMeta.change (f : Progress → Progress) (e : EntryMeta) : EntryMeta :=
  e.withProgress (f e.progress)

/-- The entry of a new message. -/
def EdgesyncMessage.entry (message : EdgesyncMessage) : EntryMeta :=
  (StoredMessage.ofMessage message).toEntryMeta

/-- The message shows the entry, as it was claimed at `nowUs`. -/
structure ClaimedMessage.Shows (claimed : ClaimedMessage) (e : EntryMeta) (nowUs : Int64) : Prop where
  id : claimed.id = e.id
  priority : claimed.priority = e.priority
  state : claimed.state = .inFlight
  attemptCount : claimed.attemptCount = e.attemptCount + 1
  createdAtUs : claimed.createdAtUs = e.createdAtUs
  lastAttemptAtUs : claimed.lastAttemptAtUs = nowUs
  nextRetryAtUs : claimed.nextRetryAtUs = e.nextRetryAtUs
  lastError : claimed.lastError = e.lastError
  payloadLen : claimed.payloadLen = e.payloadLen

/-- Where the entry with this id is. -/
def findMeta (q : List EntryMeta) (id : UInt64) : Option Nat := findPos (fun e => e.id == id) q

theorem findMeta_of_mem {q : List EntryMeta} {id : UInt64} (h : id ∈ q.map (·.id)) :
    ∃ pos, findMeta q id = some pos := by
  obtain ⟨x, hx, hid⟩ := List.mem_map.mp h
  cases hpos : findMeta q id with
  | none => exact absurd (beq_iff_eq.mpr hid) (by simp [findPos_none hpos x hx])
  | some pos => exact ⟨pos, rfl⟩

/-- What a call may do to the entries. -/
inductive CallStep (early : Bool) (capacity : Nat) (q : List EntryMeta) :
    StorageOp → Except EspErr StorageReply → List EntryMeta → Prop where
  | refused {op : StorageOp} {err : EspErr} : CallStep early capacity q op (.error err) q
  | enqueued {message : EdgesyncMessage} (room : q.length < capacity) :
      CallStep early capacity q (.enqueue message) (.ok .done) (q ++ [message.entry])
  | claimed {nowUs : Int64} {pos : Nat} {e : EntryMeta} {claimed : ClaimedMessage}
      (selected : selectClaim nowUs q = some pos) (entry : q[pos]? = some e)
      (shows : claimed.Shows e nowUs) :
      CallStep early capacity q (.claimNext nowUs) (.ok (.claim (.claimed claimed)))
        (q.modify pos (·.change (Progress.claimed nowUs)))
  /-- the state was assigned, the record was not written -/
  | claimLost {nowUs : Int64} {pos : Nat} {err : EspErr} (isEarly : early = true)
      (selected : selectClaim nowUs q = some pos) :
      CallStep early capacity q (.claimNext nowUs) (.error err)
        (q.modify pos (·.change (Progress.claimed nowUs)))
  /-- the message cannot be read -/
  | corrupt {nowUs : Int64} {pos : Nat} {e : EntryMeta} (selected : selectClaim nowUs q = some pos)
      (entry : q[pos]? = some e) :
      CallStep early capacity q (.claimNext nowUs) (.ok (.claim (.corrupt e.id)))
        (q.modify pos (·.change Progress.corrupted))
  /-- the message cannot be read, and the dead letter was not recorded -/
  | corruptLost {nowUs : Int64} {pos : Nat} {err : EspErr}
      (selected : selectClaim nowUs q = some pos) :
      CallStep early capacity q (.claimNext nowUs) (.error err)
        (q.modify pos (·.change Progress.marked))
  | retired {op : StorageOp} {id : UInt64} {newState : FlashqState} {pos : Nat}
      (retires : Retires op id newState) (found : findMeta q id = some pos) :
      CallStep early capacity q op (.ok .done) (swapRemove q pos)
  | retried {id : UInt64} {nextRetryTimeUs : Int64} {deadLetter : Bool} {lastError : Int32}
      {pos : Nat} (found : findMeta q id = some pos) :
      CallStep early capacity q (.scheduleRetry id nextRetryTimeUs deadLetter lastError) (.ok .done)
        (q.modify pos (·.change (Progress.retried nextRetryTimeUs deadLetter lastError)))
  | retryLost {id : UInt64} {nextRetryTimeUs : Int64} {deadLetter : Bool} {lastError : Int32}
      {pos : Nat} {err : EspErr} (found : findMeta q id = some pos) :
      CallStep early capacity q (.scheduleRetry id nextRetryTimeUs deadLetter lastError) (.error err)
        (q.modify pos
          (·.change (Progress.retryLost early nextRetryTimeUs deadLetter lastError)))
  | candidate {policy : OverflowPolicy} {pos : Nat} {e : EntryMeta}
      (selected : selectDrop policy q = some pos) (entry : q[pos]? = some e) :
      CallStep early capacity q (.findDropCandidate policy) (.ok (.candidate e.id)) q
  | stats {stats stats' : EdgesyncStats} :
      CallStep early capacity q (.getStats stats) (.ok (.stats stats')) q

end EdgeSync
