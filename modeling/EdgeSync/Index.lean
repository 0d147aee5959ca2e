/-
  Index.lean --- what the RAM indexes of the two backends have in common.

  `flashq_index_entry_t` and `nvs_index_entry_t` differ in one field only, the
  place of the record.  `EntryMeta` holds the others; the selection loops of
  `op_claim_next` and `op_find_drop_candidate` are the same text in both
  backends and are modelled once.
-/
import EdgeSync.Foundation.Table
import EdgeSync.Format.Record

set_option autoImplicit false

namespace EdgeSync

open Foundation

/-- The fields of an index entry, apart from the place of its record. -/
structure EntryMeta where
  id : UInt64
  state : UInt8
  priority : UInt8
  destinationLen : UInt16
  attemptCount : UInt32
  payloadLen : UInt32
  createdAtUs : Int64
  lastAttemptAtUs : Int64
  nextRetryAtUs : Int64
  lastError : Int32
  deriving DecidableEq, Repr

namespace EntryMeta

/-- `e->state == EDGESYNC_FLASHQ_STATE_PENDING && e->next_retry_at_us <= now_us`. -/
def eligible (nowUs : Int64) (e : EntryMeta) : Bool :=
  e.state == FlashqState.pending.code && !decide (nowUs < e.nextRetryAtUs)

/-- The comparison of the claim loop: priority, then due time, then age. -/
def claimedBefore (e best : EntryMeta) : Bool :=
  decide (best.priority < e.priority) ||
  (e.priority == best.priority && decide (e.nextRetryAtUs < best.nextRetryAtUs)) ||
  (e.priority == best.priority && e.nextRetryAtUs == best.nextRetryAtUs &&
    decide (e.createdAtUs < best.createdAtUs))

/-- The comparison of the drop loop. -/
def droppedBefore (policy : OverflowPolicy) (e best : EntryMeta) : Bool :=
  match policy with
  | .dropLowestPriority =>
      decide (e.priority < best.priority) ||
      (e.priority == best.priority && decide (e.createdAtUs < best.createdAtUs))
  | _ => decide (e.createdAtUs < best.createdAtUs)

end EntryMeta

/-- The selection loop of `op_claim_next`: a position in the index. -/
def selectClaim (nowUs : Int64) (index : List EntryMeta) : Option Nat :=
  pick (EntryMeta.eligible nowUs) EntryMeta.claimedBefore index

/-- The selection loop of `op_find_drop_candidate`. -/
def selectDrop (policy : OverflowPolicy) (index : List EntryMeta) : Option Nat :=
  pick (fun e => e.state == FlashqState.pending.code) (EntryMeta.droppedBefore policy) index

/-- The counters `op_get_stats` derives from the index. -/
structure EdgesyncStats where
  pendingMessages : UInt32 := 0
  inFlightMessages : UInt32 := 0
  retryingMessages : UInt32 := 0
  deadLetterMessages : UInt32 := 0
  deliveredAwaitingGc : UInt32 := 0
  bytesQueued : UInt64 := 0
  queueCapacity : UInt32 := 0
  storageBytesUsed : UInt32 := 0
  storageBytesCapacity : UInt32 := 0
  compactionsTotal : UInt32 := 0
  deriving DecidableEq, Repr

/-- One turn of the counting loop of `op_get_stats`. -/
def EdgesyncStats.count (stats : EdgesyncStats) (e : EntryMeta) : EdgesyncStats :=
  let bytesQueued := stats.bytesQueued + e.payloadLen.toUInt64
  if e.state = FlashqState.pending.code then
    if e.attemptCount = 0 then
      { stats with pendingMessages := stats.pendingMessages + 1, bytesQueued }
    else { stats with retryingMessages := stats.retryingMessages + 1, bytesQueued }
  else if e.state = FlashqState.inFlight.code then
    { stats with inFlightMessages := stats.inFlightMessages + 1, bytesQueued }
  else if e.state = FlashqState.deadLetter.code then
    { stats with deadLetterMessages := stats.deadLetterMessages + 1, bytesQueued }
  else stats

end EdgeSync
