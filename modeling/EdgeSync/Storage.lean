/-
  Storage.lean --- the storage interface (`edgesync_storage.h`).

  `StorageOps` is the table of operations a backend fills in; `StorageOp` is one
  call through the table, with its arguments.
-/
import EdgeSync.Index

set_option autoImplicit false

namespace EdgeSync

open Foundation

/-- What `claim_next` hands out: the message (`ESP_OK`), or the id of a message
it has just dead-lettered (`EDGESYNC_ERR_STORAGE_CORRUPT`). -/
inductive ClaimReply where
  | claimed (message : ClaimedMessage)
  | corrupt (id : UInt64)
  deriving DecidableEq, Repr

/-- `edgesync_storage_ops_t`; `init` and `close` do nothing the model knows of. -/
structure StorageOps (M : Type → Type) where
  recover : M Unit
  enqueue : EdgesyncMessage → M Unit
  claimNext : Int64 → M ClaimReply
  markDelivered : UInt64 → M Unit
  scheduleRetry : UInt64 → Int64 → Bool → Int32 → M Unit
  remove : UInt64 → M Unit
  findDropCandidate : OverflowPolicy → M UInt64
  getStats : EdgesyncStats → M EdgesyncStats

/-- A call between two restarts. -/
inductive StorageOp where
  | enqueue (message : EdgesyncMessage)
  | claimNext (nowUs : Int64)
  | markDelivered (id : UInt64)
  | scheduleRetry (id : UInt64) (nextRetryTimeUs : Int64) (deadLetter : Bool) (lastError : Int32)
  | remove (id : UInt64)
  | findDropCandidate (policy : OverflowPolicy)
  | getStats (stats : EdgesyncStats)
  deriving DecidableEq, Repr

/-- What a call that returns `ESP_OK` hands back. -/
inductive StorageReply where
  | done
  | claim (reply : ClaimReply)
  | candidate (id : UInt64)
  | stats (stats : EdgesyncStats)
  deriving DecidableEq, Repr

/-- One call. -/
def StorageOps.call {M : Type → Type} [Monad M] (ops : StorageOps M) : StorageOp → M StorageReply
  | .enqueue message => do
      ops.enqueue message
      pure .done
  | .claimNext nowUs => do
      let reply ← ops.claimNext nowUs
      pure (.claim reply)
  | .markDelivered id => do
      ops.markDelivered id
      pure .done
  | .scheduleRetry id nextRetryTimeUs deadLetter lastError => do
      ops.scheduleRetry id nextRetryTimeUs deadLetter lastError
      pure .done
  | .remove id => do
      ops.remove id
      pure .done
  | .findDropCandidate policy => do
      let id ← ops.findDropCandidate policy
      pure (.candidate id)
  | .getStats stats => do
      let stats ← ops.getStats stats
      pure (.stats stats)

/-- The payload of a message is within the configured size. -/
def StorageOp.Fits (maxMessageSize : UInt32) : StorageOp → Prop
  | .enqueue message => message.payload.length ≤ maxMessageSize.toNat
  | _ => True

instance (maxMessageSize : UInt32) (op : StorageOp) : Decidable (op.Fits maxMessageSize) :=
  match op with
  | .enqueue message => inferInstanceAs (Decidable (message.payload.length ≤ maxMessageSize.toNat))
  | .claimNext _ => .isTrue trivial
  | .markDelivered _ => .isTrue trivial
  | .scheduleRetry _ _ _ _ => .isTrue trivial
  | .remove _ => .isTrue trivial
  | .findDropCandidate _ => .isTrue trivial
  | .getStats _ => .isTrue trivial

/-- The id a call enqueues. -/
def StorageOp.enqueueId? : StorageOp → Option UInt64
  | enqueue message => some message.id
  | _ => none

end EdgeSync
