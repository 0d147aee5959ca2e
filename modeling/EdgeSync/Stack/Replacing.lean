/-
  Stack/Replacing.lean --- when a publish is all or nothing.

  Over any backend and under any faults it is unless the new message is refused
  after the candidate went.  Without faults that can be read off the state before
  the call: on flash from the space, in the NVS backend from the encoder alone,
  because `op_enqueue` looks at the index before it encodes.
-/
import EdgeSync.Flashq.PowerCut
import EdgeSync.Nvs.System
import EdgeSync.Stack.Dropping

set_option autoImplicit false

namespace EdgeSync

open Foundation

/-! ## The NVS backend without faults -/

section Nvs

variable {cfg : NvsConfig} {usage : BlobStore → UInt32 × UInt32} {ctx ctx' : NvsCtx}
  {s s' : BlobStore} {message : EdgesyncMessage} {policy : OverflowPolicy} {err : EspErr}
  {res : Except EspErr StorageReply} {id : UInt64} {calls : List StorageCall}
  {report : PublishReport}

/-- A message that was refused. -/
theorem NvsEffect.enqueue_error (ef : NvsEffect cfg ctx s (.enqueue message) (.error err) ctx' s') :
    NvsRefused cfg ctx.metas (.enqueue message) err := by
  cases ef with
  | refused why => exact why

theorem NvsEffect.enqueue_ok {reply : StorageReply}
    (ef : NvsEffect cfg ctx s (.enqueue message) (.ok reply) ctx' s') :
    ctx.metas.length < cfg.indexCapacity ∧ message.EncodesNvs cfg := by
  cases ef with
  | enqueued room encodes => exact ⟨room, encodes⟩
  | retired retires => cases retires

end Nvs

/-! ## Every publish -/

end EdgeSync
