/-
  Stack/Overflow.lean --- a publish into a full queue.

  `edgesync_queue_publish` drops a message and then enqueues the new one.  It is
  all or nothing unless the second step is refused after the first was done, or
  the removal, which goes by the id, hits another message with that id.
-/
import EdgeSync.Stack.Queue

set_option autoImplicit false

namespace EdgeSync

open Foundation

/-! ## All or nothing -/

section Steps

variable {early : Bool} {capacity : Nat} {q q' : List EntryMeta} {policy : OverflowPolicy}
  {message : EdgesyncMessage} {id : UInt64} {err : EspErr}

theorem CallStep.enqueue_error
    (h : CallStep early capacity q (.enqueue message) (.error err) q') : q' = q := by
  cases h
  rfl

theorem CallStep.enqueue_ok {reply : StorageReply}
    (h : CallStep early capacity q (.enqueue message) (.ok reply) q') :
    q' = q ++ [message.entry] := by
  cases h with
  | enqueued room => rfl
  | retired retires found => cases retires

theorem CallStep.candidate_error
    (h : CallStep early capacity q (.findDropCandidate policy) (.error err) q') : q' = q := by
  cases h
  rfl

theorem CallStep.candidate_ok
    (h : CallStep early capacity q (.findDropCandidate policy) (.ok (.candidate id)) q') :
    q' = q ∧ ∃ pos e, selectDrop policy q = some pos ∧ q[pos]? = some e ∧ e.id = id := by
  cases h with
  | candidate selected entry => exact ⟨rfl, _, _, selected, entry, rfl⟩

theorem CallStep.remove_ok {reply : StorageReply}
    (h : CallStep early capacity q (.remove id) (.ok reply) q') :
    reply = .done ∧ ∃ pos, findMeta q id = some pos ∧ q' = swapRemove q pos := by
  cases h with
  | retired retires found =>
    cases retires
    exact ⟨rfl, _, found, rfl⟩

end Steps

section Publish

variable {B : StorageBackend} {env : Env B.Call B.Dev B.Event} {ctx ctx' : B.Ctx}
  {dev dev' : B.Dev} {policy : OverflowPolicy} {message : EdgesyncMessage}

end Publish

end EdgeSync
