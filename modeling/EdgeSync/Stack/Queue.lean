/-
  Stack/Queue.lean --- the queue layer (`edgesync_queue.c`).

  A queue operation holds the queue's mutex for the whole of its storage calls,
  so it is one program over the backend.  The layer looks at the error codes of
  the calls it makes, and `attempt` stands for that.
-/
import EdgeSync.Backends

set_option autoImplicit false

namespace EdgeSync

open Foundation

/-! ## Operations -/

/-- `edgesync_event_id_t`. -/
inductive EdgesyncEvent where
  | queued
  | delivered
  | retry
  | failed
  | queueFull
  | deadLetter
  deriving DecidableEq, Repr

section Operations

variable {C : Type} {R : C → Type} {σ : Type} (ops : StorageOps (Prog C R σ EspErr))

/-- What `edgesync_queue_publish` returns, and the message it dropped (`dropped`
and `dropped_id`). -/
structure PublishReport where
  res : Except EspErr Unit
  dropped : Option UInt64
  deriving DecidableEq

/-- The events the publisher's task fires after the mutex is released, each with
the id of its message. -/
def PublishReport.events (report : PublishReport) (message : EdgesyncMessage) :
    List (EdgesyncEvent × UInt64) :=
  (match report.dropped with
    | some droppedId => [(.queueFull, droppedId)]
    | none => []) ++
  match report.res with
    | .ok _ => [(.queued, message.id)]
    | .error .queueFull => [(.queueFull, message.id)]
    | .error _ => []

end Operations

/-! ## The calls behind an operation -/

/-- A storage call and what it returned. -/
abbrev StorageCall : Type := StorageOp × Except EspErr StorageReply

section Calls

variable (B : StorageBackend) (env : Env B.Call B.Dev B.Event)

/-- Storage calls that returned, one after the other. -/
inductive Calls : B.Ctx → B.Dev → List StorageCall → B.Ctx → B.Dev → Prop where
  | nil {ctx : B.Ctx} {dev : B.Dev} : Calls ctx dev [] ctx dev
  | cons {ctx ctx1 ctx2 : B.Ctx} {dev dev1 dev2 : B.Dev} {op : StorageOp}
      {res : Except EspErr StorageReply} {calls : List StorageCall}
      (run : Runs B.device env (B.ops.call op) ctx dev (.returned res ctx1 dev1))
      (rest : Calls ctx1 dev1 calls ctx2 dev2) : Calls ctx dev ((op, res) :: calls) ctx2 dev2

/-- Storage calls that returned, and a last one during which the power went. -/
def CallsCut (ctx : B.Ctx) (dev : B.Dev) (calls : List StorageCall) (op : StorageOp)
    (dev' : B.Dev) : Prop :=
  ∃ ctx1 dev1, Calls B env ctx dev calls ctx1 dev1 ∧
    Runs B.device env (B.ops.call op) ctx1 dev1 (.cut dev')

variable {B env} {ctx ctx1 ctx2 : B.Ctx} {dev dev1 dev2 : B.Dev} {op : StorageOp}
  {calls : List StorageCall}

/-- What a call did to the entries. -/
theorem StorageBackend.step {res : Except EspErr StorageReply}
    (run : Runs B.device env (B.ops.call op) ctx dev (.returned res ctx1 dev1)) :
    CallStep B.early B.capacity (B.metas ctx) op res (B.metas ctx1) := by
  cases res with
  | ok reply => exact leaves_sound run (B.call_step op ctx)
  | error err => exact leaves_sound run (B.call_step op ctx)

/-- The first call of a sequence. -/
theorem Calls.cons_inv {res : Except EspErr StorageReply}
    (h : Calls B env ctx dev ((op, res) :: calls) ctx2 dev2) :
    ∃ ctx1 dev1, Runs B.device env (B.ops.call op) ctx dev (.returned res ctx1 dev1) ∧
      Calls B env ctx1 dev1 calls ctx2 dev2 := by
  cases h with
  | cons run rest => exact ⟨_, _, run, rest⟩

theorem Calls.cons_step {res : Except EspErr StorageReply}
    (h : Calls B env ctx dev ((op, res) :: calls) ctx2 dev2) :
    ∃ ctx1 dev1, CallStep B.early B.capacity (B.metas ctx) op res (B.metas ctx1) ∧
      Calls B env ctx1 dev1 calls ctx2 dev2 := by
  obtain ⟨ctx1, dev1, run, rest⟩ := h.cons_inv
  exact ⟨ctx1, dev1, B.step run, rest⟩

theorem Calls.eq_of_nil (h : Calls B env ctx dev [] ctx2 dev2) : ctx2 = ctx ∧ dev2 = dev := by
  cases h with
  | nil => exact ⟨rfl, rfl⟩

end Calls

/-! ## The calls of a publish -/

/-- The storage calls `edgesync_queue_publish` makes, by what they return. -/
inductive PublishCalls (policy : OverflowPolicy) (message : EdgesyncMessage) :
    List StorageCall → PublishReport → Prop where
  | accepted : PublishCalls policy message [(.enqueue message, .ok .done)] ⟨.ok (), none⟩
  | rejected {err : EspErr} (keep : err = .queueFull → policy = .rejectNew) :
      PublishCalls policy message [(.enqueue message, .error err)] ⟨.error err, none⟩
  | noCandidate {err : EspErr} (drops : policy ≠ .rejectNew) :
      PublishCalls policy message
        [(.enqueue message, .error .queueFull), (.findDropCandidate policy, .error err)]
        ⟨.error .queueFull, none⟩
  | replaced {id : UInt64} {removed : Except EspErr StorageReply} (drops : policy ≠ .rejectNew) :
      PublishCalls policy message
        [(.enqueue message, .error .queueFull), (.findDropCandidate policy, .ok (.candidate id)),
          (.remove id, removed), (.enqueue message, .ok .done)] ⟨.ok (), some id⟩
  | dropped {id : UInt64} {removed : Except EspErr StorageReply} {err : EspErr}
      (drops : policy ≠ .rejectNew) :
      PublishCalls policy message
        [(.enqueue message, .error .queueFull), (.findDropCandidate policy, .ok (.candidate id)),
          (.remove id, removed), (.enqueue message, .error err)] ⟨.error err, some id⟩

/-- Where in a publish the power can go: the calls that returned, and the one that
did not. -/
inductive PublishCut (policy : OverflowPolicy) (message : EdgesyncMessage) :
    List StorageCall → StorageOp → Prop where
  | first : PublishCut policy message [] (.enqueue message)
  | selecting : PublishCut policy message [(.enqueue message, .error .queueFull)]
      (.findDropCandidate policy)
  | removing {id : UInt64} : PublishCut policy message
      [(.enqueue message, .error .queueFull), (.findDropCandidate policy, .ok (.candidate id))]
      (.remove id)
  | second {id : UInt64} {removed : Except EspErr StorageReply} : PublishCut policy message
      [(.enqueue message, .error .queueFull), (.findDropCandidate policy, .ok (.candidate id)),
        (.remove id, removed)] (.enqueue message)

section Publish

variable {B : StorageBackend} {env : Env B.Call B.Dev B.Event} {ctx : B.Ctx} {dev : B.Dev}
  {policy : OverflowPolicy} {message : EdgesyncMessage}

end Publish

end EdgeSync
