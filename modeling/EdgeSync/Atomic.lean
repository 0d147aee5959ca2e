/-
  Atomic.lean --- what a backend is for when the power may go at any time.

  An object takes every call at once.  A call during which the power goes took effect or
  did not, and what a switched-off device keeps of the object is enough to start it again.
  Nothing here knows how a backend does it.
-/
import EdgeSync.Flashq.System

set_option autoImplicit false

namespace EdgeSync

open Foundation

/-! ## Objects that lose power -/

/-- A device that holds a value, switched off or running. -/
inductive Powered (Q : Type) where
  | off (q : Q)
  | on (q : Q)

/-- `call` is what a call may do, `kept` what a device keeps when it is switched off, and
`restart` what a restart makes of that. -/
structure AtomicObject (Q : Type) where
  call : Q → StorageOp → Except EspErr StorageReply → Q → Prop
  kept : Q → Q → Prop
  restart : Q → Q → Prop

/-- One step. -/
inductive AtomicStep {Q : Type} (O : AtomicObject Q) :
    Powered Q → FlashqStepLabel → Powered Q → Prop where
  | call {q q' : Q} {op : StorageOp} {res : Except EspErr StorageReply}
      (call : O.call q op res q') : AtomicStep O (.on q) (.call op res) (.on q')
  /-- the power went before the call took effect -/
  | undone {q q' : Q} {op : StorageOp} (kept : O.kept q q') :
      AtomicStep O (.on q) (.callCut op) (.off q')
  /-- the power went after it took effect -/
  | done {q q1 q' : Q} {op : StorageOp} {res : Except EspErr StorageReply}
      (call : O.call q op res q1) (kept : O.kept q1 q') :
      AtomicStep O (.on q) (.callCut op) (.off q')
  | stopped {q q' : Q} (kept : O.kept q q') : AtomicStep O (.on q) .stopped (.off q')
  | booted {q q' : Q} (restart : O.restart q q') : AtomicStep O (.off q) .booted (.on q')
  | bootFailed {q q' : Q} {err : EspErr} (kept : O.kept q q') :
      AtomicStep O (.off q) (.bootFailed err) (.off q')
  | bootCut {q q' : Q} (kept : O.kept q q') : AtomicStep O (.off q) .bootCut (.off q')

/-! ## The queue of messages -/

/-- The last error, of a message that waits for a time of its own or is a dead letter: where a
restart took a message back, a retry that was cut may have left its error behind. -/
def Progress.settledError (p : Progress) : Int32 :=
  if p.state = FlashqState.pending.code ∧ p.nextRetryAtUs = 0 then 0 else p.lastError

/-- What outlives the power: a message in flight will be requeued. -/
def Progress.durable (p : Progress) : Progress :=
  { p.requeued with lastError := p.requeued.settledError }

/-- What outlives the power. -/
def StoredMessage.durable (s : StoredMessage) : StoredMessage := s.change Progress.durable

/-- The two queues are the same after a restart, but for the errors of messages that it takes
back. -/
def SameDurable (q q' : List StoredMessage) : Prop :=
  q'.map StoredMessage.durable = q.map StoredMessage.durable

/-- The queue of messages that never loses one it accepted. -/
def messageQueue : AtomicObject (List StoredMessage) where
  call := QueueStep
  kept := SameDurable
  restart q q' := q' = q.map StoredMessage.settle

namespace Progress

theorem requeued_durable (p : Progress) : p.requeued.durable = p.durable := by
  rw [durable, durable, requeued_requeued]

/-- What a retry stages does not outlive the power while the message is in flight. -/
theorem durable_staged {p : Progress} (h : p.state = FlashqState.inFlight.code)
    (nextRetryTimeUs : Int64) (deadLetter : Bool) (lastError : Int32) :
    (p.staged nextRetryTimeUs deadLetter lastError).durable = p.durable := by
  have hstaged : (p.staged nextRetryTimeUs deadLetter lastError).state =
      FlashqState.inFlight.code := h
  rw [durable, durable, requeued, requeued, if_pos h, if_pos hstaged]
  rfl

end Progress

/-- The view of an entry that outlives the power. -/
def Lens.durable : Lens EntryMeta where
  get := fun e => e.withProgress e.progress.durable
  id_eq := fun a b h => by
    have hid : (a.withProgress a.progress.durable).id = (b.withProgress b.progress.durable).id :=
      congrArg EntryMeta.id h
    exact hid
  progress_eq := fun p a b h => by
    have hid : (a.withProgress a.progress.durable).identity =
        (b.withProgress b.progress.durable).identity := congrArg EntryMeta.identity h
    have hsame : a.withProgress p = b.withProgress p := EntryMeta.ext_parts hid rfl
    rw [hsame]

section SameDurable

variable {q q' q'' : List StoredMessage}

theorem SameDurable.refl (q : List StoredMessage) : SameDurable q q := rfl

theorem SameDurable.symm (h : SameDurable q q') : SameDurable q' q := Eq.symm h

theorem SameDurable.trans (h : SameDurable q q') (h' : SameDurable q' q'') : SameDurable q q'' :=
  Eq.trans h' h

theorem durable_settle (s : StoredMessage) : s.settle.durable = s.durable := by
  rw [StoredMessage.durable, StoredMessage.settle, StoredMessage.change_change]
  simp only [Progress.requeued_durable, StoredMessage.durable]

/-- Queues that a restart makes equal are the same. -/
theorem SameDurable.of_settle (h : q'.map StoredMessage.settle = q.map StoredMessage.settle) :
    SameDurable q q' := by
  have hdurable := congrArg (List.map StoredMessage.durable) h
  simpa [SameDurable, List.map_map, Function.comp_def, durable_settle] using hdurable

theorem SameDurable.messageIds_eq (h : SameDurable q q') : messageIds q' = messageIds q := by
  have hids := congrArg messageIds h
  simpa [messageIds, List.map_map, Function.comp_def, StoredMessage.durable] using hids

theorem SameDurable.knownIds {labels : List FlashqStepLabel} (h : SameDurable q q')
    (known : KnownIds labels q) : KnownIds labels q' := by
  constructor
  · rw [h.messageIds_eq]
    exact known.nodup
  · rw [h.messageIds_eq]
    exact known.published

theorem SameDurable.append (h : SameDurable q q') (s : StoredMessage) :
    SameDurable (q ++ [s]) (q' ++ [s]) := by
  rw [SameDurable, List.map_append, List.map_append, h]

theorem SameDurable.swapRemove (h : SameDurable q q') (pos : Nat) :
    SameDurable (swapRemove q pos) (swapRemove q' pos) := by
  rw [SameDurable, Foundation.map_swapRemove, Foundation.map_swapRemove, h]

/-- Messages that differ in their progress only are the same once they are given one. -/
theorem durable_change_const {a b : StoredMessage} (h : a.durable = b.durable) (p : Progress) :
    (a.change fun _ => p).durable = (b.change fun _ => p).durable := by
  have hchange : ∀ s : StoredMessage,
      (s.change fun _ => p).durable = s.durable.change fun _ => p.durable := fun _ => rfl
  rw [hchange, hchange, h]

theorem SameDurable.modify_const (h : SameDurable q q') (pos : Nat) (p : Progress) :
    SameDurable (q.modify pos (·.change fun _ => p)) (q'.modify pos (·.change fun _ => p)) := by
  apply List.ext_getElem?
  intro i
  have hi := congrArg (·[i]?) h
  simp only [List.getElem?_map] at hi
  simp only [List.getElem?_map, List.getElem?_modify]
  by_cases hpos : pos = i
  · subst hpos
    simp only [if_true]
    cases hq : q[pos]? with
    | none =>
      rw [hq] at hi
      rw [Option.map_eq_none_iff.mp hi]
    | some a =>
      rw [hq] at hi
      obtain ⟨b, hb, hdurable⟩ := Option.map_eq_some_iff.mp hi
      rw [hb]
      exact congrArg some (durable_change_const hdurable p)
  · simpa only [if_neg hpos, Option.map_eq_map, Option.map_id'] using hi

theorem SameDurable.progressTo (h : SameDurable q q') (id : UInt64) (p : Progress) :
    SameDurable (progressTo id p q) (progressTo id p q') := by
  have hfind : findMessage q' id = findMessage q id := by
    have hids := h.messageIds_eq
    have hpos := fun l : List StoredMessage =>
      findPos_map (fun s : StoredMessage => s.id) (fun i => i == id) l
    rw [findMessage, findMessage, ← hpos, ← hpos]
    exact congrArg _ hids
  unfold EdgeSync.progressTo
  rw [hfind]
  split
  · exact h
  · split
    · exact h.swapRemove _
    · exact h.modify_const _ p

/-- Staging the fields of a message in flight changes nothing that is kept. -/
theorem sameDurable_staged {pos : Nat} {s : StoredMessage} (hs : q[pos]? = some s)
    (h : s.state = FlashqState.inFlight.code) (nextRetryTimeUs : Int64) (deadLetter : Bool)
    (lastError : Int32) :
    SameDurable q (q.modify pos (·.change (Progress.staged nextRetryTimeUs deadLetter lastError))) := by
  refine map_modify_of_eq fun x hx => ?_
  obtain rfl := Option.some.inj (hs.symm.trans hx)
  rw [StoredMessage.durable, StoredMessage.change_change]
  have hstate : s.toEntryMeta.progress.state = FlashqState.inFlight.code := h
  have hstaged := Progress.durable_staged hstate nextRetryTimeUs deadLetter lastError
  rw [StoredMessage.change, hstaged]
  rfl

end SameDurable

end EdgeSync
