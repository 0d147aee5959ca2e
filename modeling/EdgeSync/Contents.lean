/-
  Contents.lean --- a queue holds what was published, and hands out what it holds.

  A view of messages says which of their parts an object never changes.  Every message of
  the object then looks like one that was published, and so does every message it hands out.
-/
import EdgeSync.Atomic
import EdgeSync.Foundation.Runs
import EdgeSync.Table

set_option autoImplicit false

namespace EdgeSync

open Foundation

/-! ## What was published -/

/-- The message a step may have stored. -/
def FlashqStepLabel.publishedMessage? : FlashqStepLabel → Option EdgesyncMessage
  | .call (.enqueue _) (.error .queueFull) => none
  | .call (.enqueue message) _ => some message
  | .callCut (.enqueue message) => some message
  | _ => none

/-- The messages that were published. -/
def publishedMessages (labels : List FlashqStepLabel) : List EdgesyncMessage :=
  labels.filterMap (·.publishedMessage?)

theorem publishedMessage?_id (label : FlashqStepLabel) :
    label.publishedMessage?.map (·.id) = label.publishedId? := by
  unfold FlashqStepLabel.publishedMessage?
  split
  · rfl
  · rename_i message res hfull
    rw [FlashqStepLabel.publishedId?]
    · rfl
    · exact fun _ h => by cases h; exact hfull rfl
  · rfl
  · rename_i hfull hcall hcut
    cases label with
    | call op res =>
      cases op with
      | enqueue message => exact absurd rfl (hcall message res)
      | _ => rfl
    | callCut op =>
      cases op with
      | enqueue message => exact absurd rfl (hcut message)
      | _ => rfl
    | _ => rfl

theorem publishedMessages_ids (labels : List FlashqStepLabel) :
    (publishedMessages labels).map (·.id) = publishedIds labels := by
  rw [publishedMessages, List.map_filterMap, publishedIds]
  exact List.filterMap_congr fun label _ => publishedMessage?_id label

/-- With unique ids there is one message for an id. -/
theorem published_eq {labels : List FlashqStepLabel} (hu : (publishedIds labels).Nodup)
    {a b : EdgesyncMessage} (ha : a ∈ publishedMessages labels) (hb : b ∈ publishedMessages labels)
    (hid : a.id = b.id) : a = b := by
  rw [← publishedMessages_ids] at hu
  exact List.inj_on_of_nodup_map hu ha hb hid

/-! ## Views -/

/-- What a claim tells of a message. -/
structure ClaimedMessage.Tells (c : ClaimedMessage) (x : StoredMessage) : Prop where
  id : c.id = x.id
  destination : c.destination = x.destination
  priority : c.priority = x.priority
  createdAtUs : c.createdAtUs = x.createdAtUs
  payloadLen : c.payloadLen = x.payloadLen

/-- A message as it was accepted. -/
def StoredMessage.accepted (x : StoredMessage) : StoredMessage := x.change fun _ => .queued

/-- Messages that were accepted with the same parts tell the same. -/
theorem ClaimedMessage.Tells.of_heading {c : ClaimedMessage} {x y : StoredMessage} (h : c.Tells x)
    (hxy : x.accepted.heading = y.accepted.heading) : c.Tells y := by
  have hidentity : x.toEntryMeta.identity = y.toEntryMeta.identity :=
    congrArg (fun z => z.toEntryMeta.identity) hxy
  simp only [EntryMeta.identity, Prod.mk.injEq] at hidentity
  obtain ⟨hid, hpriority, _, hlen, hcreated⟩ := hidentity
  have hdest : x.destination = y.destination := by
    have hheading := congrArg StoredMessage.destination hxy
    exact hheading
  exact ⟨h.id.trans hid, h.destination.trans hdest, h.priority.trans hpriority,
    h.createdAtUs.trans hcreated, h.payloadLen.trans hlen⟩

/-- The object changes nothing that the view shows. -/
structure AtomicObject.Keeps (O : AtomicObject (List StoredMessage))
    (view : StoredMessage → StoredMessage) : Prop where
  heading : ∀ {x y}, view x = view y → x.accepted.heading = y.accepted.heading
  call : ∀ {q op res q'}, O.call q op res q' → ∀ x' ∈ q', (∃ x ∈ q, view x' = view x) ∨
    ∃ message, op = .enqueue message ∧ res = .ok .done ∧
      view x' = view (StoredMessage.ofMessage message)
  claim : ∀ {q nowUs c q'}, O.call q (.claimNext nowUs) (.ok (.claim (.claimed c))) q' →
    ∃ x ∈ q, c.Tells x
  kept : ∀ {q q'}, O.kept q q' → ∀ x' ∈ q', ∃ x ∈ q, view x' = view x
  restart : ∀ {q q'}, O.restart q q' → ∀ x' ∈ q', ∃ x ∈ q, view x' = view x

/-- What the device holds. -/
def Powered.held {Q : Type} : Powered Q → Q
  | .off q => q
  | .on q => q

section Keeps

variable {O : AtomicObject (List StoredMessage)} {view : StoredMessage → StoredMessage}
  {labels : List FlashqStepLabel} {label : FlashqStepLabel} {p p' : Powered (List StoredMessage)}

/-- Every message looks like one that was published. -/
def Published (view : StoredMessage → StoredMessage) (labels : List FlashqStepLabel)
    (q : List StoredMessage) : Prop :=
  ∀ x ∈ q, ∃ message ∈ publishedMessages labels, view x = view (StoredMessage.ofMessage message)

theorem Published.step {q q' : List StoredMessage} (h : Published view labels q)
    (hq' : ∀ x' ∈ q', (∃ x ∈ q, view x' = view x) ∨ ∃ message,
      label.publishedMessage? = some message ∧ view x' = view (StoredMessage.ofMessage message)) :
    Published view (labels ++ [label]) q' := by
  intro x' hx'
  rw [publishedMessages, List.filterMap_append]
  rcases hq' x' hx' with ⟨x, hx, hview⟩ | ⟨message, hmessage, hview⟩
  · obtain ⟨message, hm, hsame⟩ := h x hx
    exact ⟨message, List.mem_append_left _ hm, hview.trans hsame⟩
  · refine ⟨message, List.mem_append_right _ ?_, hview⟩
    simp [hmessage]

theorem AtomicObject.Keeps.step (hk : O.Keeps view) (h : Published view labels p.held)
    (step : AtomicStep O p label p') : Published view (labels ++ [label]) p'.held := by
  cases step with
  | call call =>
    refine h.step fun x' hx' => (hk.call call x' hx').imp_right ?_
    rintro ⟨message, rfl, rfl, hview⟩
    exact ⟨message, rfl, hview⟩
  | undone kept => exact h.step fun x' hx' => .inl (hk.kept kept x' hx')
  | done call kept =>
    refine h.step fun x' hx' => ?_
    obtain ⟨x1, hx1, hview1⟩ := hk.kept kept x' hx'
    rcases hk.call call x1 hx1 with ⟨x, hx, hview⟩ | ⟨message, rfl, _, hview⟩
    · exact .inl ⟨x, hx, hview1.trans hview⟩
    · exact .inr ⟨message, rfl, hview1.trans hview⟩
  | stopped kept => exact h.step fun x' hx' => .inl (hk.kept kept x' hx')
  | booted restart => exact h.step fun x' hx' => .inl (hk.restart restart x' hx')
  | bootFailed kept => exact h.step fun x' hx' => .inl (hk.kept kept x' hx')
  | bootCut kept => exact h.step fun x' hx' => .inl (hk.kept kept x' hx')

theorem AtomicObject.Keeps.published (hk : O.Keeps view)
    (run : StepRun (AtomicStep O) (.off []) labels p) : Published view labels p.held :=
  run.invariant (I := fun labels p => Published view labels p.held)
    (fun _ hx => absurd hx List.not_mem_nil) fun _ _ _ _ h step => hk.step h step

/-- What is handed out was published. -/
theorem AtomicObject.Keeps.claims (hk : O.Keeps view)
    (run : StepRun (AtomicStep O) (.off []) labels p) {nowUs : Int64} {c : ClaimedMessage}
    (hc : .call (.claimNext nowUs) (.ok (.claim (.claimed c))) ∈ labels) :
    ∃ message ∈ publishedMessages labels, c.Tells (StoredMessage.ofMessage message) := by
  obtain ⟨before, after, rfl⟩ := List.append_of_mem hc
  obtain ⟨p1, first, rest⟩ := run.split
  obtain ⟨p2, step, -⟩ := rest.first
  cases step with
  | @call q q' op res call =>
    obtain ⟨x, hx, htells⟩ := hk.claim call
    obtain ⟨message, hm, hview⟩ := hk.published first x hx
    refine ⟨message, ?_, htells.of_heading (hk.heading hview)⟩
    rw [publishedMessages, List.filterMap_append]
    exact List.mem_append_left _ hm

/-- The message queue keeps all but the progress of a message. -/
theorem messageQueue_keeps : messageQueue.Keeps StoredMessage.accepted where
  heading h := by rw [h]
  call {q op res q'} step x' hx' := by
    have hmodify : ∀ {pos : Nat} {f : Progress → Progress}, x' ∈ q.modify pos (·.change f) →
        ∃ x ∈ q, x'.accepted = x.accepted := by
      intro pos f hx'
      rcases mem_of_mem_modify hx' with hx' | ⟨x, hx, rfl⟩
      · exact ⟨x', hx', rfl⟩
      · exact ⟨x, List.mem_of_getElem? hx, rfl⟩
    cases step with
    | refused => exact .inl ⟨x', hx', rfl⟩
    | candidate selected entry => exact .inl ⟨x', hx', rfl⟩
    | stats => exact .inl ⟨x', hx', rfl⟩
    | staged found => exact .inl (hmodify hx')
    | claimed selected entry => exact .inl (hmodify hx')
    | retried found => exact .inl (hmodify hx')
    | retired retires found => exact .inl ⟨x', mem_of_mem_swapRemove hx', rfl⟩
    | enqueued =>
      rcases List.mem_append.mp hx' with hx' | hx'
      · exact .inl ⟨x', hx', rfl⟩
      · exact .inr ⟨_, rfl, rfl, by rw [List.mem_singleton.mp hx']⟩
  claim {q nowUs c q'} step := by
    obtain ⟨pos, s, -, entry, rfl, -⟩ := QueueStep.claim_ok step
    exact ⟨s, List.mem_of_getElem? entry, ⟨rfl, rfl, rfl, rfl, rfl⟩⟩
  kept {q q'} h x' hx' := by
    have hmem : x'.durable ∈ q.map StoredMessage.durable := by
      rw [← show q'.map StoredMessage.durable = _ from h]
      exact List.mem_map_of_mem hx'
    obtain ⟨x, hx, hview⟩ := List.mem_map.mp hmem
    exact ⟨x, hx, (congrArg StoredMessage.accepted hview).symm⟩
  restart {q q'} h x' hx' := by
    rw [show q' = _ from h] at hx'
    obtain ⟨x, hx, rfl⟩ := List.mem_map.mp hx'
    exact ⟨x, hx, rfl⟩

end Keeps

end EdgeSync
