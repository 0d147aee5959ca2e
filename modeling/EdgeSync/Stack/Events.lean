/-
  Stack/Events.lean --- what the events say about the queue (`edgesync_events.h`).

  An event is fired after the mutex was released, so between the storage call it
  tells of and the callback other tasks use the queue.  The invariant says of every
  event that is still to be fired that it is true of the index.
-/
import EdgeSync.Nvs.Faults
import EdgeSync.Stack.Replacing
import EdgeSync.Stack.Stats

set_option autoImplicit false

namespace EdgeSync

open Foundation

/-! ## The truth of an event -/

/-- The events the worker has still to fire. -/
def WorkerPhase.events : WorkerPhase → Events
  | .firing events => events
  | _ => []

/-- The operation the worker settles a delivery with. -/
def TasksLabel.settles? : TasksLabel → Option StorageOp
  | .settle op _ => some op
  | _ => none

/-- The last settlement of a run. -/
def lastSettled (labels : List TasksLabel) : Option StorageOp :=
  (labels.filterMap (·.settles?)).getLast?

/-- What an event says of the message `id`, after the storage calls `calls` and the
settlement `last`, in front of the index `q`. -/
def EdgesyncEvent.TrueOf (calls : List StorageCall) (last : Option StorageOp) (q : List EntryMeta)
    (id : UInt64) : EdgesyncEvent → Prop
  | .queued => id ∈ acceptedIds calls ∧ (id ∈ q.map (·.id) ∨
      ∃ op newState reply, Retires op id newState ∧ (op, .ok reply) ∈ calls)
  | .queueFull => id ∉ q.map (·.id) ∧
      ((id ∉ acceptedIds calls ∧
          ∃ message, message.id = id ∧ (StorageOp.enqueue message, .error .queueFull) ∈ calls) ∨
        ∃ reply, (.remove id, .ok reply) ∈ calls)
  | .retry => ∃ nextRetryTimeUs lastError,
      last = some (.scheduleRetry id nextRetryTimeUs false lastError) ∧
      ∃ e ∈ q, e.id = id ∧ e.state = FlashqState.pending.code ∧ e.nextRetryAtUs = nextRetryTimeUs
  | .deadLetter => ∃ e ∈ q, e.id = id ∧ e.state = FlashqState.deadLetter.code
  | .delivered => True
  | .failed => True

/-! ## What is offered -/

/-- The message that the call offers has none of these ids. -/
def StorageOp.NewTo (known : List UInt64) : StorageOp → Prop
  | .enqueue message => message.id ∉ known
  | _ => True

instance (known : List UInt64) (op : StorageOp) : Decidable (op.NewTo known) := by
  cases op <;> unfold StorageOp.NewTo <;> infer_instance

/-- No message is offered under an id that is known or was accepted; one that was refused
may be offered again. -/
def UniquelyOffered (known : List UInt64) : List StorageCall → Prop
  | [] => True
  | call :: calls =>
      call.1.NewTo known ∧ UniquelyOffered (known ++ call.acceptedId?.toList) calls

instance decidableUniquelyOffered (known : List UInt64) :
    (calls : List StorageCall) → Decidable (UniquelyOffered known calls)
  | [] => inferInstanceAs (Decidable True)
  | call :: calls =>
      have := decidableUniquelyOffered (known ++ call.acceptedId?.toList) calls
      inferInstanceAs (Decidable (_ ∧ _))

theorem acceptedIds_cons (call : StorageCall) (calls : List StorageCall) :
    acceptedIds (call :: calls) = call.acceptedId?.toList ++ acceptedIds calls := by
  rw [acceptedIds, List.filterMap_cons]
  cases call.acceptedId? <;> rfl

theorem uniquelyOffered_append {known : List UInt64} {calls new : List StorageCall} :
    UniquelyOffered known (calls ++ new) ↔
      UniquelyOffered known calls ∧ UniquelyOffered (known ++ acceptedIds calls) new := by
  induction calls generalizing known with
  | nil =>
    rw [List.nil_append, acceptedIds, List.filterMap_nil, List.append_nil]
    exact (iff_of_eq (true_and _)).symm
  | cons call calls ih =>
    rw [List.cons_append, UniquelyOffered, UniquelyOffered, ih, acceptedIds_cons,
      List.append_assoc, and_assoc]

/-! ## What the calls keep -/

section Calls

variable {known : List UInt64} {calls : List StorageCall} {last : Option StorageOp} {early : Bool}
  {capacity : Nat} {q q' : List EntryMeta} {op : StorageOp} {res : Except EspErr StorageReply}
  {id : UInt64}

/-- The index holds what it held at the start or accepted since, and so does what was
removed. -/
structure Sourced (known : List UInt64) (calls : List StorageCall) (q : List EntryMeta) : Prop where
  ids : (q.map (·.id)).Subperm (known ++ acceptedIds calls)
  removed : ∀ id reply, (StorageOp.remove id, .ok reply) ∈ calls → id ∈ known ++ acceptedIds calls

theorem map_id_modify (q : List EntryMeta) (pos : Nat) (f : Progress → Progress) :
    (q.modify pos (·.change f)).map (·.id) = q.map (·.id) :=
  map_modify_of_eq fun _ _ => rfl

/-- The ids after a call. -/
theorem CallStep.ids (step : CallStep early capacity q op res q') :
    q'.map (·.id) = q.map (·.id) ∨
    (∃ message, op = .enqueue message ∧ res = .ok .done ∧
      q'.map (·.id) = q.map (·.id) ++ [message.id]) ∨
    ∃ id newState, Retires op id newState ∧ res = .ok .done ∧
      (q.map (·.id)).Perm (id :: q'.map (·.id)) := by
  cases step with
  | refused => exact .inl rfl
  | @enqueued message room =>
    refine .inr (.inl ⟨message, rfl, rfl, ?_⟩)
    rw [List.map_append]
    rfl
  | claimed selected entry shows => exact .inl (map_id_modify _ _ _)
  | claimLost isEarly selected => exact .inl (map_id_modify _ _ _)
  | corrupt selected entry => exact .inl (map_id_modify _ _ _)
  | corruptLost selected => exact .inl (map_id_modify _ _ _)
  | @retired _ id newState pos retires found =>
    obtain ⟨e, he, hid⟩ := findPos_some found
    refine .inr (.inr ⟨id, newState, retires, rfl, ?_⟩)
    have hperm := (perm_swapRemove he).map (·.id)
    rwa [List.map_cons, show e.id = id from eq_of_beq hid] at hperm
  | retried found => exact .inl (map_id_modify _ _ _)
  | retryLost found => exact .inl (map_id_modify _ _ _)
  | candidate selected entry => exact .inl rfl
  | stats => exact .inl rfl

theorem Sourced.step (h : Sourced known calls q) (step : CallStep early capacity q op res q') :
    Sourced known (calls ++ [(op, res)]) q' := by
  have hsub : (known ++ acceptedIds calls).Sublist (known ++ acceptedIds (calls ++ [(op, res)])) := by
    rw [acceptedIds_snoc, ← List.append_assoc]
    exact List.sublist_append_left _ _
  refine ⟨?_, fun id reply hmem => ?_⟩
  · rcases step.ids with hids | ⟨message, rfl, rfl, hids⟩ | ⟨id, newState, _, _, hperm⟩
    · rw [hids]
      exact h.ids.trans hsub.subperm
    · rw [hids, acceptedIds_snoc, ← List.append_assoc]
      exact h.ids.append (List.Subperm.refl _)
    · exact ((List.sublist_cons_self id _).subperm.trans hperm.symm.subperm).trans
        (h.ids.trans hsub.subperm)
  · rcases List.mem_append.mp hmem with hmem | hmem
    · exact hsub.subset (h.removed id reply hmem)
    · cases List.mem_singleton.mp hmem
      cases step with
      | retired retires found =>
        cases retires
        obtain ⟨e, he, hid⟩ := findPos_some found
        refine hsub.subset (h.ids.subset ?_)
        exact List.mem_map.mpr ⟨e, List.mem_of_getElem? he, eq_of_beq hid⟩

theorem Sourced.nodup (h : Sourced known calls q) (hu : (known ++ acceptedIds calls).Nodup) :
    (q.map (·.id)).Nodup := by
  obtain ⟨l, hperm, hsub⟩ := h.ids
  exact hperm.nodup_iff.mp (hsub.nodup hu)

/-- What a publisher's event says stays true, unless the message it calls refused or
removed is accepted. -/
theorem EdgesyncEvent.TrueOf.call {event : EdgesyncEvent} {last' : Option StorageOp}
    (h : event.TrueOf calls last q id) (hev : event = .queued ∨ event = .queueFull)
    (step : CallStep early capacity q op res q')
    (hne : event = .queueFull → id ∉ acceptedIds [(op, res)]) :
    event.TrueOf (calls ++ [(op, res)]) last' q' id := by
  have hmore : ∀ {call : StorageCall}, call ∈ calls → call ∈ calls ++ [(op, res)] :=
    fun hcall => List.mem_append_left _ hcall
  rcases hev with rfl | rfl
  · obtain ⟨hacc, hwhere⟩ := h
    refine ⟨?_, ?_⟩
    · rw [acceptedIds_snoc]
      exact List.mem_append_left _ hacc
    rcases hwhere with hmem | ⟨op', newState, reply, retires, hcall⟩
    · rcases step.ids with hids | ⟨message, rfl, rfl, hids⟩ | ⟨id', newState, retires, rfl, hperm⟩
      · exact .inl (hids ▸ hmem)
      · exact .inl (hids ▸ List.mem_append_left _ hmem)
      · rcases List.mem_cons.mp (hperm.mem_iff.mp hmem) with rfl | hmem'
        · exact .inr ⟨op, newState, .done, retires,
            List.mem_append_right _ (List.mem_singleton_self _)⟩
        · exact .inl hmem'
    · exact .inr ⟨op', newState, reply, retires, hmore hcall⟩
  · obtain ⟨hout, hwhy⟩ := h
    refine ⟨?_, ?_⟩
    · rcases step.ids with hids | ⟨message, rfl, rfl, hids⟩ | ⟨id', newState, retires, rfl, hperm⟩
      · rwa [hids]
      · -- the message is not accepted
        rw [hids, List.mem_append, List.mem_singleton]
        rintro (hmem | rfl)
        · exact hout hmem
        · exact hne rfl (List.mem_singleton_self _)
      · exact fun hmem => hout (hperm.mem_iff.mpr (List.mem_cons_of_mem _ hmem))
    · rcases hwhy with ⟨hnot, message, hid, hcall⟩ | ⟨reply, hcall⟩
      · refine .inl ⟨?_, message, hid, hmore hcall⟩
        rw [acceptedIds, List.filterMap_append, List.mem_append]
        exact not_or.mpr ⟨hnot, hne rfl⟩
      · exact .inr ⟨reply, hmore hcall⟩

/-- A removed message is gone. -/
theorem CallStep.removed_true {reply : StorageReply}
    (step : CallStep early capacity q (.remove id) (.ok reply) q') (hnodup : (q.map (·.id)).Nodup) :
    EdgesyncEvent.queueFull.TrueOf (calls ++ [(.remove id, .ok reply)]) last q' id := by
  obtain ⟨-, pos, hfound, rfl⟩ := step.remove_ok
  refine ⟨fun hmem => ?_, .inr ⟨reply, List.mem_append_right _ (List.mem_singleton_self _)⟩⟩
  obtain ⟨e, he, hid⟩ := List.mem_map.mp hmem
  exact ((mem_swapRemove_of_found hnodup hfound).mp he).2 hid

/-- Calls that neither claim nor schedule leave an entry alone unless they end its
message. -/
theorem CallStep.keeps_entry {e : EntryMeta} (step : CallStep early capacity q op res q')
    (he : e ∈ q) (hclaim : ∀ nowUs, op ≠ .claimNext nowUs)
    (hretry : ∀ id next deadLetter lastError, op ≠ .scheduleRetry id next deadLetter lastError)
    (hends : ∀ reply newState, res = .ok reply → ¬ Retires op e.id newState) : e ∈ q' := by
  cases step with
  | refused => exact he
  | enqueued room => exact List.mem_append_left _ he
  | claimed selected entry shows => exact absurd rfl (hclaim _)
  | claimLost isEarly selected => exact absurd rfl (hclaim _)
  | corrupt selected entry => exact absurd rfl (hclaim _)
  | corruptLost selected => exact absurd rfl (hclaim _)
  | @retired _ id newState pos retires found =>
    obtain ⟨x, hx, hid⟩ := findPos_some found
    rcases List.mem_cons.mp ((perm_swapRemove hx).mem_iff.mp he) with rfl | hmem
    · rw [← eq_of_beq hid] at retires
      exact absurd retires (hends _ newState rfl)
    · exact hmem
  | retried found => exact absurd rfl (hretry _ _ _ _)
  | retryLost found => exact absurd rfl (hretry _ _ _ _)
  | candidate selected entry => exact he
  | stats => exact he

end Calls

/-! ## A publish -/

section Publish

variable {B : StorageBackend} {env : Env B.Call B.Dev B.Event} {ctx ctx' : B.Ctx} {dev dev' : B.Dev}
  {known : List UInt64} {calls new : List StorageCall} {last last' : Option StorageOp}
  {policy : OverflowPolicy} {message : EdgesyncMessage} {report : PublishReport}

theorem acceptedIds_append (calls new : List StorageCall) :
    acceptedIds (calls ++ new) = acceptedIds calls ++ acceptedIds new := List.filterMap_append

/-- Storage calls keep what a publisher has to say. -/
theorem Calls.keeps_truth (run : Calls B env ctx dev new ctx' dev')
    (sourced : Sourced known calls (B.metas ctx)) :
    Sourced known (calls ++ new) (B.metas ctx') ∧
    ∀ (event : EdgesyncEvent) (id : UInt64), event = .queued ∨ event = .queueFull →
      (event = .queueFull → id ∉ acceptedIds new) → event.TrueOf calls last (B.metas ctx) id →
      event.TrueOf (calls ++ new) last' (B.metas ctx') id := by
  induction run generalizing calls last with
  | nil =>
    rw [List.append_nil]
    refine ⟨sourced, fun event id hev _ h => ?_⟩
    rcases hev with rfl | rfl <;> exact h
  | @cons ctx ctx1 ctx2 dev dev1 dev2 op res new run rest ih =>
    have hsplit : calls ++ (op, res) :: new = calls ++ [(op, res)] ++ new := by simp
    have hnew : acceptedIds ((op, res) :: new) = acceptedIds [(op, res)] ++ acceptedIds new :=
      acceptedIds_append [(op, res)] new
    rw [hsplit]
    obtain ⟨hsourced, hkeep⟩ := @ih (calls ++ [(op, res)]) last (sourced.step (B.step run))
    refine ⟨hsourced, fun event id hev hne h => ?_⟩
    rw [hnew, List.mem_append] at hne
    exact hkeep event id hev (fun hfull => (not_or.mp (hne hfull)).2)
      (h.call hev (B.step run) fun hfull => (not_or.mp (hne hfull)).1)

/-- They leave an entry alone unless they end its message. -/
theorem Calls.keeps_entry {e : EntryMeta} (run : Calls B env ctx dev new ctx' dev')
    (he : e ∈ B.metas ctx)
    (hop : ∀ call ∈ new, (∀ nowUs, call.1 ≠ .claimNext nowUs) ∧
      (∀ id next deadLetter lastError, call.1 ≠ .scheduleRetry id next deadLetter lastError) ∧
      ∀ reply newState, call.2 = .ok reply → ¬ Retires call.1 e.id newState) : e ∈ B.metas ctx' := by
  induction run with
  | nil => exact he
  | @cons ctx ctx1 ctx2 dev dev1 dev2 op res new run rest ih =>
    obtain ⟨hclaim, hretry, hends⟩ := hop _ List.mem_cons_self
    exact ih ((B.step run).keeps_entry he hclaim hretry hends)
      fun call hcall => hop call (List.mem_cons_of_mem _ hcall)

/-- The operations of a publish. -/
theorem PublishCalls.ops (made : PublishCalls policy message new report) :
    ∀ call ∈ new, call.1 = .enqueue message ∨ call.1 = .findDropCandidate policy ∨
      ∃ id, call.1 = .remove id := by
  intro call hcall
  cases made <;> simp only [List.mem_cons, List.not_mem_nil, or_false] at hcall
  case accepted => exact .inl (hcall ▸ rfl)
  case rejected => exact .inl (hcall ▸ rfl)
  case noCandidate =>
    rcases hcall with rfl | rfl
    · exact .inl rfl
    · exact .inr (.inl rfl)
  case replaced id removed _ =>
    rcases hcall with rfl | rfl | rfl | rfl
    · exact .inl rfl
    · exact .inr (.inl rfl)
    · exact .inr (.inr ⟨id, rfl⟩)
    · exact .inl rfl
  case dropped id removed _ _ =>
    rcases hcall with rfl | rfl | rfl | rfl
    · exact .inl rfl
    · exact .inr (.inl rfl)
    · exact .inr (.inr ⟨id, rfl⟩)
    · exact .inl rfl

/-- The calls of a publish that drops a message, up to the removal. -/
theorem Calls.dropping {id : UInt64} {removed res : Except EspErr StorageReply}
    (run : Calls B env ctx dev [(.enqueue message, .error .queueFull),
      (.findDropCandidate policy, .ok (.candidate id)), (.remove id, removed),
      (.enqueue message, res)] ctx' dev') :
    (∃ e ∈ B.metas ctx, e.id = id ∧ e.state = FlashqState.pending.code) ∧
    ∃ ctx1 ctx2 dev2, B.metas ctx1 = B.metas ctx ∧
      CallStep B.early B.capacity (B.metas ctx1) (.remove id) removed (B.metas ctx2) ∧
      Calls B env ctx2 dev2 [(.enqueue message, res)] ctx' dev' := by
  obtain ⟨ctx1, dev1, step1, rest1⟩ := run.cons_step
  obtain ⟨ctx2, dev2, step2, rest2⟩ := rest1.cons_step
  obtain ⟨ctx3, dev3, step3, rest3⟩ := rest2.cons_step
  have h1 := step1.enqueue_error
  obtain ⟨h2, pos, e, hsel, he, hid⟩ := step2.candidate_ok
  refine ⟨?_, ctx2, ctx3, dev3, h2.trans h1, step3, rest3⟩
  obtain ⟨x, hx, hp⟩ := pick_some hsel
  rw [he] at hx
  cases hx
  exact ⟨e, h1 ▸ List.mem_of_getElem? he, hid, eq_of_beq hp⟩

/-- A publish removes none but a pending message. -/
theorem PublishCalls.removes_pending (made : PublishCalls policy message new report)
    (run : Calls B env ctx dev new ctx' dev') {id : UInt64} {res : Except EspErr StorageReply}
    (hmem : (.remove id, res) ∈ new) :
    ∃ e ∈ B.metas ctx, e.id = id ∧ e.state = FlashqState.pending.code := by
  cases made <;> simp only [List.mem_cons, List.not_mem_nil, or_false, Prod.mk.injEq, reduceCtorEq,
    false_and, StorageOp.remove.injEq, false_or] at hmem
  case replaced id' removed _ =>
    obtain ⟨rfl, rfl⟩ := hmem
    exact run.dropping.1
  case dropped id' removed _ _ =>
    obtain ⟨rfl, rfl⟩ := hmem
    exact run.dropping.1

/-- What a publish offers is new. -/
theorem UniquelyOffered.message_new (h : UniquelyOffered known (calls ++ new))
    (made : PublishCalls policy message new report) :
    message.id ∉ known ++ acceptedIds calls := by
  have hnew := (uniquelyOffered_append.mp h).2
  cases made <;> exact hnew.1

/-- A publish accepts its own message, and returns `ESP_OK` then. -/
theorem PublishCalls.accepts (made : PublishCalls policy message new report) {id : UInt64}
    (hmem : id ∈ acceptedIds new) : id = message.id ∧ report.res = .ok () := by
  cases made with
  | accepted => exact ⟨List.mem_singleton.mp hmem, rfl⟩
  | rejected keep => exact absurd hmem List.not_mem_nil
  | noCandidate drops => exact absurd hmem List.not_mem_nil
  | replaced drops => exact ⟨List.mem_singleton.mp hmem, rfl⟩
  | dropped drops => exact absurd hmem List.not_mem_nil

/-- The dropped message is gone, also when the second attempt is over. -/
theorem Calls.dropped_true {id : UInt64} {reply : StorageReply} {res : Except EspErr StorageReply}
    (run : Calls B env ctx dev [(.enqueue message, .error .queueFull),
      (.findDropCandidate policy, .ok (.candidate id)), (.remove id, .ok reply),
      (.enqueue message, res)] ctx' dev') (sourced : Sourced known calls (B.metas ctx))
    (hnodup : (known ++ acceptedIds calls).Nodup) (hnew : message.id ∉ known ++ acceptedIds calls) :
    EdgesyncEvent.queueFull.TrueOf (calls ++ [(.enqueue message, .error .queueFull),
      (.findDropCandidate policy, .ok (.candidate id)), (.remove id, .ok reply),
      (.enqueue message, res)]) last (B.metas ctx') id := by
  obtain ⟨⟨e, he, hid, _⟩, ctx1, ctx2, dev2, hmetas, hremove, rest⟩ := run.dropping
  have hsplit : calls ++ [(.enqueue message, .error .queueFull),
      (.findDropCandidate policy, .ok (.candidate id)), (.remove id, .ok reply),
      (.enqueue message, res)] = calls ++ [(.enqueue message, .error .queueFull),
      (.findDropCandidate policy, .ok (.candidate id))] ++ [(.remove id, .ok reply)] ++
      [(.enqueue message, res)] := by simp
  have hsame : known ++ acceptedIds (calls ++ [(.enqueue message, .error .queueFull),
      (.findDropCandidate policy, .ok (.candidate id))]) = known ++ acceptedIds calls := by
    rw [acceptedIds_append]
    exact congrArg _ (List.append_nil _)
  have hsourced : Sourced known (calls ++ [(.enqueue message, .error .queueFull),
      (.findDropCandidate policy, .ok (.candidate id))]) (B.metas ctx1) := by
    refine ⟨?_, fun id' reply' hmem => ?_⟩
    · rw [hsame, hmetas]
      exact sourced.ids
    · rw [hsame]
      refine sourced.removed id' reply' ?_
      simpa using hmem
  have hgone : EdgesyncEvent.queueFull.TrueOf (calls ++ [(.enqueue message, .error .queueFull),
      (.findDropCandidate policy, .ok (.candidate id))] ++ [(.remove id, .ok reply)]) last
      (B.metas ctx2) id := hremove.removed_true (hsourced.nodup (by rw [hsame]; exact hnodup))
  rw [hsplit]
  refine (rest.keeps_truth (hsourced.step hremove)).2 _ id (.inr rfl) (fun _ hacc => ?_) hgone
  -- the dropped message is not the new one
  have hold : id ∈ known ++ acceptedIds calls :=
    sourced.ids.subset (List.mem_map.mpr ⟨e, he, hid⟩)
  cases res with
  | error err => exact absurd hacc List.not_mem_nil
  | ok _ =>
    rw [List.mem_singleton.mp hacc] at hold
    exact hnew hold

/-- The events of a publisher. -/
theorem PublishReport.mem_events {event : EdgesyncEvent} {id : UInt64}
    (h : (event, id) ∈ report.events message) :
    (event = .queueFull ∧ report.dropped = some id) ∨
    (event = .queued ∧ id = message.id ∧ report.res = .ok ()) ∨
    (event = .queueFull ∧ id = message.id ∧ report.res = .error .queueFull) := by
  obtain ⟨res, dropped⟩ := report
  rcases List.mem_append.mp h with h | h
  · cases dropped with
    | none => exact absurd h List.not_mem_nil
    | some droppedId =>
      cases List.mem_singleton.mp h
      exact .inl ⟨rfl, rfl⟩
  · cases res with
    | ok _ =>
      cases List.mem_singleton.mp h
      exact .inr (.inl ⟨rfl, rfl, rfl⟩)
    | error err =>
      by_cases herr : err = .queueFull
      · subst herr
        cases List.mem_singleton.mp h
        exact .inr (.inr ⟨rfl, rfl, rfl⟩)
      · cases err <;> first | exact absurd rfl herr | exact absurd h List.not_mem_nil

/-- An accepted message is accepted by the last call. -/
theorem PublishCalls.queued_true {dropped : Option UInt64}
    (made : PublishCalls policy message new ⟨.ok (), dropped⟩)
    (run : Calls B env ctx dev new ctx' dev') :
    EdgesyncEvent.queued.TrueOf (calls ++ new) last (B.metas ctx') message.id := by
  have hlast : ∃ ctx1 dev1, Calls B env ctx1 dev1 [(.enqueue message, .ok .done)] ctx' dev' ∧
      message.id ∈ acceptedIds new := by
    cases made with
    | accepted => exact ⟨ctx, dev, run, List.mem_singleton_self _⟩
    | replaced drops =>
      obtain ⟨_, ctx1, ctx2, dev2, _, _, rest⟩ := run.dropping
      exact ⟨ctx2, dev2, rest, by simp [acceptedIds, StorageCall.acceptedId?]⟩
  obtain ⟨ctx1, dev1, rest, hacc⟩ := hlast
  obtain ⟨ctx2, dev2, step, hnil⟩ := rest.cons_step
  obtain ⟨rfl, rfl⟩ := hnil.eq_of_nil
  refine ⟨?_, .inl ?_⟩
  · rw [acceptedIds_append]
    exact List.mem_append_right _ hacc
  · rw [step.enqueue_ok, List.map_append]
    exact List.mem_append_right _ (List.mem_singleton_self _)

/-- A refused message was refused by one of the calls, and is not queued. -/
theorem PublishCalls.refused_true {dropped : Option UInt64} {q : List EntryMeta}
    (made : PublishCalls policy message new ⟨.error .queueFull, dropped⟩)
    (sourced : Sourced known (calls ++ new) q) (hnew : message.id ∉ known ++ acceptedIds calls) :
    EdgesyncEvent.queueFull.TrueOf (calls ++ new) last q message.id := by
  have hnone : message.id ∉ known ++ acceptedIds (calls ++ new) := by
    rw [acceptedIds_append, ← List.append_assoc, List.mem_append]
    refine not_or.mpr ⟨hnew, fun hacc => ?_⟩
    cases (made.accepts hacc).2
  refine ⟨fun hmem => hnone (sourced.ids.subset hmem), .inl ⟨fun hacc => ?_, message, rfl,
    List.mem_append_right _ ?_⟩⟩
  · exact hnone (List.mem_append_right _ hacc)
  · cases made <;> exact List.mem_cons_self

/-- What a publisher is going to fire is true when it releases the mutex, unless it
could not remove what it dropped. -/
theorem PublishCalls.reports_true (made : PublishCalls policy message new report)
    (run : Calls B env ctx dev new ctx' dev') (sourced : Sourced known calls (B.metas ctx))
    (hnodup : (known ++ acceptedIds calls).Nodup) (hnew : message.id ∉ known ++ acceptedIds calls)
    (hremoved : ∀ id res, (StorageOp.remove id, res) ∈ new → ∃ reply, res = .ok reply) :
    ∀ (event : EdgesyncEvent) (id : UInt64), (event, id) ∈ report.events message →
      (event = .queued ∨ event = .queueFull) ∧ event.TrueOf (calls ++ new) last (B.metas ctx') id := by
  intro event id hmem
  obtain ⟨res, dropped⟩ := report
  rcases PublishReport.mem_events hmem with ⟨rfl, hdropped⟩ | ⟨rfl, rfl, hres⟩ | ⟨rfl, rfl, hres⟩
  · refine ⟨.inr rfl, ?_⟩
    cases made <;> cases hdropped
    all_goals
      obtain ⟨reply, rfl⟩ := hremoved id _ (List.mem_cons_of_mem _ (List.mem_cons_of_mem _
        List.mem_cons_self))
      exact run.dropped_true sourced hnodup hnew
  · cases hres
    exact ⟨.inl rfl, made.queued_true run⟩
  · cases hres
    have hsourced := (@Calls.keeps_truth _ _ _ _ _ _ _ _ _ last last run sourced).1
    exact ⟨.inr rfl, made.refused_true hsourced hnew⟩

end Publish

/-! ## The tasks -/

section Tasks

variable {B : StorageBackend} {env : Env B.Call B.Dev B.Event} {cfg : StackConfig}
  {known : List UInt64} {labels : List TasksLabel} {label : TasksLabel} {s s' : Tasks B}

/-- The event that an operation of the worker leads to. -/
def EdgesyncEvent.Foretold (op : StorageOp) (id : UInt64) : EdgesyncEvent → Prop
  | .retry => ∃ nextRetryTimeUs lastError, op = .scheduleRetry id nextRetryTimeUs false lastError
  | .deadLetter => ∃ nextRetryTimeUs lastError, op = .scheduleRetry id nextRetryTimeUs true lastError
  | .delivered => True
  | .failed => True
  | _ => False

/-- What a publisher is going to fire, it was going to fire before, or its publish
decided on it. -/
theorem TasksStep.pending {p : Nat} {x : EdgesyncEvent × UInt64} (step : TasksStep env cfg s label s')
    (hx : x ∈ (s'.publishers p).events) :
    x ∈ (s.publishers p).events ∨ ∃ p' message calls report,
      label = .publish p' message calls report ∧ x ∈ report.events message := by
  cases step with
  | @publish p' message calls report ctx' dev' idle run made =>
    by_cases hp : p = p'
    · subst hp
      simp only [Tasks.setPublisher, Function.update_self] at hx
      exact .inr ⟨p, message, calls, report, rfl, hx⟩
    · simp only [Tasks.setPublisher, Function.update_of_ne hp] at hx
      exact .inl hx
  | @publisherFires p' event id events wakes fires =>
    by_cases hp : p = p'
    · subst hp
      simp only [Tasks.setPublisher, Function.update_self] at hx
      rw [fires]
      exact .inl (List.mem_cons_of_mem _ hx)
    · simp only [Tasks.setPublisher, Function.update_of_ne hp] at hx
      exact .inl hx
  | @wake p' wakes =>
    by_cases hp : p = p'
    · subst hp
      simp only [Tasks.setPublisher, Function.update_self] at hx
      exact absurd hx List.not_mem_nil
    · simp only [Tasks.setPublisher, Function.update_of_ne hp] at hx
      exact .inl hx
  | claim ready run => exact .inl hx
  | take rests => exact .inl hx
  | woken blocked notified => exact .inl hx
  | timeout blocked => exact .inl hx
  | deliver delivers => exact .inl hx
  | settle settles run => exact .inl hx
  | workerFires fires => exact .inl hx
  | stats run => exact .inl hx

/-- What is still to be fired is true. -/
structure Tasks.Truthful (known : List UInt64) (labels : List TasksLabel) (s : Tasks B) : Prop where
  sourced : Sourced known (storageCalls labels) (B.metas s.ctx)
  publishers : ∀ p event id, (event, id) ∈ (s.publishers p).events →
    (event = .queued ∨ event = .queueFull) ∧
      event.TrueOf (storageCalls labels) (lastSettled labels) (B.metas s.ctx) id
  worker : ∀ event id, (event, id) ∈ s.worker.events →
    event ≠ .queued ∧ event ≠ .queueFull ∧
      event.TrueOf (storageCalls labels) (lastSettled labels) (B.metas s.ctx) id
  settling : ∀ op events, s.worker = .settling op events → op.enqueueId? = none ∧
    ∀ event id, (event, id) ∈ events → event.Foretold op id

/-- The results the tasks do not look at are those of calls that worked, no message is
dropped whose retry was not announced yet, and none is accepted whose refusal was not. -/
def Heeds (s : Tasks B) : TasksLabel → Prop
  | .publish _ message calls report =>
      (∀ id res, (StorageOp.remove id, res) ∈ calls →
        (∃ reply, res = .ok reply) ∧ (EdgesyncEvent.retry, id) ∉ s.worker.events) ∧
      (report.res = .ok () → ∀ p, (EdgesyncEvent.queueFull, message.id) ∉ (s.publishers p).events)
  | .settle (.scheduleRetry _ _ _ _) res => ∃ reply, res = .ok reply
  | _ => True

theorem lastSettled_snoc (labels : List TasksLabel) (label : TasksLabel) :
    lastSettled (labels ++ [label]) = label.settles?.or (lastSettled labels) := by
  rw [lastSettled, List.filterMap_append]
  cases h : label.settles? <;> simp [h, lastSettled]

/-- The worker plans its events with the operation. -/
theorem foretold_handled (retry : EdgesyncRetryConfig) (msg : ClaimedMessage) (nowUs : Int64)
    (randomU32 : UInt32) (result : DeliveryResult) :
    ∀ event ∈ (handleDeliveryResult retry msg nowUs randomU32 result).2,
      event.Foretold (handleDeliveryResult retry msg nowUs randomU32 result).1 msg.id := by
  intro event hmem
  cases result with
  | success =>
    cases List.mem_singleton.mp hmem
    trivial
  | permanentFailure =>
    rcases List.mem_cons.mp hmem with rfl | hmem
    · trivial
    · cases List.mem_singleton.mp hmem
      exact ⟨_, _, rfl⟩
  | retryableFailure =>
    simp only [handleDeliveryResult, handleRetryableFailure] at hmem ⊢
    split at hmem
    case isTrue h =>
      rw [if_pos h]
      rcases List.mem_cons.mp hmem with rfl | hmem
      · trivial
      · cases List.mem_singleton.mp hmem
        exact ⟨_, _, rfl⟩
    case isFalse h =>
      rw [if_neg h]
      rcases List.mem_cons.mp hmem with rfl | hmem
      · trivial
      · cases List.mem_singleton.mp hmem
        exact ⟨_, _, rfl⟩

/-- What the worker has to say stays true where the entry stays. -/
theorem EdgesyncEvent.TrueOf.keep {calls calls' : List StorageCall} {last : Option StorageOp}
    {q q' : List EntryMeta} {id : UInt64} {event : EdgesyncEvent} (h : event.TrueOf calls last q id)
    (hqueued : event ≠ .queued) (hfull : event ≠ .queueFull)
    (hkeep : ∀ e ∈ q, e.id = id →
      event = .retry ∨ event = .deadLetter ∧ e.state = FlashqState.deadLetter.code → e ∈ q') :
    event.TrueOf calls' last q' id := by
  cases event with
  | queued => exact absurd rfl hqueued
  | queueFull => exact absurd rfl hfull
  | retry =>
    obtain ⟨next, err, hlast, e, he, hid, hstate⟩ := h
    exact ⟨next, err, hlast, e, hkeep e he hid (.inl rfl), hid, hstate⟩
  | deadLetter =>
    obtain ⟨e, he, hid, hstate⟩ := h
    exact ⟨e, hkeep e he hid (.inr ⟨rfl, hstate⟩), hid, hstate⟩
  | delivered => trivial
  | failed => trivial

/-- A settlement that worked makes its events true. -/
theorem CallStep.settled_true {early : Bool} {capacity : Nat} {q q' : List EntryMeta}
    {op : StorageOp} {res : Except EspErr StorageReply} {calls : List StorageCall} {id : UInt64}
    {event : EdgesyncEvent} (step : CallStep early capacity q op res q')
    (hres : ∀ id next deadLetter err, op = .scheduleRetry id next deadLetter err →
      ∃ reply, res = .ok reply) (foretold : event.Foretold op id) :
    event ≠ .queued ∧ event ≠ .queueFull ∧ event.TrueOf calls (some op) q' id := by
  have hentry : ∀ next deadLetter err, op = .scheduleRetry id next deadLetter err →
      ∃ e ∈ q, e.id = id ∧ e.change (Progress.retried next deadLetter err) ∈ q' := by
    rintro next deadLetter err rfl
    obtain ⟨reply, rfl⟩ := hres _ _ _ _ rfl
    cases step with
    | retired retires found => cases retires
    | retried found =>
      obtain ⟨e, he, hid⟩ := findPos_some found
      refine ⟨e, List.mem_of_getElem? he, eq_of_beq hid, ?_⟩
      exact (perm_modify he).mem_iff.mpr List.mem_cons_self
  cases event with
  | queued => exact foretold.elim
  | queueFull => exact foretold.elim
  | retry =>
    obtain ⟨next, err, rfl⟩ := foretold
    obtain ⟨e, _, hid, he⟩ := hentry next false err rfl
    exact ⟨by decide, by decide, next, err, rfl, _, he, hid, rfl, rfl⟩
  | deadLetter =>
    obtain ⟨next, err, rfl⟩ := foretold
    obtain ⟨e, _, hid, he⟩ := hentry next true err rfl
    exact ⟨by decide, by decide, _, he, hid, rfl⟩
  | delivered => exact ⟨by decide, by decide, trivial⟩
  | failed => exact ⟨by decide, by decide, trivial⟩

/-- What the worker announces after a claim. -/
theorem CallStep.claimed_true {early : Bool} {capacity : Nat} {q q' : List EntryMeta}
    {nowUs : Int64} {res : Except EspErr StorageReply} {calls : List StorageCall}
    {last : Option StorageOp} {event : EdgesyncEvent} {id : UInt64}
    (step : CallStep early capacity q (.claimNext nowUs) res q')
    (hmem : (event, id) ∈ (WorkerPhase.afterClaim res).events) :
    event ≠ .queued ∧ event ≠ .queueFull ∧ event.TrueOf calls last q' id := by
  cases step with
  | corrupt selected entry =>
    cases List.mem_singleton.mp hmem
    exact ⟨by decide, by decide, _, (perm_modify entry).mem_iff.mpr List.mem_cons_self, rfl, rfl⟩
  | retired retires found => cases retires
  | _ => exact absurd hmem List.not_mem_nil

theorem afterClaim_not_settling (res : Except EspErr StorageReply) (op : StorageOp)
    (events : Events) : WorkerPhase.afterClaim res ≠ .settling op events := by
  unfold WorkerPhase.afterClaim
  split <;> simp

theorem acceptedIds_of_none {op : StorageOp} {res : Except EspErr StorageReply}
    (h : op.enqueueId? = none) : acceptedIds [(op, res)] = [] := by
  cases op with
  | enqueue message => cases h
  | _ => rfl

/-- The worker settles with no enqueue. -/
theorem handled_enqueueId? (retry : EdgesyncRetryConfig) (msg : ClaimedMessage) (nowUs : Int64)
    (randomU32 : UInt32) (result : DeliveryResult) :
    (handleDeliveryResult retry msg nowUs randomU32 result).1.enqueueId? = none := by
  cases result with
  | success => rfl
  | permanentFailure => rfl
  | retryableFailure =>
    unfold handleDeliveryResult handleRetryableFailure
    dsimp only
    split <;> rfl

theorem Tasks.Truthful.step (h : s.Truthful known labels) (step : TasksStep env cfg s label s')
    (heeds : Heeds s label) (hnodup : (known ++ acceptedIds (storageCalls labels)).Nodup)
    (hoffer : UniquelyOffered known (storageCalls labels ++ label.calls)) :
    s'.Truthful known (labels ++ [label]) := by
  -- a step without storage calls that fires or plans events
  have hsilent : label.calls = [] → label.settles? = none → B.metas s'.ctx = B.metas s.ctx →
      (∀ p message calls report, label ≠ .publish p message calls report) →
      (∀ x ∈ s'.worker.events, x ∈ s.worker.events) →
      (∀ op events, s'.worker = .settling op events → s.worker = .settling op events ∨
        op.enqueueId? = none ∧ ∀ event id, (event, id) ∈ events → event.Foretold op id) →
      s'.Truthful known (labels ++ [label]) := by
    intro hcalls hsettles hmetas hother hwork hset
    have hsame : storageCalls (labels ++ [label]) = storageCalls labels := by
      rw [storageCalls_snoc, hcalls, List.append_nil]
    have hlast : lastSettled (labels ++ [label]) = lastSettled labels := by
      rw [lastSettled_snoc, hsettles]
      rfl
    refine ⟨?_, fun p event id hx => ?_, fun event id hx => ?_, fun op events hw => ?_⟩
    · rw [hsame, hmetas]
      exact h.sourced
    · rw [hsame, hmetas, hlast]
      rcases step.pending hx with hx | ⟨p', message, calls, report, hlabel, _⟩
      · exact h.publishers p event id hx
      · exact absurd hlabel (hother p' message calls report)
    · rw [hsame, hmetas, hlast]
      exact h.worker event id (hwork _ hx)
    · rcases hset op events hw with hw' | hfore
      · exact h.settling op events hw'
      · exact hfore
  -- the events of the publishers after storage calls
  have hcalls : ∀ {ctx' dev'}, Calls B env s.ctx s.dev label.calls ctx' dev' →
      (∀ p id, (EdgesyncEvent.queueFull, id) ∈ (s.publishers p).events →
        id ∉ acceptedIds label.calls) →
      Sourced known (storageCalls (labels ++ [label])) (B.metas ctx') ∧
      ∀ p event id, (event, id) ∈ (s.publishers p).events →
        (event = .queued ∨ event = .queueFull) ∧ event.TrueOf (storageCalls (labels ++ [label]))
          (lastSettled (labels ++ [label])) (B.metas ctx') id := by
    intro ctx' dev' run hne
    rw [storageCalls_snoc]
    obtain ⟨hsourced, hkeep⟩ := run.keeps_truth h.sourced
    refine ⟨hsourced, fun p event id hx => ?_⟩
    obtain ⟨hev, htrue⟩ := h.publishers p event id hx
    refine ⟨hev, hkeep event id hev (fun hfull => ?_) htrue⟩
    subst hfull
    exact hne p id hx
  cases step with
  | @publish p message calls report ctx' dev' idle run made =>
    obtain ⟨hremoved, hpending⟩ := heeds
    obtain ⟨hsourced, hothers⟩ := hcalls run fun p' id hx hacc => by
      obtain ⟨rfl, hok⟩ := made.accepts hacc
      exact hpending hok p' hx
    have hids : ((B.metas s.ctx).map (·.id)).Nodup := h.sourced.nodup hnodup
    have hlast : lastSettled (labels ++ [.publish p message calls report]) = lastSettled labels := by
      rw [lastSettled_snoc]
      rfl
    refine ⟨hsourced, fun p' event id hx => ?_, fun event id hx => ?_, h.settling⟩
    · by_cases hp : p' = p
      · subst hp
        simp only [Tasks.setPublisher, Function.update_self] at hx
        rw [storageCalls_snoc]
        exact made.reports_true run h.sourced hnodup (hoffer.message_new made)
          (fun id res hm => (hremoved id res hm).1) event id hx
      · simp only [Tasks.setPublisher, Function.update_of_ne hp] at hx
        exact hothers p' event id hx
    · obtain ⟨hqueued, hfull, htrue⟩ := h.worker event id hx
      refine ⟨hqueued, hfull, ?_⟩
      rw [hlast]
      refine htrue.keep hqueued hfull fun e he hid hkind => run.keeps_entry he fun call hcall => ?_
      rcases made.ops call hcall with hop | hop | ⟨id', hop⟩
      · exact ⟨by simp [hop], by simp [hop], fun _ _ _ hr => by rw [hop] at hr; cases hr⟩
      · exact ⟨by simp [hop], by simp [hop], fun _ _ _ hr => by rw [hop] at hr; cases hr⟩
      · refine ⟨by simp [hop], by simp [hop], fun reply newState hres hr => ?_⟩
        rw [hop] at hr
        obtain rfl : id' = id := by
          rw [← hid]
          cases hr
          rfl
        have hmem : (.remove id', call.2) ∈ calls := by
          rw [← hop]
          exact hcall
        rcases hkind with rfl | ⟨rfl, hdead⟩
        · exact (hremoved id' _ hmem).2 hx
        · -- only pending messages are dropped
          obtain ⟨x, hxq, hxid, hpend⟩ := made.removes_pending run hmem
          obtain rfl := List.inj_on_of_nodup_map hids he hxq (hid.trans hxid.symm)
          rw [hpend] at hdead
          exact absurd hdead (by decide)
  | @publisherFires p event id events wakes fires =>
    exact hsilent rfl rfl rfl (by simp) (fun _ hx => hx) fun _ _ hw => .inl hw
  | @wake p wakes =>
    exact hsilent rfl rfl rfl (by simp) (fun _ hx => hx) fun _ _ hw => .inl hw
  | @claim nowUs res ctx' dev' ready run =>
    obtain ⟨hsourced, hothers⟩ := hcalls (.cons run .nil) fun _ _ _ => List.not_mem_nil
    refine ⟨hsourced, hothers, fun event id hx => (B.step run).claimed_true hx, fun op events hw => ?_⟩
    exact absurd hw (afterClaim_not_settling res op events)
  | take rests =>
    refine hsilent rfl rfl rfl (by simp) (fun x hx => ?_) fun op events hw => ?_
    · dsimp only at hx
      split at hx <;> exact absurd hx List.not_mem_nil
    · dsimp only at hw
      split at hw <;> cases hw
  | woken blocked notified =>
    exact hsilent rfl rfl rfl (by simp) (fun x hx => absurd hx List.not_mem_nil)
      fun op events hw => by cases hw
  | timeout blocked =>
    exact hsilent rfl rfl rfl (by simp) (fun x hx => absurd hx List.not_mem_nil)
      fun op events hw => by cases hw
  | @deliver msg result nowUs randomU32 delivers =>
    refine hsilent rfl rfl rfl (by simp) (fun x hx => absurd hx List.not_mem_nil)
      fun op events hw => .inr ?_
    cases hw
    refine ⟨handled_enqueueId? _ _ _ _ _, fun event id hmem => ?_⟩
    obtain ⟨event', hmem', heq⟩ := List.mem_map.mp hmem
    cases heq
    exact foretold_handled _ _ _ _ _ event hmem'
  | @settle op events res ctx' dev' settles run =>
    obtain ⟨hnone, hforetold⟩ := h.settling op events settles
    obtain ⟨hsourced, hothers⟩ := hcalls (.cons run .nil) fun _ _ _ => by
      rw [show TasksLabel.calls (.settle op res) = [(op, res)] from rfl, acceptedIds_of_none hnone]
      exact List.not_mem_nil
    refine ⟨hsourced, hothers, fun event id hx => ?_, fun op' events' hw => by cases hw⟩
    rw [lastSettled_snoc]
    refine (B.step run).settled_true (fun id' next deadLetter err hop => ?_)
      (hforetold event id hx)
    subst hop
    exact heeds
  | @workerFires event id events fires =>
    refine hsilent rfl rfl rfl (by simp) (fun x hx => ?_) fun op events' hw => by cases hw
    rw [fires]
    exact List.mem_cons_of_mem _ hx
  | @stats res ctx' dev' run =>
    obtain ⟨hsourced, hothers⟩ := hcalls (.cons run .nil) fun _ _ _ => List.not_mem_nil
    refine ⟨hsourced, hothers, fun event id hx => ?_, h.settling⟩
    obtain ⟨hqueued, hfull, htrue⟩ := h.worker event id hx
    refine ⟨hqueued, hfull, ?_⟩
    rw [lastSettled_snoc]
    refine htrue.keep hqueued hfull fun e he _ _ => (B.step run).keeps_entry he (by simp) (by simp) ?_
    exact fun _ _ _ hr => by cases hr

/-- Every run that heeds the results stays truthful. -/
theorem truthful_run {ctx : B.Ctx} {dev : B.Dev}
    (run : StepRun (Guarded (TasksStep env cfg) Heeds) (.start ctx dev) labels s)
    (hu : ((B.metas ctx).map (·.id) ++ acceptedIds (storageCalls labels)).Nodup)
    (hoffer : UniquelyOffered ((B.metas ctx).map (·.id)) (storageCalls labels)) :
    s.Truthful ((B.metas ctx).map (·.id)) labels := by
  induction run with
  | nil =>
    refine ⟨⟨?_, fun id reply hm => absurd hm List.not_mem_nil⟩, fun p event id hx => ?_,
      fun event id hx => ?_, fun op events hw => by cases hw⟩
    · exact (List.sublist_append_left _ _).subperm
    · exact absurd hx List.not_mem_nil
    · exact absurd hx List.not_mem_nil
  | snoc run last ih =>
    rw [storageCalls_snoc] at hu hoffer
    have hearlier := hu
    rw [acceptedIds_append, ← List.append_assoc] at hearlier
    have hbefore := hearlier.sublist (List.sublist_append_left _ _)
    exact (ih hbefore (uniquelyOffered_append.mp hoffer).1).step last.1 last.2 hbefore hoffer

/-- The event a step fires. -/
def TasksLabel.fires? : TasksLabel → Option (EdgesyncEvent × UInt64)
  | .publisherFires _ event id => some (event, id)
  | .workerFires event id => some (event, id)
  | _ => none

theorem Tasks.Truthful.fired {event : EdgesyncEvent} {id : UInt64} (h : s.Truthful known labels)
    (step : TasksStep env cfg s label s') (hfires : label.fires? = some (event, id)) :
    event.TrueOf (storageCalls labels) (lastSettled labels) (B.metas s.ctx) id := by
  cases step with
  | @publisherFires p event' id' events wakes fires =>
    cases hfires
    refine (h.publishers p event id ?_).2
    rw [fires]
    exact List.mem_cons_self
  | @workerFires event' id' events fires =>
    cases hfires
    refine (h.worker event id ?_).2.2
    rw [fires]
    exact List.mem_cons_self
  | _ => cases hfires

end Tasks

/-! ## After a restart -/

/-- A restart that makes of the entries the settled ones keeps what was said. -/
theorem EdgesyncEvent.TrueOf.restart {calls : List StorageCall} {last : Option StorageOp}
    {q q' : List EntryMeta} {id : UInt64} {event : EdgesyncEvent} (h : event.TrueOf calls last q id)
    (hperm : q'.Perm (q.map EntryMeta.settle)) : event.TrueOf calls last q' id := by
  have hids : (q'.map (·.id)).Perm (q.map (·.id)) := by
    refine (hperm.map _).trans (.of_eq ?_)
    rw [List.map_map]
    rfl
  have hkeep : ∀ e ∈ q, e.state ≠ FlashqState.inFlight.code → e ∈ q' := by
    intro e he hstate
    rw [hperm.mem_iff, ← EntryMeta.settle_of_ne hstate]
    exact List.mem_map_of_mem he
  cases event with
  | queued => exact ⟨h.1, h.2.imp_left hids.mem_iff.mpr⟩
  | queueFull => exact ⟨fun hm => h.1 (hids.mem_iff.mp hm), h.2⟩
  | retry =>
    obtain ⟨next, err, hlast, e, he, hid, hstate, hnext⟩ := h
    exact ⟨next, err, hlast, e, hkeep e he (by rw [hstate]; decide), hid, hstate, hnext⟩
  | deadLetter =>
    obtain ⟨e, he, hid, hstate⟩ := h
    exact ⟨e, hkeep e he (by rw [hstate]; decide), hid, hstate⟩
  | delivered => trivial
  | failed => trivial

/-- A flash queue that is restarted without faults finds its entries settled. -/
theorem flashq_restarted {cfg : FlashqConfig} {labels : List FlashqStepLabel} {ctx ctx' : FlashqCtx}
    {m m' : Memory} (run : FlashqRun cfg quietWorld (.off erasedFlash) labels (.on ctx m))
    (hu : (publishedIds labels).Nodup) (hfit : AllFit cfg labels)
    (boot : FlashqStep cfg quietWorld (.off m) .booted (.on ctx' m')) :
    ctx'.metas = ctx.metas.map EntryMeta.settle := by
  obtain ⟨recs, htr⟩ := tracked_live run hu hfit
  cases boot with
  | boot hrun =>
    have himage : Image (quiet cfg) m fun q' => KnownIds labels (ctx.core.queue cfg m) ∧
        q' = ctx.core.queue cfg m := by
      refine htr.base.image ?_
      rw [htr.queue_eq]
      exact ⟨htr.ids, rfl⟩
    obtain ⟨hqueue, _⟩ := wp_sound hrun (wp_opRecover_settled himage)
    have hmetas : ∀ (c : FlashqCtx) (m : Memory), metas (c.core.queue cfg m) = c.metas :=
      fun c m => metas_contents _ _
    rw [← hmetas ctx' m', hqueue, ← hmetas ctx m, metas, metas, List.map_map, List.map_map]
    rfl

/-- So does a store. -/
theorem nvs_restarted {cfg : NvsConfig} {usage : BlobStore → UInt32 × UInt32}
    {labels : List FlashqStepLabel} {ctx ctx' : NvsCtx} {s s' : BlobStore}
    (hmax : cfg.maxMessages.toNat ≤ 100000)
    (run : StorageRun (nvsBackend usage cfg) (nvsWorld usage cfg quietStore) (.off emptyStore) labels
      (.on ctx s)) (hlen : ∀ op ∈ callsOf labels, op.Counted)
    (boot : StorageStep (nvsBackend usage cfg) (nvsWorld usage cfg quietStore) (.off s) .booted
      (.on ctx' s')) : ctx'.metas.Perm (ctx.metas.map EntryMeta.settle) := by
  obtain ⟨b, honly⟩ := NvsSound.run hmax run hlen
  cases boot with
  | boot picked hrun =>
    cases picked
    obtain ⟨_, _, hqueue, _⟩ := nvs_recovered quietStore_no_fail (b.recorded honly) (b.inSlots honly)
      (distinctKeys hmax s) hrun
    have hperm := (b.perm_storedQueue honly (distinctKeys hmax s)).map
      (fun x => x.toEntryMeta.settle)
    rw [← metas_nvsQueue ctx' s', hqueue, ← metas_nvsQueue ctx s, metas, metas, List.map_map,
      List.map_map]
    refine (List.Perm.of_eq ?_).trans hperm
    exact List.map_congr_left fun x _ => x.restarted_toEntryMeta

/-- What was accepted was published. -/
theorem acceptedIds_sublist (calls : List StorageCall) :
    (acceptedIds calls).Sublist (publishedIds (calls.map StorageCall.label)) := by
  induction calls with
  | nil => exact .slnil
  | cons call calls ih =>
    obtain ⟨op, res⟩ := call
    have hcons : publishedIds (((op, res) :: calls).map StorageCall.label) =
        ((StorageCall.label (op, res)).publishedId?).toList ++
          publishedIds (calls.map StorageCall.label) := by
      rw [publishedIds, List.map_cons, List.filterMap_cons]
      cases (StorageCall.label (op, res)).publishedId? <;> rfl
    rw [hcons]
    cases op with
    | enqueue message =>
      cases res with
      | ok reply => exact ih.cons_cons _
      | error err => exact ih.trans (List.sublist_append_right _ _)
    | _ => exact ih.trans (List.sublist_append_right _ _)

/-- The ids of the index and those accepted afterwards differ. -/
theorem nodup_known {cfg : FlashqConfig} {before : List FlashqStepLabel} {ctx : FlashqCtx}
    {m : Memory} {calls : List StorageCall}
    (run : FlashqRun cfg quietWorld (.off erasedFlash) before (.on ctx m))
    (hu : (publishedIds (before ++ calls.map (·.label))).Nodup) (hfit : AllFit cfg before) :
    (ctx.metas.map (·.id) ++ acceptedIds calls).Nodup := by
  rw [publishedIds, List.filterMap_append, ← publishedIds, ← publishedIds, List.nodup_append] at hu
  obtain ⟨hbefore, hcalls, hapart⟩ := hu
  obtain ⟨recs, htr⟩ := tracked_live run hbefore hfit
  have hids : messageIds (ctx.core.queue cfg m) = ctx.metas.map (·.id) := by
    rw [messageIds_queue, FlashqCtx.metas, List.map_map]
    rfl
  have hknown := htr.ids
  rw [List.nodup_append, ← hids]
  refine ⟨hknown.nodup, (acceptedIds_sublist calls).nodup hcalls, fun a ha b hb => ?_⟩
  exact hapart a (hknown.published a ha) b ((acceptedIds_sublist calls).subset hb)

/-- Where the results are heeded, an event is true of the index when it is fired,
whatever the storage primitives report and however the tasks are scheduled.  Where the
primitives report no error, it is true of what a restart finds; and where a claim
dead-lettered an unreadable record and `nvs_erase_key` works, a restart finds nothing. -/
theorem events_true (cfg : StackConfig) (labels : List TasksLabel) (event : EdgesyncEvent)
    (id : UInt64) :
    (∀ (B : StorageBackend) (env : Env B.Call B.Dev B.Event) (ctx : B.Ctx) (dev : B.Dev)
        (s s' : Tasks B) (label : TasksLabel),
      StepRun (Guarded (TasksStep env cfg) Heeds) (.start ctx dev) labels s →
      ((B.metas ctx).map (·.id) ++ acceptedIds (storageCalls labels)).Nodup →
      UniquelyOffered ((B.metas ctx).map (·.id)) (storageCalls labels) →
      TasksStep env cfg s label s' → label.fires? = some (event, id) →
      event.TrueOf (storageCalls labels) (lastSettled labels) (B.metas s.ctx) id) ∧
    (∀ (fcfg : FlashqConfig) (before : List FlashqStepLabel) (ctx ctx' : FlashqCtx) (m m' : Memory)
        (s s' : Tasks (flashqBackend fcfg)) (label : TasksLabel),
      FlashqRun fcfg quietWorld (.off erasedFlash) before (.on ctx m) →
      StepRun (Guarded (TasksStep calmEnv cfg) Heeds) (.start ctx m) labels s →
      (publishedIds (before ++ (storageCalls labels).map (·.label))).Nodup →
      UniquelyOffered (ctx.metas.map (·.id)) (storageCalls labels) →
      AllFit fcfg (before ++ (storageCalls labels).map (·.label)) →
      TasksStep calmEnv cfg s label s' → label.fires? = some (event, id) →
      FlashqStep fcfg quietWorld (.off s.dev) .booted (.on ctx' m') →
      event.TrueOf (storageCalls labels) (lastSettled labels) ctx'.metas id) ∧
    (∀ (ncfg : NvsConfig) (usage : BlobStore → UInt32 × UInt32) (before : List FlashqStepLabel)
        (ctx ctx' : NvsCtx) (m m' : BlobStore) (s s' : Tasks (nvsBackend usage ncfg))
        (label : TasksLabel), ncfg.maxMessages.toNat ≤ 100000 →
      StorageRun (nvsBackend usage ncfg) (nvsWorld usage ncfg quietStore) (.off emptyStore) before
        (.on ctx m) →
      StepRun (Guarded (TasksStep quietStore cfg) Heeds) (.start ctx m) labels s →
      (ctx.metas.map (·.id) ++ acceptedIds (storageCalls labels)).Nodup →
      UniquelyOffered (ctx.metas.map (·.id)) (storageCalls labels) →
      (∀ op ∈ callsOf (before ++ (storageCalls labels).map (·.label)), op.Counted) →
      TasksStep quietStore cfg s label s' → label.fires? = some (event, id) →
      StorageStep (nvsBackend usage ncfg) (nvsWorld usage ncfg quietStore) (.off s.dev) .booted
        (.on ctx' m') →
      event.TrueOf (storageCalls labels) (lastSettled labels) ctx'.metas id) ∧
    ∀ (ncfg : NvsConfig) (usage : BlobStore → UInt32 × UInt32)
        (env : Env BlobCall BlobStore BlobEvent) (ctx ctx' : NvsCtx) (m m' : BlobStore)
        (nowUs : Int64),
      Runs (blobDevice usage) env (nvsOpClaimNext ncfg nowUs) ctx m (.ok (.corrupt id) ctx' m') →
      (∀ m k, ¬ env m (.erase k) .fail) →
      ∃ e ∈ ctx'.index, e.id = id ∧ e.state = FlashqState.deadLetter.code ∧
        m' (slotKey e.slot) = none := by
  refine ⟨?_, ?_, ?_, ?_⟩
  · intro B env ctx dev s s' label run hu hoffer step hfires
    exact (truthful_run run hu hoffer).fired step hfires
  · intro fcfg before ctx ctx' m m' s s' label start run hu hoffer hfit step hfires boot
    have hrun : FlashqRun fcfg quietWorld (.on ctx m) _ (.on s.ctx s.dev) :=
      (tasks_storageRun (W := quietWorld.storage fcfg) run.unguarded).flashq
    have htrue := (truthful_run run ?_ hoffer).fired step hfires
    · refine htrue.restart (.of_eq ?_)
      exact flashq_restarted (start.append hrun) hu hfit boot
    · refine nodup_known start hu fun op hop => hfit op ?_
      rw [callsOf, List.filterMap_append]
      exact List.mem_append_left _ hop
  · intro ncfg usage before ctx ctx' m m' s s' label hmax start run hu hoffer hlen step hfires boot
    have hrun := tasks_storageRun (W := nvsWorld usage ncfg quietStore) run.unguarded
    refine ((truthful_run run hu hoffer).fired step hfires).restart ?_
    exact nvs_restarted hmax (start.append hrun) hlen boot
  · intro ncfg usage env ctx ctx' m m' nowUs run hno
    exact corrupt_discarded run hno

/-! ## A dead letter that is attempted again -/

/-- Every call may fail. -/
def anyStore : Env BlobCall BlobStore BlobEvent := fun _ _ _ => True

/-- Three attempts, and no message is dropped. -/
def rejectingStack : StackConfig := ⟨.rejectNew, ⟨100, 1000, 2, false, 3⟩⟩

/-- The message is published, and its delivery fails for good; `evs` are the events of the
storage calls that record it. -/
def deadLetterScript (evs : List BlobEvent) : List (TasksAction × List (List BlobEvent)) :=
  [(.publish 0 slotMessage, []), (.claim 10, []), (.deliver .permanentFailure 20 0, []),
    (.settle, [evs]), (.workerFires, [])]

/-- The DEAD_LETTER event is due, and a restart finds the message pending. -/
def untrueShows : List TasksLabel × Tasks (nvsBackend noUsage slotConfig) → Bool
  | (labels, s) => decide (s.worker = .firing [(.deadLetter, 7)] ∧
      acceptedIds (storageCalls labels) = [7]) &&
    match nvsAct slotConfig (.off s.dev) .boot [] with
    | some (.booted, .on ctx' _) => decide ((NvsCtx.metas ctx').map (fun e => (e.id, e.state)) =
        [(7, FlashqState.pending.code)] ∧ ∀ e ∈ NvsCtx.metas ctx', e.eligible 30 = true)
    | _ => false

/-- `nvs_set_blob` fails when the dead letter is to be recorded.  The event is fired all
the same, and after a restart the message is pending. -/
theorem events_untrue : ∃ (labels : List TasksLabel) (s s' : Tasks (nvsBackend noUsage slotConfig))
    (ctx' : NvsCtx) (m' : BlobStore),
    StepRun (TasksStep anyStore rejectingStack) (.start (NvsCtx.fresh slotConfig) emptyStore) labels s ∧
    (acceptedIds (storageCalls labels)).Nodup ∧
    TasksStep anyStore rejectingStack s (.workerFires .deadLetter 7) s' ∧
    StorageStep (nvsBackend noUsage slotConfig) (nvsWorld noUsage slotConfig quietStore) (.off s.dev)
      .booted (.on ctx' m') ∧
    ¬ EdgesyncEvent.deadLetter.TrueOf (storageCalls labels) (lastSettled labels) ctx'.metas 7 ∧
    ∃ e ∈ ctx'.metas, e.id = 7 ∧ e.eligible 30 := by
  have hcheck : ((Tasks.start (NvsCtx.fresh slotConfig) emptyStore :
      Tasks (nvsBackend noUsage slotConfig)).play rejectingStack (deadLetterScript [.run, .run, .fail])
      []).any untrueShows = true := by decide +kernel
  obtain ⟨labels, s, run, hshows⟩ := Tasks.play_passes anyStore (fun _ _ => trivial)
    (fun _ _ _ _ _ _ _ _ => trivial) hcheck
  obtain ⟨hdue, hboot⟩ := Bool.and_eq_true_iff.mp hshows
  obtain ⟨hworker, hacc⟩ := of_decide_eq_true hdue
  split at hboot
  case h_2 => cases hboot
  rename_i ctx' m' hact
  obtain ⟨hmetas, hready⟩ := of_decide_eq_true hboot
  refine ⟨labels, s, _, ctx', m', run, by rw [hacc]; decide, .workerFires hworker,
    nvsAct_step (fun _ _ => rfl) (by simp) hact, ?_, ?_⟩
  · rintro ⟨e, he, hid, hstate⟩
    have hmem : (e.id, e.state) ∈ (NvsCtx.metas ctx').map (fun e => (e.id, e.state)) :=
      List.mem_map_of_mem he
    rw [hmetas, List.mem_singleton, Prod.mk.injEq] at hmem
    rw [hmem.2] at hstate
    exact absurd hstate (by decide)
  · have hmem : (7, FlashqState.pending.code) ∈ (NvsCtx.metas ctx').map (fun e => (e.id, e.state)) := by
      rw [hmetas]
      exact List.mem_singleton_self _
    obtain ⟨e, he, heq⟩ := List.mem_map.mp hmem
    exact ⟨e, he, congrArg Prod.fst heq, hready e he⟩

/-- A step that drops and refuses nothing, and settles well. -/
def TasksLabel.harmless : TasksLabel → Bool
  | .publish _ message calls report => calls.all (fun call => !(call.1 matches .remove _)) &&
      (report.events message).all fun x => decide (x.1 ≠ .queueFull)
  | .settle _ res => res.isOk
  | _ => true

/-- A harmless step heeds the results where no refusal is still to be announced. -/
theorem heeds_of_harmless {B : StorageBackend} {label : TasksLabel} {s : Tasks B}
    (h : label.harmless = true)
    (hnone : ∀ p id, (EdgesyncEvent.queueFull, id) ∉ (s.publishers p).events) : Heeds s label := by
  cases label with
  | publish p message calls report =>
    obtain ⟨hcalls, -⟩ := Bool.and_eq_true_iff.mp h
    refine ⟨fun id res hmem => ?_, fun _ p => hnone p _⟩
    exact absurd (List.all_eq_true.mp hcalls _ hmem) (by simp)
  | settle op res =>
    cases op with
    | scheduleRetry id next deadLetter err =>
      cases res with
      | ok reply => exact ⟨reply, rfl⟩
      | error err => cases h
    | _ => trivial
  | _ => trivial

/-- A run of harmless steps heeds the results. -/
theorem heeds_run {B : StorageBackend} {env : Env B.Call B.Dev B.Event} {cfg : StackConfig}
    {ctx : B.Ctx} {dev : B.Dev} {labels : List TasksLabel} {s : Tasks B}
    (run : StepRun (TasksStep env cfg) (.start ctx dev) labels s)
    (h : ∀ label ∈ labels, label.harmless = true) :
    StepRun (Guarded (TasksStep env cfg) Heeds) (.start ctx dev) labels s ∧
      ∀ p id, (EdgesyncEvent.queueFull, id) ∉ (s.publishers p).events := by
  induction run with
  | nil => exact ⟨.nil, fun p id => List.not_mem_nil⟩
  | @snoc labels s1 s2 label run last ih =>
    obtain ⟨hrun, hnone⟩ := ih fun label hl => h label (List.mem_append_left _ hl)
    have hlast : label.harmless = true := h label (List.mem_append_right _ (List.mem_singleton_self _))
    refine ⟨hrun.snoc ⟨last, heeds_of_harmless hlast hnone⟩, fun p id hx => ?_⟩
    rcases last.pending hx with hx | ⟨p', message, calls, report, rfl, hx⟩
    · exact hnone p id hx
    · obtain ⟨-, hevents⟩ := Bool.and_eq_true_iff.mp hlast
      exact absurd (List.all_eq_true.mp hevents _ hx) (by simp)

/-- Where the record is written, the event is true. -/
theorem events_true_dead : ∃ (labels : List TasksLabel) (s s' : Tasks (nvsBackend noUsage slotConfig)),
    TasksStep quietStore rejectingStack s (.workerFires .deadLetter 7) s' ∧
    EdgesyncEvent.deadLetter.TrueOf (storageCalls labels) (lastSettled labels) (NvsCtx.metas s.ctx)
      7 := by
  have hcheck : ((Tasks.start (NvsCtx.fresh slotConfig) emptyStore :
      Tasks (nvsBackend noUsage slotConfig)).play rejectingStack (deadLetterScript [])
      []).any (fun played => decide (played.2.worker = .firing [(.deadLetter, 7)] ∧
        acceptedIds (storageCalls played.1) = [7] ∧ UniquelyOffered [] (storageCalls played.1) ∧
        ∀ label ∈ played.1, label.harmless = true)) = true := by decide +kernel
  have hnone : ∀ x ∈ deadLetterScript [],
      @EventsIn (nvsBackend noUsage slotConfig) quietStore x.2 := by
    intro x hx call hcall ev hev
    simp only [deadLetterScript, List.mem_cons, List.not_mem_nil, or_false] at hx
    have hempty : call = [] := by
      rcases hx with rfl | rfl | rfl | rfl | rfl
      case inr.inr.inr.inl => exact List.mem_singleton.mp hcall
      all_goals exact absurd hcall List.not_mem_nil
    rw [hempty] at hev
    exact absurd hev List.not_mem_nil
  obtain ⟨labels, s, run, hshows⟩ := Tasks.play_passes quietStore (fun _ _ => rfl) hnone hcheck
  obtain ⟨hworker, hacc, hoffer, hharmless⟩ := of_decide_eq_true hshows
  have hdue : TasksStep quietStore rejectingStack s (.workerFires .deadLetter 7) _ :=
    .workerFires hworker
  refine ⟨labels, s, _, hdue, ?_⟩
  exact (events_true rejectingStack labels .deadLetter 7).1 _ _ _ _ _ _ _
    (heeds_run run hharmless).1 (by rw [hacc]; exact List.nodup_singleton _) hoffer hdue rfl

end EdgeSync
