/-
  Stack/Message.lean --- a queue as the product of its messages.

  Seen from one id, a queue that loses nothing is a small object: the message is new,
  then queued, then gone, and never comes back.  Calls about other messages pass it by.
-/
import EdgeSync.Atomic
import EdgeSync.Stack.Events

set_option autoImplicit false

namespace EdgeSync

open Foundation

/-! ## Objects that show less -/

/-- What the device holds is looked at through `f`. -/
def Powered.map {Q Q' : Type} (f : Q → Q') : Powered Q → Powered Q'
  | .off q => .off (f q)
  | .on q => .on (f q)

/-- Whatever one object does the other does, seen through `f`. -/
structure AtomicObject.Shows {Q Q' : Type} (O : AtomicObject Q) (f : Q → Q')
    (O' : AtomicObject Q') : Prop where
  call : ∀ {q op res q'}, O.call q op res q' → O'.call (f q) op res (f q')
  kept : ∀ {q q'}, O.kept q q' → O'.kept (f q) (f q')
  restart : ∀ {q q'}, O.restart q q' → O'.restart (f q) (f q')

theorem AtomicStep.shows {Q Q' : Type} {O : AtomicObject Q} {O' : AtomicObject Q'} {f : Q → Q'}
    (h : O.Shows f O') {p p' : Powered Q} {label : FlashqStepLabel} (step : AtomicStep O p label p') :
    AtomicStep O' (p.map f) label (p'.map f) := by
  cases step with
  | call call => exact .call (h.call call)
  | undone kept => exact .undone (h.kept kept)
  | done call kept => exact .done (h.call call) (h.kept kept)
  | stopped kept => exact .stopped (h.kept kept)
  | booted restart => exact .booted (h.restart restart)
  | bootFailed kept => exact .bootFailed (h.kept kept)
  | bootCut kept => exact .bootCut (h.kept kept)

/-! ## The table of entries -/

/-- What of an entry outlives the power. -/
def EntryMeta.durable (e : EntryMeta) : EntryMeta := e.withProgress e.progress.durable

theorem EntryMeta.durable_settle (e : EntryMeta) : e.settle.durable = e.durable := by
  show e.withProgress e.progress.requeued.durable = _
  rw [Progress.requeued_durable]
  rfl

/-- The entries of a queue that loses nothing; a restart may find them in another order. -/
def entryTable : AtomicObject (List EntryMeta) where
  call q op res q' := ∃ capacity, CallStep false capacity q op res q'
  kept q q' := (q'.map EntryMeta.durable).Perm (q.map EntryMeta.durable)
  restart q q' := q'.Perm (q.map EntryMeta.settle)

section Entries

variable (q : List StoredMessage)

theorem entries_modify {f : StoredMessage → StoredMessage} {g : Progress → Progress} (pos : Nat)
    (h : ∀ s, (f s).toEntryMeta = s.toEntryMeta.change g) :
    metas (q.modify pos f) = (metas q).modify pos (·.change g) := modify_map h q pos

theorem entries_swapRemove (pos : Nat) : metas (swapRemove q pos) = swapRemove (metas q) pos :=
  map_swapRemove _ _ _

theorem entries_append (message : EdgesyncMessage) :
    metas (q ++ [StoredMessage.ofMessage message]) = metas q ++ [message.entry] := List.map_append

variable {q}

theorem entries_getElem? {pos : Nat} {s : StoredMessage} (h : q[pos]? = some s) :
    (metas q)[pos]? = some s.toEntryMeta := by
  rw [metas, List.getElem?_map, h]
  rfl

theorem entries_find {id : UInt64} {pos : Nat} (h : findMessage q id = some pos) :
    findMeta (metas q) id = some pos :=
  (findPos_map _ (fun e : EntryMeta => e.id == id) q).trans h

end Entries

/-- The entries of the message queue. -/
theorem messageQueue_entries : messageQueue.Shows metas entryTable where
  call {q op res q'} step := by
    refine ⟨q.length + 1, ?_⟩
    cases step with
    | refused => exact .refused
    | staged found =>
      rw [entries_modify q _ fun _ => rfl]
      exact .retryLost (entries_find found)
    | candidate selected entry => exact .candidate selected (entries_getElem? entry)
    | stats => exact .stats
    | enqueued =>
      rw [entries_append]
      refine .enqueued ?_
      rw [metas, List.length_map]
      exact Nat.lt_succ_self _
    | claimed selected entry =>
      rw [entries_modify q _ fun _ => rfl]
      exact .claimed selected (entries_getElem? entry) ⟨rfl, rfl, rfl, rfl, rfl, rfl, rfl, rfl, rfl⟩
    | retired retires found =>
      rw [entries_swapRemove]
      exact .retired retires (entries_find found)
    | retried found =>
      rw [entries_modify q _ fun _ => rfl]
      exact .retried (entries_find found)
  kept {q q'} h := by
    have hmap := congrArg (List.map StoredMessage.toEntryMeta) h
    rw [List.map_map, List.map_map] at hmap
    refine List.Perm.of_eq ?_
    rw [metas, metas, List.map_map, List.map_map]
    exact hmap
  restart {q q'} h := by
    refine List.Perm.of_eq ?_
    rw [h, metas, metas, List.map_map, List.map_map]
    rfl

/-! ## One message -/

/-- What becomes of a message. -/
inductive Life where
  | new
  | queued (e : EntryMeta)
  | gone
  deriving DecidableEq

namespace Life

/-- Change the entry. -/
def map (f : EntryMeta → EntryMeta) : Life → Life
  | queued e => queued (f e)
  | l => l

/-- The life of the message `id` in a table. -/
def In (id : UInt64) (q : List EntryMeta) : Life → Prop
  | queued e => e ∈ q ∧ e.id = id
  | _ => id ∉ q.map (·.id)

end Life

/-- The message that a call which returned is about. -/
def StorageOp.subject? : StorageOp → Except EspErr StorageReply → Option UInt64
  | .enqueue message, .ok _ => some message.id
  | .claimNext _, .ok (.claim (.claimed c)) => some c.id
  | .claimNext _, .ok (.claim (.corrupt id)) => some id
  | .markDelivered id, .ok _ => some id
  | .remove id, .ok _ => some id
  | .scheduleRetry id _ _ _, .ok _ => some id
  | .findDropCandidate _, .ok (.candidate id) => some id
  | _, _ => none

/-- What a call may do to the message `id`. -/
inductive MessageStep (id : UInt64) :
    Life → StorageOp → Except EspErr StorageReply → Life → Prop where
  | aside {l : Life} {op : StorageOp} {res : Except EspErr StorageReply}
      (other : op.subject? res ≠ some id) : MessageStep id l op res l
  | accepted {message : EdgesyncMessage} (same : message.id = id) :
      MessageStep id .new (.enqueue message) (.ok .done) (.queued message.entry)
  | claimed {nowUs : Int64} {e : EntryMeta} {claimed : ClaimedMessage}
      (eligible : e.eligible nowUs = true) (shows : claimed.Shows e nowUs) :
      MessageStep id (.queued e) (.claimNext nowUs) (.ok (.claim (.claimed claimed)))
        (.queued (e.change (Progress.claimed nowUs)))
  | corrupt {nowUs : Int64} {e : EntryMeta} (eligible : e.eligible nowUs = true) :
      MessageStep id (.queued e) (.claimNext nowUs) (.ok (.claim (.corrupt id)))
        (.queued (e.change Progress.corrupted))
  | marked {nowUs : Int64} {e : EntryMeta} {err : EspErr} (eligible : e.eligible nowUs = true) :
      MessageStep id (.queued e) (.claimNext nowUs) (.error err)
        (.queued (e.change Progress.marked))
  | retired {op : StorageOp} {newState : FlashqState} {e : EntryMeta}
      (retires : Retires op id newState) : MessageStep id (.queued e) op (.ok .done) .gone
  | retried {e : EntryMeta} {nextRetryTimeUs : Int64} {deadLetter : Bool} {lastError : Int32} :
      MessageStep id (.queued e) (.scheduleRetry id nextRetryTimeUs deadLetter lastError) (.ok .done)
        (.queued (e.change (Progress.retried nextRetryTimeUs deadLetter lastError)))
  | staged {e : EntryMeta} {nextRetryTimeUs : Int64} {deadLetter : Bool} {lastError : Int32}
      {err : EspErr} :
      MessageStep id (.queued e) (.scheduleRetry id nextRetryTimeUs deadLetter lastError) (.error err)
        (.queued (e.change (Progress.staged nextRetryTimeUs deadLetter lastError)))
  | candidate {policy : OverflowPolicy} {e : EntryMeta}
      (pending : e.state = FlashqState.pending.code) :
      MessageStep id (.queued e) (.findDropCandidate policy) (.ok (.candidate id)) (.queued e)

/-- The message `id` of a queue that loses nothing. -/
def messageObject (id : UInt64) : AtomicObject Life where
  call := MessageStep id
  kept l l' := l'.map EntryMeta.durable = l.map EntryMeta.durable
  restart l l' := l' = l.map EntryMeta.settle

section Table

variable {id : UInt64} {q q' : List EntryMeta} {l : Life} {capacity : Nat} {op : StorageOp}
  {res : Except EspErr StorageReply}

theorem Life.In.ids_congr (h : Life.In id q l) (hmem : ∀ e, e.id = id → (e ∈ q' ↔ e ∈ q)) :
    Life.In id q' l := by
  have hnot : id ∉ q.map (·.id) → id ∉ q'.map (·.id) := by
    intro hid hmap
    obtain ⟨e, he, heq⟩ := List.mem_map.mp hmap
    exact hid (List.mem_map.mpr ⟨e, (hmem e heq).mp he, heq⟩)
  cases l with
  | new => exact hnot h
  | gone => exact hnot h
  | queued e => exact ⟨(hmem e h.2).mpr h.1, h.2⟩

/-- An entry of the table is the message with its id. -/
theorem Life.In.eq_queued (h : Life.In id q l) (hu : (q.map (·.id)).Nodup) {x : EntryMeta}
    (hx : x ∈ q) (hid : x.id = id) : l = .queued x := by
  cases l with
  | new => exact absurd (List.mem_map.mpr ⟨x, hx, hid⟩) h
  | gone => exact absurd (List.mem_map.mpr ⟨x, hx, hid⟩) h
  | queued e => rw [List.inj_on_of_nodup_map hu h.1 hx (h.2.trans hid.symm)]

/-- An entry of the table that changes, or another. -/
theorem Life.In.modify (h : Life.In id q l) (hu : (q.map (·.id)).Nodup) {pos : Nat} {x : EntryMeta}
    (hx : q[pos]? = some x) (f : Progress → Progress) :
    (x.id ≠ id ∧ Life.In id (q.modify pos (·.change f)) l) ∨
    (x.id = id ∧ l = .queued x ∧ Life.In id (q.modify pos (·.change f)) (.queued (x.change f))) := by
  have hfound : findPos (fun e : EntryMeta => e.id == x.id) q = some pos := findPos_of_nodup hu hx
  have hmem := fun e => @mem_modify_of_found _ _ _ EntryMeta.id q x.id pos (·.change f) hu hfound e
  by_cases hid : x.id = id
  · exact .inr ⟨hid, h.eq_queued hu (List.mem_of_getElem? hx) hid,
      (hmem _).mpr (.inr ⟨x, List.mem_of_getElem? hx, rfl, rfl⟩), hid⟩
  · refine .inl ⟨hid, h.ids_congr fun e he => ?_⟩
    rw [hmem e]
    constructor
    · rintro (⟨hin, _⟩ | ⟨a, ha, haid, rfl⟩)
      · exact hin
      · exact absurd (haid.symm.trans he) hid
    · exact fun hin => .inl ⟨hin, fun heq => hid (heq.symm.trans he)⟩

/-- A call on the table is a call on each of its messages. -/
theorem CallStep.message (step : CallStep false capacity q op res q') (hu : (q.map (·.id)).Nodup)
    (h : Life.In id q l) (hnew : ∀ message, op = .enqueue message → res = .ok .done →
      message.id = id → l = .new) :
    ∃ l', MessageStep id l op res l' ∧ Life.In id q' l' := by
  cases step with
  | @refused op err =>
    refine ⟨l, .aside ?_, h⟩
    cases op <;> exact fun hsub => by cases hsub
  | @enqueued message room =>
    by_cases hid : message.id = id
    · rw [hnew message rfl rfl hid]
      exact ⟨_, .accepted hid, List.mem_append_right _ (List.mem_singleton_self _), hid⟩
    · refine ⟨l, .aside fun hsub => hid (Option.some.inj hsub), h.ids_congr fun e he => ?_⟩
      rw [List.mem_append, List.mem_singleton]
      refine or_iff_left fun heq => hid ?_
      rw [← he, heq]
      rfl
  | @claimed nowUs pos e claimed selected entry shows =>
    rcases h.modify hu entry (Progress.claimed nowUs) with ⟨hid, hin⟩ | ⟨hid, rfl, hin⟩
    · exact ⟨l, .aside fun hsub => hid (shows.id.symm.trans (Option.some.inj hsub)), hin⟩
    · refine ⟨_, .claimed ?_ shows, hin⟩
      obtain ⟨x, hx, hok⟩ := pick_some selected
      rwa [Option.some.inj (entry.symm.trans hx)]
  | claimLost isEarly selected => exact absurd isEarly Bool.false_ne_true
  | @corrupt nowUs pos e selected entry =>
    rcases h.modify hu entry Progress.corrupted with ⟨hid, hin⟩ | ⟨hid, rfl, hin⟩
    · exact ⟨l, .aside fun hsub => hid (Option.some.inj hsub), hin⟩
    · refine ⟨_, ?_, hin⟩
      obtain ⟨x, hx, hok⟩ := pick_some selected
      obtain rfl := Option.some.inj (entry.symm.trans hx)
      rw [hid]
      exact .corrupt hok
  | @corruptLost nowUs pos err selected =>
    obtain ⟨e, entry, hok⟩ := pick_some selected
    rcases h.modify hu entry Progress.marked with ⟨hid, hin⟩ | ⟨hid, rfl, hin⟩
    · exact ⟨l, .aside (by simp [StorageOp.subject?]), hin⟩
    · exact ⟨_, .marked hok, hin⟩
  | @retired op i newState pos retires found =>
    have hmem := fun e => @mem_swapRemove_of_found _ _ _ EntryMeta.id q i pos hu found e
    by_cases hid : i = id
    · subst hid
      obtain ⟨x, hx, hxid⟩ := findPos_some found
      have hxid : x.id = i := eq_of_beq hxid
      rw [h.eq_queued hu (List.mem_of_getElem? hx) hxid]
      refine ⟨.gone, .retired retires, fun hmap => ?_⟩
      obtain ⟨e, he, heid⟩ := List.mem_map.mp hmap
      exact ((hmem e).mp he).2 heid
    · refine ⟨l, .aside fun hsub => hid ?_, h.ids_congr fun e he => ?_⟩
      · cases retires <;> exact Option.some.inj hsub
      · rw [hmem e]
        exact and_iff_left fun heq => hid (heq.symm.trans he)
  | @retried i nextRetryTimeUs deadLetter lastError pos found =>
    obtain ⟨x, hx, hxid⟩ := findPos_some found
    have hxid : x.id = i := eq_of_beq hxid
    rcases h.modify hu hx (Progress.retried nextRetryTimeUs deadLetter lastError) with
      ⟨hid, hin⟩ | ⟨hid, rfl, hin⟩
    · exact ⟨l, .aside fun hsub => hid (hxid.trans (Option.some.inj hsub)), hin⟩
    · obtain rfl : i = id := hxid.symm.trans hid
      exact ⟨_, .retried, hin⟩
  | @retryLost i nextRetryTimeUs deadLetter lastError pos err found =>
    obtain ⟨x, hx, hxid⟩ := findPos_some found
    have hxid : x.id = i := eq_of_beq hxid
    rcases h.modify hu hx (Progress.staged nextRetryTimeUs deadLetter lastError) with
      ⟨hid, hin⟩ | ⟨hid, rfl, hin⟩
    · exact ⟨l, .aside (by simp [StorageOp.subject?]), hin⟩
    · obtain rfl : i = id := hxid.symm.trans hid
      exact ⟨_, .staged, hin⟩
  | @candidate policy pos e selected entry =>
    by_cases hid : e.id = id
    · obtain ⟨x, hx, hok⟩ := pick_some selected
      obtain rfl := Option.some.inj (entry.symm.trans hx)
      obtain rfl := h.eq_queued hu (List.mem_of_getElem? entry) hid
      rw [hid]
      exact ⟨_, .candidate (eq_of_beq hok), h⟩
    · exact ⟨l, .aside fun hsub => hid (Option.some.inj hsub), h⟩
  | stats => exact ⟨l, .aside (by simp [StorageOp.subject?]), h⟩

/-- A call adds no id but the one it enqueues. -/
theorem CallStep.mem_ids (step : CallStep false capacity q op res q') {i : UInt64}
    (h : i ∈ q'.map (·.id)) : i ∈ q.map (·.id) ∨
      ∃ message, op = .enqueue message ∧ res = .ok .done ∧ message.id = i := by
  rcases step.ids with hids | ⟨message, hop, hres, hids⟩ | ⟨_, _, _, _, hperm⟩
  · exact .inl (hids ▸ h)
  · rw [hids, List.mem_append, List.mem_singleton] at h
    exact h.imp_right fun heq => ⟨message, hop, hres, heq.symm⟩
  · exact .inl (hperm.mem_iff.mpr (List.mem_cons_of_mem _ h))

/-- Ids stay unique as long as new messages have new ids. -/
theorem CallStep.nodup_ids (step : CallStep false capacity q op res q')
    (hu : (q.map (·.id)).Nodup) (hnew : ∀ message, op = .enqueue message → res = .ok .done →
      message.id ∉ q.map (·.id)) : (q'.map (·.id)).Nodup := by
  rcases step.ids with hids | ⟨message, hop, hres, hids⟩ | ⟨_, _, _, _, hperm⟩
  · rwa [hids]
  · rw [hids]
    refine hu.append (List.nodup_singleton _) fun i hi hi' => ?_
    rw [List.mem_singleton.mp hi'] at hi
    exact hnew message hop hres hi
  · exact (hperm.nodup_iff.mp hu).of_cons

/-! ## Runs -/

/-- The table and the message `id`, after `labels`. -/
structure SeenAs (id : UInt64) (labels : List FlashqStepLabel) (q : List EntryMeta) (l : Life) :
    Prop where
  unique : (q.map (·.id)).Nodup
  published : ∀ i ∈ q.map (·.id), i ∈ publishedIds labels
  inTable : Life.In id q l
  gone : l = .gone → id ∈ publishedIds labels

/-- The same of a device. -/
inductive PoweredSeenAs (id : UInt64) (labels : List FlashqStepLabel) :
    Powered (List EntryMeta) → Powered Life → Prop where
  | off {q : List EntryMeta} {l : Life} (seen : SeenAs id labels q l) :
      PoweredSeenAs id labels (.off q) (.off l)
  | on {q : List EntryMeta} {l : Life} (seen : SeenAs id labels q l) :
      PoweredSeenAs id labels (.on q) (.on l)

variable {labels : List FlashqStepLabel} {label : FlashqStepLabel}

theorem SeenAs.later (h : SeenAs id labels q l) (label : FlashqStepLabel) :
    SeenAs id (labels ++ [label]) q l :=
  ⟨h.unique, fun i hi => mem_published_init (h.published i hi) label, h.inTable,
    fun hl => mem_published_init (h.gone hl) label⟩

/-- A message that may be accepted is new. -/
theorem SeenAs.fresh (h : SeenAs id labels q l) (hid : id ∉ publishedIds labels) : l = .new := by
  cases l with
  | new => rfl
  | gone => exact absurd (h.gone rfl) hid
  | queued e =>
    obtain ⟨he, heid⟩ := h.inTable
    exact absurd (h.published id (List.mem_map.mpr ⟨e, he, heid⟩)) hid

theorem SeenAs.call (h : SeenAs id labels q l) (hu : (publishedIds (labels ++ [label])).Nodup)
    (hpub : ∀ message, op = .enqueue message → res = .ok .done →
      label.publishedId? = some message.id)
    (step : CallStep false capacity q op res q') :
    ∃ l', MessageStep id l op res l' ∧ SeenAs id (labels ++ [label]) q' l' := by
  have hfresh : ∀ message, op = .enqueue message → res = .ok .done →
      message.id ∉ publishedIds labels := fun message hop hres =>
    fresh_of_unique hu (hpub message hop hres)
  obtain ⟨l', hstep, hin⟩ := step.message h.unique h.inTable fun message hop hres hid =>
    h.fresh (hid ▸ hfresh message hop hres)
  refine ⟨l', hstep, ⟨step.nodup_ids h.unique fun message hop hres hmem =>
    hfresh message hop hres (h.published _ hmem), fun i hi => ?_, hin, fun hgone => ?_⟩⟩
  · rcases step.mem_ids hi with hi | ⟨message, hop, hres, rfl⟩
    · exact mem_published_init (h.published i hi) _
    · exact mem_published_last (hpub message hop hres)
  · subst hgone
    cases hstep with
    | aside other => exact mem_published_init (h.gone rfl) _
    | retired retires =>
      obtain ⟨he, heid⟩ := h.inTable
      exact mem_published_init (h.published id (List.mem_map.mpr ⟨_, he, heid⟩)) _

/-- Looking away from an entry what a view of it does not show. -/
theorem SeenAs.view {f g : EntryMeta → EntryMeta} (hf : ∀ e, (f e).id = e.id)
    (hg : ∀ e, (g e).id = e.id) (hq : (q'.map g).Perm (q.map f)) (h : SeenAs id labels q l) :
    ∃ l', l'.map g = l.map f ∧ SeenAs id labels q' l' := by
  have hids : (q'.map (·.id)).Perm (q.map (·.id)) := by
    have hmap := hq.map EntryMeta.id
    simpa only [List.map_map, Function.comp_def, hf, hg] using hmap
  have hnot : id ∉ q.map (·.id) → id ∉ q'.map (·.id) := fun hn hm => hn (hids.mem_iff.mp hm)
  have hseen : ∀ {l'}, Life.In id q' l' → (l' = .gone → l = .gone) → SeenAs id labels q' l' :=
    fun hin hgone => ⟨hids.nodup_iff.mpr h.unique,
      fun i hi => h.published i (hids.mem_iff.mp hi), hin, fun hl => h.gone (hgone hl)⟩
  cases l with
  | new => exact ⟨.new, rfl, hseen (hnot h.inTable) fun hl => by cases hl⟩
  | gone => exact ⟨.gone, rfl, hseen (hnot h.inTable) fun _ => rfl⟩
  | queued e =>
    obtain ⟨he, heid⟩ := h.inTable
    obtain ⟨e', he', heq⟩ := List.mem_map.mp (hq.mem_iff.mpr (List.mem_map_of_mem he))
    refine ⟨.queued e', congrArg Life.queued heq, hseen ⟨he', ?_⟩ fun hl => by cases hl⟩
    rw [← hg, heq, hf, heid]

theorem SeenAs.kept (h : SeenAs id labels q l) (kept : entryTable.kept q q') :
    ∃ l', (messageObject id).kept l l' ∧ SeenAs id labels q' l' :=
  h.view (f := EntryMeta.durable) (g := EntryMeta.durable) (fun _ => rfl) (fun _ => rfl) kept

theorem SeenAs.restart (h : SeenAs id labels q l) (restart : entryTable.restart q q') :
    ∃ l', (messageObject id).restart l l' ∧ SeenAs id labels q' l' := by
  have hperm : (q'.map fun e => e).Perm (q.map EntryMeta.settle) := by
    rw [List.map_id']
    exact restart
  obtain ⟨l', hl', seen⟩ := h.view (f := EntryMeta.settle) (g := fun e => e) (fun _ => rfl)
    (fun _ => rfl) hperm
  refine ⟨l', ?_, seen⟩
  cases l' <;> exact hl'

/-- A run of the table is a run of each of its messages. -/
theorem message_run {p : Powered (List EntryMeta)} (id : UInt64)
    (run : StepRun (AtomicStep entryTable) (.off []) labels p) (hu : (publishedIds labels).Nodup) :
    ∃ l, StepRun (AtomicStep (messageObject id)) (.off .new) labels l ∧
      PoweredSeenAs id labels p l := by
  induction run with
  | nil =>
    exact ⟨_, .nil, .off ⟨List.nodup_nil, fun _ h => absurd h List.not_mem_nil, List.not_mem_nil,
      fun h => by cases h⟩⟩
  | snoc run last ih =>
    obtain ⟨l, lrun, seen⟩ := ih (unique_init hu)
    cases last with
    | @call q q' op res call =>
      cases seen with
      | on seen =>
        obtain ⟨capacity, step⟩ := call
        obtain ⟨l', hstep, seen'⟩ := seen.call hu (fun message hop hres => by
          rw [hop, hres]
          rfl) step
        exact ⟨_, lrun.snoc (.call hstep), .on seen'⟩
    | @undone q q' op kept =>
      cases seen with
      | on seen =>
        obtain ⟨l', hkept, seen'⟩ := (seen.later _).kept kept
        exact ⟨_, lrun.snoc (.undone hkept), .off seen'⟩
    | @done q q1 q' op res call kept =>
      cases seen with
      | on seen =>
        obtain ⟨capacity, step⟩ := call
        obtain ⟨l1, hstep, seen1⟩ := seen.call hu (fun message hop hres => by
          rw [hop]
          rfl) step
        obtain ⟨l', hkept, seen'⟩ := seen1.kept kept
        exact ⟨_, lrun.snoc (.done hstep hkept), .off seen'⟩
    | stopped kept =>
      cases seen with
      | on seen =>
        obtain ⟨l', hkept, seen'⟩ := (seen.later _).kept kept
        exact ⟨_, lrun.snoc (.stopped hkept), .off seen'⟩
    | booted restart =>
      cases seen with
      | off seen =>
        obtain ⟨l', hl', seen'⟩ := (seen.later _).restart restart
        exact ⟨_, lrun.snoc (.booted hl'), .on seen'⟩
    | @bootFailed q q' err kept =>
      cases seen with
      | off seen =>
        obtain ⟨l', hkept, seen'⟩ := (seen.later _).kept kept
        exact ⟨_, lrun.snoc (.bootFailed hkept), .off seen'⟩
    | bootCut kept =>
      cases seen with
      | off seen =>
        obtain ⟨l', hkept, seen'⟩ := (seen.later _).kept kept
        exact ⟨_, lrun.snoc (.bootCut hkept), .off seen'⟩

end Table

end EdgeSync
