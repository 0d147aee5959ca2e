/-
  Flashq/Tracked.lean --- invariants of the queue over runs without faults.

  On flash without faults a running backend and its log agree, so whatever the
  queue keeps through calls and requeues it keeps through restarts as well.
  `QueueInvariant` is what one has to show of the abstract queue, `Tracked.run`
  what follows for every run of the backend.
-/
import EdgeSync.Flashq.Reopen

set_option autoImplicit false

namespace EdgeSync

open Foundation

variable {cfg : FlashqConfig}

/-- Requeues preserve the property. -/
def KeptByRequeue (P : List FlashqStepLabel → List StoredMessage → Prop)
    (labels : List FlashqStepLabel) : Prop :=
  ∀ {q s} {pos : Nat}, KnownIds labels q → P labels q → q[pos]? = some s →
    s.state = FlashqState.inFlight.code → P labels (q.modify pos (·.change Progress.requeued))

/-- A property of the queue and of what the callers saw, that calls and requeues
preserve. -/
structure QueueInvariant (P : List FlashqStepLabel → List StoredMessage → Prop) : Prop where
  init : P [] []
  call : ∀ {labels q op res q'}, KnownIds labels q → P labels q →
    (publishedIds (labels ++ [.call op res])).Nodup → QueueStep q op res q' →
    P (labels ++ [.call op res]) q'
  requeue : ∀ {labels}, KeptByRequeue P labels
  restart : ∀ {labels q label}, label = .stopped ∨ label = .booted → P labels q →
    P (labels ++ [label]) q

/-- A restart publishes nothing. -/
theorem KnownIds.restart {labels : List FlashqStepLabel} {q : List StoredMessage}
    {label : FlashqStepLabel} (h : KnownIds labels q) : KnownIds (labels ++ [label]) q :=
  ⟨h.nodup, fun id hid => mem_published_init (h.published id hid) label⟩

theorem KnownIds.modify {labels : List FlashqStepLabel} {q : List StoredMessage} (pos : Nat)
    (f : Progress → Progress) (h : KnownIds labels q) :
    KnownIds labels (q.modify pos (·.change f)) := by
  constructor
  · rw [messageIds_modify]
    exact h.nodup
  · rw [messageIds_modify]
    exact h.published

variable (cfg) in
/-- The backend and its log agree, and the queue has the property. -/
structure TrackedOn (P : List FlashqStepLabel → List StoredMessage → Prop)
    (labels : List FlashqStepLabel) (c : Core) (m : Memory) (recs : List (Nat × RecordHdr)) :
    Prop where
  base : Base (quiet cfg) c m recs
  same : LensEq Lens.all c.index (replay cfg recs).index
  ids : KnownIds labels (c.queue cfg m)
  holds : P labels (c.queue cfg m)

/-- What a run keeps. -/
def Tracked (cfg : FlashqConfig) (P : List FlashqStepLabel → List StoredMessage → Prop)
    (labels : List FlashqStepLabel) : FlashqSystem → Prop
  | .on ctx m => ∃ recs, TrackedOn cfg P labels ctx.core m recs
  | .off m => Image (quiet cfg) m fun q => KnownIds labels q ∧ P labels q

section Steps

variable {P : List FlashqStepLabel → List StoredMessage → Prop} {labels : List FlashqStepLabel}
  {c c' : Core} {m m' : Memory} {recs recs' : List (Nat × RecordHdr)}

/-- The messages of the log are those of the index. -/
theorem TrackedOn.queue_eq (h : TrackedOn cfg P labels c m recs) :
    contents (view cfg m c.region) (replay cfg recs).index = c.queue cfg m := by
  rw [← index_eq_of_lensEq h.base.same h.same, Core.queue]

theorem TrackedOn.nodup (h : TrackedOn cfg P labels c m recs) : (c.index.map (·.id)).Nodup := by
  rw [← messageIds_queue]
  exact h.ids.nodup

theorem TrackedOn.call (inv : QueueInvariant P) {op : StorageOp} {res : Except EspErr StorageReply}
    (h : TrackedOn cfg P labels c m recs) (hu : (publishedIds (labels ++ [.call op res])).Nodup)
    (ef : Effect (quiet cfg) c m recs op res c' m' recs') :
    TrackedOn cfg P (labels ++ [.call op res]) c' m' recs' where
  base := ef.base h.base
  same := ef.lensEq h.base h.nodup h.same fun hl => hl.elim
  ids := h.ids.call hu ef.queueStep
  holds := inv.call h.ids h.holds hu ef.queueStep

/-- One requeue. -/
theorem TrackedOn.requeue (hkeep : KeptByRequeue P labels) {pos : Nat} {e : FlashqIndexEntry}
    {c1 c2 : Core} {m1 m2 : Memory} {recs1 : List (Nat × RecordHdr)}
    (h : TrackedOn cfg P labels c m recs) (he : c.index[pos]? = some e)
    (hin : e.state = FlashqState.inFlight.code)
    (mv : Moved (quiet cfg) (c.stagedAt pos 0 false e.lastError) m recs c1 m1 recs1)
    (up : Updated (quiet cfg) c1 m1 pos e.id e.progress.requeued c2 m2) :
    TrackedOn cfg P labels c2 m2 (updatedRecs c1 recs1 e.id e.progress.requeued) := by
  have hfinal := isFinal_requeued hin
  have hs : (c.queue cfg m)[pos]? = some (contentOf (view cfg m c.region) e) :=
    contents_getElem? he
  have hq : c2.queue cfg m2 = (c.queue cfg m).modify pos (·.change Progress.requeued) := by
    rw [mv.staged_queue up]
    exact modify_change_const hs Progress.requeued
  have hpos : findEntry c1.index e.id = some pos := by
    rw [mv.findEntry, findEntry_congr (stagedAt_ids c pos _ _ _)]
    exact findEntry_of_nodup h.nodup he
  have hroom := (h.base.stagedAt pos 0 false e.lastError).room
  have hst := mv.staged hroom
    ((h.same.staged pos).modify fun x => x.progress.staged 0 false e.lastError)
  refine ⟨up.base mv.base hfinal, up.lensEq mv.base hpos hfinal hst, ?_, ?_⟩
  · rw [hq]
    exact h.ids.modify pos _
  · rw [hq]
    exact hkeep h.ids h.holds hs hin

theorem requeueInvariant_tracked (hkeep : KeptByRequeue P labels) :
    RequeueInvariant (quiet cfg) (TrackedOn cfg P labels) fun _ => True where
  log _ _ := trivial
  queues _ _ _ _ := updateQueues_true
  step h _ he hin mv up := h.requeue hkeep he hin mv up

/-- `op_recover` finds the queue. -/
theorem Tracked.boot (hkeep : KeptByRequeue P labels) (h : Tracked cfg P labels (.off m)) :
    wp cfg.device calmEnv (opRecover cfg)
      ⟨fun _ ctx' m' => Tracked cfg P labels (.on ctx' m'), fun _ _ _ => True, fun _ => True⟩
      (FlashqCtx.fresh cfg) m := by
  refine wp_opRecover (R := quiet cfg) (J := TrackedOn cfg P labels) h
    (requeueInvariant_tracked hkeep) (fun _ _ => trivial) ?_ ?_
    ?_ (fun _ _ _ _ _ _ _ _ _ _ _ => trivial) (fun hl => hl.elim) (fun hm => hm.elim)
    fun _ _ => trivial
  · intro c0 m0 recs0 ho hq
    exact ⟨ho.base, by rw [ho.replay_eq]; exact LensEq.refl _ _, hq.1, hq.2⟩
  · intro hnone ctx' m' hcore b
    obtain ⟨_, hids, hP⟩ := h.fresh hnone
    refine ⟨[], b, ?_, ?_, ?_⟩ <;> rw [hcore]
    · rfl
    · exact hids
    · exact hP
  · exact fun _ _ _ _ _ recs' _ _ _ hJ _ => ⟨recs', hJ⟩

/-- Settling a queue of settled messages changes nothing. -/
theorem map_settle_of_metas {q : List StoredMessage} {index : List EntryMeta}
    (h : metas q = index.map EntryMeta.settle) : q.map StoredMessage.settle = q := by
  refine (List.map_congr_left fun s hs => ?_).trans (List.map_id q)
  have hmem : s.toEntryMeta ∈ index.map EntryMeta.settle := by
    rw [← h]
    exact List.mem_map_of_mem hs
  obtain ⟨e, _, he⟩ := List.mem_map.mp hmem
  have hp : s.toEntryMeta.progress.requeued = s.toEntryMeta.progress := by
    rw [← he]
    exact e.progress.requeued_requeued
  rw [StoredMessage.settle, StoredMessage.change, hp]
  rfl

/-- `op_recover` makes of a queue the settled one. -/
theorem wp_opRecover_settled {q : List StoredMessage}
    (h : Image (quiet cfg) m fun q' => KnownIds labels q ∧ q' = q) :
    wp cfg.device calmEnv (opRecover cfg)
      ⟨fun _ (ctx' : FlashqCtx) m' => ctx'.core.queue cfg m' = q.map StoredMessage.settle ∧
          ∃ recs', Base (quiet cfg) ctx'.core m' recs' ∧
            LensEq Lens.all ctx'.core.index (replay cfg recs').index,
        fun _ _ _ => True, fun _ => True⟩ (FlashqCtx.fresh cfg) m := by
  -- on the way the queue differs from the old one in requeued messages only
  have hkeep : KeptByRequeue
      (fun _ q' => q'.map StoredMessage.settle = q.map StoredMessage.settle) labels := by
    intro q' s pos _ hq' hs _
    rw [← hq']
    exact map_modify_of_eq fun x hx => x.settle_settle
  refine wp_opRecover (R := quiet cfg)
    (J := TrackedOn cfg (fun _ q' => q'.map StoredMessage.settle = q.map StoredMessage.settle)
      labels) h (requeueInvariant_tracked hkeep) (fun _ _ => trivial) ?_ ?_ ?_
    (fun _ _ _ _ _ _ _ _ _ _ _ => trivial) (fun hl => hl.elim) (fun hm => hm.elim)
    fun _ _ => trivial
  · rintro c0 m0 recs0 ho ⟨hids, rfl⟩
    exact ⟨ho.base, by rw [ho.replay_eq]; exact LensEq.refl _ _, hids, rfl⟩
  · intro hnone ctx' m' hcore b
    obtain ⟨_, _, rfl⟩ := h.fresh hnone
    refine ⟨?_, [], b, ?_⟩ <;> rw [hcore] <;> rfl
  · rintro c0 m0 recs0 ctx' m' recs' ho ⟨_, _⟩ b hJ hmetas
    refine ⟨?_, recs', b, hJ.same⟩
    rw [← hJ.holds]
    have hsettled : metas (ctx'.core.queue cfg m') =
        (c0.index.map (·.toEntryMeta)).map EntryMeta.settle := by
      rw [Core.queue, metas_contents]
      exact hmetas
    exact (map_settle_of_metas hsettled).symm

end Steps

/-- No restart fails. -/
def BootsReturn (labels : List FlashqStepLabel) : Prop := ∀ err, .bootFailed err ∉ labels

theorem BootsReturn.init {labels : List FlashqStepLabel} {label : FlashqStepLabel}
    (h : BootsReturn (labels ++ [label])) : BootsReturn labels :=
  fun err hm => h err (List.mem_append_left _ hm)

/-- One step without faults. -/
theorem Tracked.step {P : List FlashqStepLabel → List StoredMessage → Prop}
    {labels : List FlashqStepLabel} {label : FlashqStepLabel} {s s' : FlashqSystem}
    (inv : QueueInvariant P) (h : Tracked cfg P labels s)
    (step : FlashqStep cfg quietWorld s label s')
    (hu : (publishedIds (labels ++ [label])).Nodup)
    (hfit : ∀ op, label.op? = some op → op.Fits cfg.maxMessageSize)
    (hboots : ∀ err, label ≠ .bootFailed err) : Tracked cfg P (labels ++ [label]) s' := by
  have hcall : ∀ {ctx : FlashqCtx} {m : Memory} {op : StorageOp}
      {res : Except EspErr StorageReply} {s' : FlashqSystem}, Tracked cfg P labels (.on ctx m) →
      (publishedIds (labels ++ [.call op res])).Nodup → op.Fits cfg.maxMessageSize →
      FlashqStep cfg quietWorld (.on ctx m) (.call op res) s' →
      Tracked cfg P (labels ++ [.call op res]) s' := by
    intro ctx m op res s' ⟨recs, htr⟩ hu hfit step
    obtain ⟨ctx', m', recs', rfl, ef⟩ := quiet_effect htr.base hfit step
    exact ⟨recs', htr.call inv hu ef⟩
  have hstep := step
  cases step with
  | returned run => exact hcall h hu (hfit _ rfl) hstep
  | failed run => exact hcall h hu (hfit _ rfl) hstep
  | cut run => exact absurd hstep quiet_not_callCut
  | stop =>
    obtain ⟨recs, htr⟩ := h
    refine htr.base.image ?_
    rw [htr.queue_eq]
    exact ⟨htr.ids.restart, inv.restart (.inl rfl) htr.holds⟩
  | boot run =>
    obtain ⟨recs, htr⟩ := wp_sound run (h.boot inv.requeue)
    exact ⟨recs, htr.base, htr.same, htr.ids.restart, inv.restart (.inr rfl) htr.holds⟩
  | bootFail run => exact absurd rfl (hboots _)
  | bootCut run => exact absurd hstep quiet_not_bootCut

/-- Every run without faults keeps the property. -/
theorem Tracked.run {P : List FlashqStepLabel → List StoredMessage → Prop}
    {labels : List FlashqStepLabel} {s : FlashqSystem} (inv : QueueInvariant P)
    (run : FlashqRun cfg quietWorld (.off erasedFlash) labels s) (hu : (publishedIds labels).Nodup)
    (hfit : AllFit cfg labels) (hboots : BootsReturn labels) : Tracked cfg P labels s := by
  induction run with
  | nil => exact image_erased ⟨⟨List.nodup_nil, fun _ h => absurd h List.not_mem_nil⟩, inv.init⟩
  | snoc run step ih =>
    exact (ih (unique_init hu) hfit.init hboots.init).step inv step hu (fun op hop => hfit.last hop)
      fun err heq => hboots err (List.mem_append_right _ (List.mem_singleton.mpr heq.symm))

end EdgeSync
