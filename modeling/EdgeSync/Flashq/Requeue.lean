/-
  Flashq/Requeue.lean --- the requeue loop, and the whole of `op_recover`.

  A requeue is a retry the backend schedules for itself: the fields are staged,
  space is made, and an UPDATE record is written.  What a group of results wants
  to know of the loop is an invariant `J` of its own, preserved by one turn.
-/
import EdgeSync.Flashq.Recovery

set_option autoImplicit false

namespace EdgeSync

open Foundation

variable {cfg : FlashqConfig} {R : Regime cfg}

/-- An invariant of the requeue loop, and the queues a power cut may leave. -/
structure RequeueInvariant (R : Regime cfg) (J : Core → Memory → List (Nat × RecordHdr) → Prop)
    (Q : List StoredMessage → Prop) : Prop where
  log : ∀ {c m recs}, J c m recs → Base R c m recs →
    Q (contents (view cfg m c.region) (replay cfg recs).index)
  queues : ∀ {c m recs pos e}, J c m recs → Base R c m recs → c.index[pos]? = some e →
    e.state = FlashqState.inFlight.code →
    UpdateQueues cfg Q (view cfg m c.region) recs (c.stagedAt pos 0 false e.lastError).index
      e.id e.progress.requeued
  step : ∀ {c m recs pos e c1 m1 recs1 c2 m2}, J c m recs → Base R c m recs →
    c.index[pos]? = some e → e.state = FlashqState.inFlight.code →
    Moved R (c.stagedAt pos 0 false e.lastError) m recs c1 m1 recs1 →
    Updated R c1 m1 pos e.id e.progress.requeued c2 m2 →
    J c2 m2 (updatedRecs c1 recs1 e.id e.progress.requeued)

/-- A message in flight that is requeued becomes pending. -/
theorem requeued_of_inFlight {e : EntryMeta} (h : e.state = FlashqState.inFlight.code) :
    e.progress.requeued = e.progress.retried 0 false e.lastError := if_pos h

theorem isFinal_requeued {e : EntryMeta} (h : e.state = FlashqState.inFlight.code) :
    isFinal e.progress.requeued.state = false := by
  rw [requeued_of_inFlight h]
  rfl

/-- The entry at `pos` with its fields staged for the requeue. -/
theorem stagedAt_index {c : Core} {pos : Nat} {e : FlashqIndexEntry} (he : c.index[pos]? = some e) :
    (c.stagedAt pos 0 false e.lastError).index =
      c.index.set pos (e.withProgress (e.progress.staged 0 false e.lastError)) :=
  modify_of_getElem? he

/-- The entries after one turn. -/
theorem metas_of_requeue {c c1 c2 : Core} {m m1 m2 : Memory} {recs recs1 : List (Nat × RecordHdr)}
    {pos : Nat} {e : FlashqIndexEntry} (he : c.index[pos]? = some e)
    (mv : Moved R (c.stagedAt pos 0 false e.lastError) m recs c1 m1 recs1)
    (up : Updated R c1 m1 pos e.id e.progress.requeued c2 m2) :
    c2.index.map (·.toEntryMeta) = (c.index.map (·.toEntryMeta)).set pos e.toEntryMeta.settle := by
  have hlt := (List.getElem?_eq_some_iff.mp he).1
  have he' : (c.stagedAt pos 0 false e.lastError).index[pos]? =
      some (e.withProgress (e.progress.staged 0 false e.lastError)) := by
    rw [stagedAt_index he, List.getElem?_set_self hlt]
  obtain ⟨e1, he1, hm1⟩ := mv.getElem? he'
  have hmetas := mv.metas
  rw [stagedAt_index he, List.map_set] at hmetas
  rw [up.core_eq]
  simp only
  rw [modify_of_getElem? he1, List.map_set, hmetas, List.set_set,
    FlashqIndexEntry.withProgress_toEntryMeta, hm1]
  rfl

section Programs

variable {m : Memory} {recs : List (Nat × RecordHdr)} {Q : List StoredMessage → Prop}
  {J : Core → Memory → List (Nat × RecordHdr) → Prop} {P : Post FlashqCtx Memory EspErr Unit}

/-- The bytes of an index depend on its entries only. -/
theorem liveBytes_eq_sum (es : List FlashqIndexEntry) :
    liveBytes es = ((es.map (·.toEntryMeta)).map EntryMeta.recordSize).sum := by
  rw [List.map_map]
  rfl

variable (R J) in
/-- The flash where the UPDATE of a requeue found no room. -/
def Stuck (m' : Memory) : Prop :=
  ∃ c m recs pos e c1 recs1, J c m recs ∧ Base R c m recs ∧ c.index[pos]? = some e ∧
    e.state = FlashqState.inFlight.code ∧
    Moved R (c.stagedAt pos 0 false e.lastError) m recs c1 m' recs1

/-- The requeue loop. -/
theorem wp_requeueLoop (inv : RequeueInvariant R J Q) {n i : Nat} {ctx : FlashqCtx}
    (b : Base R ctx.core m recs) (hJ : J ctx.core m recs) (hlen : i + n = ctx.index.length)
    (hok : ∀ (ctx' : FlashqCtx) m' recs', Base R ctx'.core m' recs' → J ctx'.core m' recs' →
      ctx'.index.map (·.toEntryMeta) = (ctx.index.map (·.toEntryMeta)).take i ++
        ((ctx.index.map (·.toEntryMeta)).drop i).map EntryMeta.settle → P.ok () ctx' m')
    (hfull : ctx.index ≠ [] →
      cfg.dataCapacity < liveBytes ctx.index + updateSize + updateSize →
      ∀ ctx' m', Image R m' Q → Stuck R J m' → P.error .storage ctx' m')
    (hbad : R.lossy → ∀ ctx' m', Image R m' Q → P.error .storage ctx' m')
    (herr : R.mayFail → ∀ err ctx' m', Image R m' Q → P.error err ctx' m')
    (hcut : ∀ m', Image R m' Q → P.cut m') :
    wp cfg.device R.env (requeueLoop cfg n i) P ctx m := by
  induction n generalizing i ctx m recs with
  | zero =>
    refine wp_ret.mpr (hok ctx m recs b hJ ?_)
    rw [List.take_of_length_le (by rw [List.length_map]; omega),
      List.drop_eq_nil_of_le (by rw [List.length_map]; omega), List.map_nil, List.append_nil]
  | succ n ih =>
    have hlt : i < ctx.index.length := by omega
    obtain ⟨e, he⟩ : ∃ e, ctx.index[i]? = some e := ⟨_, List.getElem?_eq_getElem hlt⟩
    have hmeta : (ctx.index.map (·.toEntryMeta))[i]? = some e.toEntryMeta := by
      rw [List.getElem?_map, he]
      rfl
    unfold requeueLoop
    simp only [Prog.bind_eq, wp_bind]
    refine wp_entryAt he ?_
    simp only [wp_ite]
    refine ⟨fun hin => ?_, fun hin => ?_⟩
    · unfold assignEntry
      simp only [wp_bind, wp_modify]
      have hbase := b.stagedAt i 0 false e.lastError
      have hidx : (ctx.index.modify i fun x => { x with nextRetryAtUs := 0 }) =
          (ctx.core.stagedAt i 0 false e.lastError).index := by
        rw [stagedAt_index (c := ctx.core) he, modify_of_getElem? he]
        rfl
      have he' : (ctx.core.stagedAt i 0 false e.lastError).index[i]? =
          some (e.withProgress (e.progress.staged 0 false e.lastError)) := by
        rw [stagedAt_index (c := ctx.core) he]
        exact List.getElem?_set_self hlt
      have hqueues := inv.queues hJ b he hin
      have hlive : liveBytes (ctx.core.stagedAt i 0 false e.lastError).index =
          liveBytes ctx.index := liveBytes_congr (map_modify_of_eq fun _ _ => rfl)
      rw [hidx]
      generalize hctx1 : FlashqCtx.mk _ _ _ _ (ctx.core.stagedAt i 0 false e.lastError).index _ _ _ _
        _ _ = ctx1
      have hcore1 : ctx1.core = ctx.core.stagedAt i 0 false e.lastError := by
        rw [← hctx1]
        rfl
      have hidx1 : ctx1.index = (ctx.core.stagedAt i 0 false e.lastError).index :=
        congrArg Core.index hcore1
      have hbase1 : Base R ctx1.core m recs := by
        rw [hcore1]
        exact hbase
      have hqueues1 : UpdateQueues cfg Q (view cfg m ctx1.activeRegion) recs ctx1.index
          e.id e.progress.requeued := by
        rw [hidx1, show ctx1.activeRegion = ctx.activeRegion from congrArg Core.region hcore1]
        exact hqueues
      refine wp_appendStateUpdateLocked (Q := Q) (p := e.progress.requeued)
        (e := e.withProgress (e.progress.staged 0 false e.lastError)) hbase1
        (by rw [hidx1]; exact he') (requeued_of_inFlight hin) hqueues1 ?_ ?_ ?_ herr hcut
      · intro ctx2 m2 recs2 ctx3 m3 mv up
        rw [hcore1] at mv
        have hmetas3 := metas_of_requeue (c := ctx.core) he mv up
        have hbase3 := up.base mv.base (isFinal_requeued hin)
        have hlen3 : ctx3.index.length = ctx.index.length := by
          have h := congrArg List.length hmetas3
          simp only [List.length_set, List.length_map] at h
          exact h
        have hlive3 : liveBytes ctx3.index = liveBytes ctx.index := by
          have h := up.keys
          have h2 : liveBytes ctx2.index = _ := mv.liveBytes_eq
          rw [← hlive, ← h2]
          exact liveBytes_congr (identities_of_keys h)
        refine ih hbase3 (inv.step hJ b he hin mv up) (by omega) ?_ ?_
        · intro ctx' m' recs' b' hJ' hmetas'
          refine hok ctx' m' recs' b' hJ' ?_
          rw [hmetas']
          exact take_append_map_drop hmeta hmetas3
        · intro hne hlow
          refine hfull (fun h => hne ?_) (by rw [← hlive3]; exact hlow)
          rw [h] at hlt
          exact absurd hlt (by simp)
      · intro ctx2 m2 recs2 mv hc hr hlow
        refine hfull (fun h => ?_) ?_ _ _ (mv.base.image (mv.queues hbase1.room hqueues1).log)
          ⟨_, _, _, _, _, _, _, hJ, b, he, hin, hcore1 ▸ mv⟩
        · rw [h] at hlt
          exact absurd hlt (by simp)
        · rw [hidx1] at hlow
          rw [← hlive]
          exact hlow
      · intro hl ctx2 m2 recs2 ctx3 m3 mv sp hc
        have hq := mv.queues hbase1.room hqueues1
        exact hbad hl _ _ (mv.base.image_of_update hq.log hq.log_progress sp.appendLeft)
    · refine ih b hJ (by omega) ?_ hfull
      intro ctx' m' recs' b' hJ' hmetas'
      refine hok ctx' m' recs' b' hJ' ?_
      rw [hmetas']
      refine take_append_map_drop hmeta ?_
      rw [EntryMeta.settle_of_ne hin, set_of_getElem? hmeta]

/-- `op_recover`. -/
theorem wp_opRecover {ctx : FlashqCtx} {Q0 : List StoredMessage → Prop} (img : Image R m Q0)
    (inv : RequeueInvariant R J Q) (hQ : ∀ q, Q0 q → Q q)
    (hJ : ∀ c0 m0 recs0, Opened R m c0 m0 recs0 →
      Q0 (contents (view cfg m0 c0.region) c0.index) → J c0 m0 recs0)
    (hfresh : (∀ r, ¬ IsActive (view cfg m r)) → ∀ (ctx' : FlashqCtx) m',
      ctx'.core = Core.initialized ctx.claimScratch → Base R ctx'.core m' [] → P.ok () ctx' m')
    (hok : ∀ c0 m0 recs0 (ctx' : FlashqCtx) m' recs', Opened R m c0 m0 recs0 →
      Q0 (contents (view cfg m0 c0.region) c0.index) → Base R ctx'.core m' recs' →
      J ctx'.core m' recs' →
      ctx'.index.map (·.toEntryMeta) = (c0.index.map (·.toEntryMeta)).map EntryMeta.settle →
      P.ok () ctx' m')
    (hfull : ∀ c0 m0 recs0, Opened R m c0 m0 recs0 →
      Q0 (contents (view cfg m0 c0.region) c0.index) → c0.index ≠ [] →
      cfg.dataCapacity < liveBytes c0.index + updateSize + updateSize →
      ∀ ctx' m', Image R m' Q → Stuck R J m' → P.error .storage ctx' m')
    (hbad : R.lossy → ∀ ctx' m', Image R m' Q → P.error .storage ctx' m')
    (herr : R.mayFail → ∀ err ctx' m', Image R m' Q → P.error err ctx' m')
    (hcut : ∀ m', Image R m' Q → P.cut m') :
    wp cfg.device R.env (opRecover cfg) P ctx m := by
  have img' : Image R m Q := img.mono hQ
  refine wp_recoverWith img' hfresh (fun r m' hc => ?_) herr hcut
  unfold scanRegion
  simp only [Prog.bind_eq, wp_bind]
  refine wp_scanLog_chosen img hc ?_ fun m' hi => hcut m' (hi.mono hQ)
  intro ctx0 recs0 ho _ hq
  simp only [wp_read]
  refine wp_requeueLoop inv ho.base (hJ _ _ _ ho hq) (Nat.zero_add _) ?_ ?_ hbad herr hcut
  · intro ctx' m'' recs' b' hJ' hmetas
    refine hok _ _ _ ctx' m'' recs' ho hq b' hJ' ?_
    rwa [List.take_zero, List.drop_zero, List.nil_append] at hmetas
  · exact fun hne hlow => hfull _ _ _ ho hq hne hlow

end Programs

end EdgeSync
