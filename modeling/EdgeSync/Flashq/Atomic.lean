/-
  Flashq/Atomic.lean --- the flash queue takes every call at once.

  Whatever bytes a power cut left behind, the queue a restart finds is the one before the
  call or the one after it, and what a call that returned did is never undone.  A cut
  inside a compaction may leave two ACTIVE regions, and which of them is found shows at
  the next restart only: the run is followed by the queues it may stand for.
-/
import EdgeSync.Atomic
import EdgeSync.Flashq.Detected
import EdgeSync.Flashq.Ram
import EdgeSync.Foundation.Checked
import EdgeSync.Foundation.Possible

set_option autoImplicit false

namespace EdgeSync

open Foundation

variable {cfg : FlashqConfig} {R : Regime cfg} {labels : List FlashqStepLabel}

/-! ## The queue in the log -/

/-- Entries with equal keys that look alike belong to messages that look alike. -/
theorem sameDurable_contents {A B : List FlashqIndexEntry} (v : Memory)
    (hk : A.map FlashqIndexEntry.key = B.map FlashqIndexEntry.key)
    (h : LensEq Lens.durable A B) : SameDurable (contents v A) (contents v B) := by
  rw [SameDurable, contents, contents, List.map_map, List.map_map]
  apply List.ext_getElem?
  intro i
  have hki := congrArg (·[i]?) hk
  have hi := congrArg (·[i]?) h
  simp only [List.getElem?_map] at hki hi ⊢
  cases ha : A[i]? with
  | none =>
    rw [ha] at hi
    rw [Option.map_eq_none_iff.mp hi.symm]
  | some a =>
    rw [ha] at hi hki
    obtain ⟨b, hb, hmeta⟩ := Option.map_eq_some_iff.mp hi.symm
    rw [hb] at hki ⊢
    have hkey : a.key = b.key := Option.some.inj hki
    simp only [FlashqIndexEntry.key, EntryMeta.identity, Prod.mk.injEq] at hkey
    obtain ⟨⟨_, _, hdest, hpay, _⟩, hoff⟩ := hkey
    refine congrArg some ?_
    show (contentOf v b).durable = (contentOf v a).durable
    have hda : ∀ e : FlashqIndexEntry, (contentOf v e).durable =
        ⟨Lens.durable.get e.toEntryMeta, (contentOf v e).destination, (contentOf v e).payload⟩ :=
      fun _ => rfl
    rw [hda, hda, hmeta]
    simp only [contentOf, hdest, hpay, hoff]

/-- What a restart would find is what the index says. -/
theorem Base.sameDurable {c : Core} {m : Memory} {recs : List (Nat × RecordHdr)}
    (b : Base R c m recs) (h : LensEq Lens.durable c.index (replay cfg recs).index) :
    SameDurable (c.queue cfg m) (contents (view cfg m c.region) (replay cfg recs).index) :=
  sameDurable_contents _ b.same h

/-! ## What a cut call leaves -/

/-- The queues that are kept of `q`, or of what the call made of it. -/
def CutLeaves (q : List StoredMessage) (op : StorageOp) (q' : List StoredMessage) : Prop :=
  ∃ q1, (q1 = q ∨ ∃ res, QueueStep q op res q1) ∧ SameDurable q1 q'

theorem CutLeaves.before {q q' : List StoredMessage} (op : StorageOp) (h : SameDurable q q') :
    CutLeaves q op q' := ⟨q, .inl rfl, h⟩

theorem CutLeaves.after {q q1 q' : List StoredMessage} {op : StorageOp}
    {res : Except EspErr StorageReply} (step : QueueStep q op res q1) (h : SameDurable q1 q') :
    CutLeaves q op q' := ⟨q1, .inr ⟨res, step⟩, h⟩

/-- It is a step of the queue. -/
theorem CutLeaves.atomicStep {q q' : List StoredMessage} {op : StorageOp} (h : CutLeaves q op q') :
    AtomicStep messageQueue (.on q) (.callCut op) (.off q') := by
  obtain ⟨q1, hq | ⟨res, step⟩, hkept⟩ := h
  · rw [hq] at hkept
    exact .undone hkept
  · exact .done step hkept

theorem CutLeaves.knownIds {q q' : List StoredMessage} {op : StorageOp} (h : CutLeaves q op q')
    (known : KnownIds labels q) (hu : (publishedIds (labels ++ [.callCut op])).Nodup) :
    KnownIds (labels ++ [.callCut op]) q' := by
  obtain ⟨q1, hq | ⟨res, step⟩, hkept⟩ := h
  · rw [hq] at hkept
    exact hkept.knownIds known.restart
  · refine hkept.knownIds ⟨?_, fun id hid => ?_⟩
    · refine step.nodup known.nodup fun id hid hm => ?_
      exact @fresh_of_unique labels (.callCut op) id hu hid (known.published id hm)
    · rcases step.mem_ids hid with hid | hid
      · exact mem_published_init (known.published id hid) _
      · exact mem_published_last hid

section Cut

variable {c : Core} {m : Memory} {recs : List (Nat × RecordHdr)} {op : StorageOp}

/-- The message of an entry makes progress, in the log or in a context that was staged. -/
theorem Base.cutLeaves_update (b : Base R c m recs)
    (h : LensEq Lens.durable c.index (replay cfg recs).index) {index : List FlashqIndexEntry}
    {id : UInt64} {p : Progress} {q1 : List StoredMessage} {res : Except EspErr StorageReply}
    (hindex : SameDurable (c.queue cfg m) (contents (view cfg m c.region) index))
    (hq1 : progressTo id p (c.queue cfg m) = q1) (step : QueueStep (c.queue cfg m) op res q1) :
    UpdateQueues cfg (CutLeaves (c.queue cfg m) op) (view cfg m c.region) recs index id p := by
  have hlog := b.sameDurable h
  refine ⟨.before op hlog, .before op hindex, .after step ?_, .after step ?_⟩
  · rw [← hq1]
    exact hlog.progressTo id p
  · rw [← hq1]
    exact hindex.progressTo id p

/-- An UPDATE of a message that stays. -/
theorem progressTo_modify {q : List StoredMessage} {id : UInt64} {pos : Nat} {s : StoredMessage}
    (hpos : findMessage q id = some pos) (hs : q[pos]? = some s) (f : Progress → Progress)
    (hfinal : isFinal (f s.toEntryMeta.progress).state = false) :
    progressTo id (f s.toEntryMeta.progress) q = q.modify pos (·.change f) := by
  rw [progressTo, hpos]
  simp only [hfinal, Bool.false_eq_true, if_false]
  exact modify_change_const hs f

/-- An UPDATE of a message that goes. -/
theorem progressTo_final {q : List StoredMessage} {id : UInt64} {pos : Nat} {p : Progress}
    (hpos : findMessage q id = some pos) (hfinal : isFinal p.state = true) :
    progressTo id p q = swapRemove q pos := by
  rw [progressTo, hpos]
  simp only [hfinal, if_true]

/-- Retries are of messages in flight. -/
def RetriesInFlight : FlashqSystem → FlashqStepLabel → Prop
  | .on ctx _, label => ∀ id nextRetryTimeUs deadLetter lastError,
      label.op? = some (.scheduleRetry id nextRetryTimeUs deadLetter lastError) →
      ∀ e ∈ ctx.metas, e.id = id → e.state = FlashqState.inFlight.code
  | .off _, _ => True

/-- The queues that a cut call may leave are the two of the atomic queue. -/
theorem Base.cutLeaves (htorn : ∀ d d', R.Torn d d' → d' = d) {ctx : FlashqCtx}
    (b : Base R ctx.core m recs) (h : LensEq Lens.durable ctx.core.index (replay cfg recs).index)
    (known : KnownIds labels (ctx.core.queue cfg m)) {label : FlashqStepLabel}
    (hop : label.op? = some op) (hretry : RetriesInFlight (.on ctx m) label) :
    CallQueues R (CutLeaves (ctx.core.queue cfg m) op) (view cfg m ctx.activeRegion) recs ctx.core
      op := by
  have hlog := b.sameDurable h
  have hnodup : (ctx.core.index.map (·.id)).Nodup := by
    rw [← messageIds_queue ctx.core m]
    exact known.nodup
  have hmessage : ∀ {pos : Nat} {e : FlashqIndexEntry}, ctx.core.index[pos]? = some e →
      findMessage (ctx.core.queue cfg m) e.id = some pos ∧
      (ctx.core.queue cfg m)[pos]? = some (contentOf (view cfg m ctx.activeRegion) e) := by
    intro pos e he
    exact ⟨(findEntry_contents _ _ _).trans (findEntry_of_nodup hnodup he), contents_getElem? he⟩
  cases op with
  | enqueue message =>
    refine ⟨.before _ hlog, .before _ (.refl _), fun d hd => .after .enqueued ?_,
      fun d hd => .after .enqueued ?_⟩
    · rw [htorn _ _ hd, EdgesyncMessage.storedWith_body]
      exact hlog.append _
    · rw [htorn _ _ hd, EdgesyncMessage.storedWith_body]
      exact .refl _
  | claimNext nowUs =>
    intro pos e hsel he
    obtain ⟨hpos, hs⟩ := hmessage he
    refine b.cutLeaves_update h (.refl _) (progressTo_modify hpos hs (Progress.claimed nowUs)
      (isFinal_claimed _ _)) (.claimed ?_ hs)
    rw [Core.queue, metas_contents]
    exact hsel
  | markDelivered id =>
    intro pos e hpos he
    obtain ⟨hpos', hs⟩ := hmessage he
    rw [id_of_findEntry hpos he] at hpos' ⊢
    exact b.cutLeaves_update h (.refl _) (progressTo_final hpos' rfl) (.retired (.delivered id) hpos')
  | remove id =>
    intro pos e hpos he
    obtain ⟨hpos', hs⟩ := hmessage he
    rw [id_of_findEntry hpos he] at hpos' ⊢
    exact b.cutLeaves_update h (.refl _) (progressTo_final hpos' rfl) (.retired (.removed id) hpos')
  | scheduleRetry id nextRetryTimeUs deadLetter lastError =>
    intro pos e hpos he
    obtain ⟨hpos', hs⟩ := hmessage he
    have hid := id_of_findEntry hpos he
    rw [hid] at hpos' ⊢
    have hflying : e.state = FlashqState.inFlight.code :=
      hretry id nextRetryTimeUs deadLetter lastError hop e.toEntryMeta
        (List.mem_map_of_mem (List.mem_of_getElem? he)) hid
    have hstaged : SameDurable (ctx.core.queue cfg m) (contents (view cfg m ctx.core.region)
        (ctx.core.stagedAt pos nextRetryTimeUs deadLetter lastError).index) := by
      have hcontents := contents_modify (view cfg m ctx.core.region) ctx.core.index pos
        (Progress.staged nextRetryTimeUs deadLetter lastError)
      rw [show contents (view cfg m ctx.core.region)
        (ctx.core.stagedAt pos nextRetryTimeUs deadLetter lastError).index = _ from hcontents]
      exact sameDurable_staged hs hflying _ _ _
    exact b.cutLeaves_update h hstaged (progressTo_modify hpos' hs
      (Progress.retried nextRetryTimeUs deadLetter lastError) (isFinal_retried _ _ _ _))
      (.retried hpos')
  | findDropCandidate policy => trivial
  | getStats stats => trivial

end Cut

/-! ## Runs -/

/-- After `labels` the flash queue stands for one of the queues `X`. -/
def FlashqStands (R : Regime cfg) (labels : List FlashqStepLabel)
    (X : Powered (List StoredMessage) → Prop) : FlashqSystem → Prop
  | .on ctx m => (∃ recs, Base R ctx.core m recs ∧
      LensEq Lens.durable ctx.core.index (replay cfg recs).index) ∧
      KnownIds labels (ctx.core.queue cfg m) ∧ X (.on (ctx.core.queue cfg m))
  | .off m => Image R m fun q => KnownIds labels q ∧ X (.off q)

section Runs

variable {X : Powered (List StoredMessage) → Prop}

/-- What the requeue loop of a restart keeps of a queue of `X`. -/
structure Requeuing (R : Regime cfg) (labels : List FlashqStepLabel)
    (X : Powered (List StoredMessage) → Prop) (c : Core) (m : Memory)
    (recs : List (Nat × RecordHdr)) : Prop where
  same : LensEq Lens.all c.index (replay cfg recs).index
  known : KnownIds labels (c.queue cfg m)
  settles : ∃ q, X (.off q) ∧
    (c.queue cfg m).map StoredMessage.settle = q.map StoredMessage.settle

/-- The queues that a restart which did not come to its end may leave. -/
def RestartLeaves (labels : List FlashqStepLabel) (X : Powered (List StoredMessage) → Prop)
    (q' : List StoredMessage) : Prop :=
  KnownIds labels q' ∧ ∃ q, X (.off q) ∧ SameDurable q q'

theorem Requeuing.leaves {c : Core} {m : Memory} {recs : List (Nat × RecordHdr)}
    (h : Requeuing R labels X c m recs) {q' : List StoredMessage}
    (hq' : SameDurable (c.queue cfg m) q') : RestartLeaves labels X q' := by
  obtain ⟨q, hq, hsettle⟩ := h.settles
  exact ⟨hq'.knownIds h.known, q, hq, (SameDurable.of_settle hsettle).trans hq'⟩

theorem Requeuing.log_eq {c : Core} {m : Memory} {recs : List (Nat × RecordHdr)}
    (h : Requeuing R labels X c m recs) (b : Base R c m recs) :
    contents (view cfg m c.region) (replay cfg recs).index = c.queue cfg m := by
  rw [← index_eq_of_lensEq b.same h.same, Core.queue]

/-- A requeue is invisible to the next restart. -/
theorem durable_requeued (s : StoredMessage) : (s.change Progress.requeued).durable = s.durable :=
  durable_settle s

theorem sameDurable_requeued (q : List StoredMessage) (pos : Nat) :
    SameDurable q (q.modify pos (·.change Progress.requeued)) :=
  map_modify_of_eq fun s _ => durable_requeued s

theorem requeueInvariant_requeuing :
    RequeueInvariant R (Requeuing R labels X) (RestartLeaves labels X) where
  log h b := by
    rw [h.log_eq b]
    exact h.leaves (.refl _)
  queues {c m recs pos e} h b he hin := by
    have hs : (c.queue cfg m)[pos]? = some (contentOf (view cfg m c.region) e) :=
      contents_getElem? he
    have hnodup : (c.index.map (·.id)).Nodup := by
      rw [← messageIds_queue c m]
      exact h.known.nodup
    have hpos : findMessage (c.queue cfg m) e.id = some pos :=
      (findEntry_contents _ _ _).trans (findEntry_of_nodup hnodup he)
    have hram : SameDurable (c.queue cfg m) (contents (view cfg m c.region)
        (c.stagedAt pos 0 false e.lastError).index) := by
      have hcontents := contents_modify (view cfg m c.region) c.index pos
        (Progress.staged 0 false e.lastError)
      rw [show contents (view cfg m c.region) (c.stagedAt pos 0 false e.lastError).index = _ from
        hcontents]
      exact sameDurable_staged hs hin _ _ _
    have hprogress : SameDurable (c.queue cfg m) (progressTo e.id e.progress.requeued
        (c.queue cfg m)) := by
      have hq1 := progressTo_modify hpos hs Progress.requeued (isFinal_requeued hin)
      rw [show progressTo e.id e.progress.requeued (c.queue cfg m) = _ from hq1]
      exact sameDurable_requeued _ pos
    refine ⟨?_, h.leaves hram, ?_, h.leaves (hprogress.trans (hram.progressTo _ _))⟩
    · rw [h.log_eq b]
      exact h.leaves (.refl _)
    · rw [h.log_eq b]
      exact h.leaves hprogress
  step {c m recs pos e c1 m1 recs1 c2 m2} h b he hin mv up := by
    have hfinal := isFinal_requeued hin
    have hs : (c.queue cfg m)[pos]? = some (contentOf (view cfg m c.region) e) :=
      contents_getElem? he
    have hq : c2.queue cfg m2 = (c.queue cfg m).modify pos (·.change Progress.requeued) := by
      rw [mv.staged_queue up]
      exact modify_change_const hs Progress.requeued
    have hnodup : (c.index.map (·.id)).Nodup := by
      rw [← messageIds_queue c m]
      exact h.known.nodup
    have hpos : findEntry c1.index e.id = some pos := by
      rw [mv.findEntry, findEntry_congr (stagedAt_ids c pos _ _ _)]
      exact findEntry_of_nodup hnodup he
    have hroom := (b.stagedAt pos 0 false e.lastError).room
    have hst := mv.staged hroom
      ((h.same.staged pos).modify fun x => x.progress.staged 0 false e.lastError)
    obtain ⟨q, hX, hsettle⟩ := h.settles
    refine ⟨up.lensEq mv.base hpos hfinal hst, ?_, q, hX, ?_⟩
    · rw [hq]
      exact h.known.modify pos _
    · rw [hq, ← hsettle]
      exact map_modify_of_eq fun x _ => x.settle_settle

/-- A call that returned. -/
theorem FlashqStands.call {ctx ctx' : FlashqCtx} {m m' : Memory} {op : StorageOp}
    {res : Except EspErr StorageReply} {recs recs' : List (Nat × RecordHdr)}
    (b : Base R ctx.core m recs) (h : LensEq Lens.durable ctx.core.index (replay cfg recs).index)
    (known : KnownIds labels (ctx.core.queue cfg m)) (hX : X (.on (ctx.core.queue cfg m)))
    (hu : (publishedIds (labels ++ [.call op res])).Nodup)
    (hretry : RetriesInFlight (.on ctx m) (.call op res))
    (ef : Effect R ctx.core m recs op res ctx'.core m' recs') :
    FlashqStands R (labels ++ [.call op res])
      (Successors (AtomicStep messageQueue) X (.call op res)) (.on ctx' m') := by
  have hnodup : (ctx.core.index.map (·.id)).Nodup := by
    rw [← messageIds_queue ctx.core m]
    exact known.nodup
  refine ⟨⟨recs', ef.base b, ef.lensEq b hnodup h fun _ cS prep => ?_⟩,
    known.call hu ef.queueStep, _, hX, .call ef.queueStep⟩
  -- what is staged for a message in flight does not outlive the power
  cases op with
  | claimNext nowUs =>
    obtain ⟨claimScratch, rfl⟩ := prep
    exact LensEq.refl _ _
  | scheduleRetry id nextRetryTimeUs deadLetter lastError =>
    obtain ⟨pos, hpos, rfl⟩ := prep
    obtain ⟨e, he, hid⟩ := findEntry_some hpos
    have hflying : e.state = FlashqState.inFlight.code :=
      hretry id nextRetryTimeUs deadLetter lastError rfl e.toEntryMeta
        (List.mem_map_of_mem (List.mem_of_getElem? he)) hid
    refine map_modify_of_eq fun x hx => ?_
    obtain rfl := Option.some.inj (he.symm.trans hx)
    have hstaged := Progress.durable_staged (p := e.progress) hflying nextRetryTimeUs deadLetter
      lastError
    show e.toEntryMeta.withProgress
      (e.progress.staged nextRetryTimeUs deadLetter lastError).durable = _
    rw [hstaged]
    rfl
  | findDropCandidate policy => exact prep.elim
  | getStats stats => exact prep.elim
  | _ =>
    cases prep
    exact LensEq.refl _ _

/-- A restart that came to its end. -/
theorem FlashqStands.boot {ctx' : FlashqCtx} {m m' : Memory} (img : FlashqStands R labels X (.off m))
    (hb : Booted R (Requeuing R labels X) (fun q => KnownIds labels q ∧ X (.off q)) m ctx'.core m') :
    FlashqStands R (labels ++ [.booted]) (Successors (AtomicStep messageQueue) X .booted)
      (.on ctx' m') := by
  cases hb with
  | fresh none core_eq base =>
    obtain ⟨_, hknown, hX⟩ := Image.fresh img none
    have hnil : ctx'.core.queue cfg m' = [] := by
      rw [core_eq]
      rfl
    refine ⟨⟨[], base, ?_⟩, ?_⟩
    · rw [core_eq]
      rfl
    · rw [hnil]
      exact ⟨hknown.restart, _, hX, .booted rfl⟩
  | @replayed c0 m0 recs0 recs' opened durable base inv metas =>
    obtain ⟨q, hX, hsettle⟩ := inv.settles
    have hsettled : EdgeSync.metas (ctx'.core.queue cfg m') =
        (c0.index.map (·.toEntryMeta)).map EntryMeta.settle := by
      rw [Core.queue, metas_contents]
      exact metas
    have hq : ctx'.core.queue cfg m' = q.map StoredMessage.settle := by
      rw [← hsettle]
      exact (map_settle_of_metas hsettled).symm
    refine ⟨⟨recs', base, ?_⟩, inv.known.restart, ⟨.off q, hX, .booted hq⟩⟩
    rw [index_eq_of_lensEq base.same inv.same]
    exact LensEq.refl _ _

/-- Every step leads to a queue that the same step leads to. -/
theorem flashqStands_follows (hquiet : ¬ R.mayFail) (htorn : ∀ d d', R.Torn d d' → d' = d) :
    Follows (Guarded (FlashqStep cfg R.world) RetriesInFlight) (AtomicStep messageQueue)
      (fun labels => (publishedIds labels).Nodup ∧ AllFit cfg labels) (FlashqStands R) where
  init h := ⟨unique_init h.1, h.2.init⟩
  mono {labels X Y s} h hXY := by
    cases s with
    | on ctx m => exact ⟨h.1, h.2.1, hXY _ h.2.2⟩
    | off m => exact Image.mono h fun q hq => ⟨hq.1, hXY _ hq.2⟩
  step {labels label X s s'} allowed h step := by
    obtain ⟨hu, hfit⟩ := allowed
    obtain ⟨step, hretry⟩ := step
    have hboot : ∀ {m : Memory}, FlashqStands R labels X (.off m) →
        ∀ {q'}, RestartLeaves labels X q' → label = .bootCut ∨ (∃ err, label = .bootFailed err) →
        KnownIds (labels ++ [label]) q' ∧
          Successors (AtomicStep messageQueue) X label (.off q') := by
      rintro m - q' ⟨hknown, q, hX, hkept⟩ (rfl | ⟨err, rfl⟩)
      · exact ⟨hknown.restart, _, hX, .bootCut hkept⟩
      · exact ⟨hknown.restart, _, hX, .bootFailed hkept⟩
    have hJ : ∀ {m : Memory}, FlashqStands R labels X (.off m) → ∀ c0 m0 recs0,
        Opened R m c0 m0 recs0 → KnownIds labels (c0.queue cfg m0) ∧ X (.off (c0.queue cfg m0)) →
        Requeuing R labels X c0 m0 recs0 := by
      intro m _ c0 m0 recs0 ho hq
      exact ⟨by rw [ho.replay_eq]; exact LensEq.refl _ _, hq.1, _, hq.2, rfl⟩
    have hQ : ∀ q, KnownIds labels q ∧ X (.off q) → RestartLeaves labels X q :=
      fun q hq => ⟨hq.1, q, hq.2, .refl _⟩
    cases step with
    | returned run =>
      obtain ⟨⟨recs, b, hsame⟩, hknown, hX⟩ := h
      obtain ⟨recs', ef⟩ := call_returned hquiet b (hfit.last rfl) run
      exact FlashqStands.call b hsame hknown hX hu hretry ef
    | failed run =>
      obtain ⟨⟨recs, b, hsame⟩, hknown, hX⟩ := h
      obtain ⟨recs', ef⟩ := call_failed hquiet b (hfit.last rfl) run
      exact FlashqStands.call b hsame hknown hX hu hretry ef
    | cut run =>
      obtain ⟨⟨recs, b, hsame⟩, hknown, hX⟩ := h
      have img := call_cut hquiet b (hfit.last rfl) (b.cutLeaves htorn hsame hknown rfl hretry) run
      exact img.mono fun q hq => ⟨hq.knownIds hknown hu, _, hX, hq.atomicStep⟩
    | stop =>
      obtain ⟨⟨recs, b, hsame⟩, hknown, hX⟩ := h
      have hkept := b.sameDurable hsame
      exact b.image ⟨(hkept.knownIds hknown).restart, _, hX, .stopped hkept⟩
    | boot run =>
      exact FlashqStands.boot h (boot_meets h requeueInvariant_requeuing hQ (hJ h) run)
    | bootFail run =>
      have img : Image R _ (RestartLeaves labels X) :=
        boot_meets h requeueInvariant_requeuing hQ (hJ h) run
      exact img.mono fun q hq => hboot h hq (.inr ⟨_, rfl⟩)
    | bootCut run =>
      have img : Image R _ (RestartLeaves labels X) :=
        boot_meets h requeueInvariant_requeuing hQ (hJ h) run
      exact img.mono fun q hq => hboot h hq (.inl rfl)

/-- In every run a running flash queue holds what the atomic queue holds after the same
steps. -/
theorem flashq_atomic (hquiet : ¬ R.mayFail) (htorn : ∀ d d', R.Torn d d' → d' = d)
    {ctx : FlashqCtx} {m : Memory}
    (run : StepRun (Guarded (FlashqStep cfg R.world) RetriesInFlight) (.off erasedFlash) labels
      (.on ctx m)) (hu : (publishedIds labels).Nodup) (hfit : AllFit cfg labels) :
    StepRun (AtomicStep messageQueue) (.off []) labels (.on (ctx.core.queue cfg m)) := by
  have start : FlashqStands R [] (· = .off []) (.off erasedFlash) :=
    image_erased ⟨⟨List.nodup_nil, fun _ h => absurd h List.not_mem_nil⟩, rfl⟩
  exact ((flashqStands_follows hquiet htorn).run run start ⟨hu, hfit⟩).2.2

/-- The power may go between any two bytes: as long as the scan tells records from what a
cut left, the flash queue is atomic. -/
theorem flashq_crash_atomic {ctx : FlashqCtx} {m : Memory}
    (run : StepRun (Guarded (FlashqStep cfg (detected cfg).world) RetriesInFlight)
      (.off erasedFlash) labels (.on ctx m))
    (hu : (publishedIds labels).Nodup) (hfit : AllFit cfg labels) :
    StepRun (AtomicStep messageQueue) (.off []) labels (.on (ctx.core.queue cfg m)) :=
  flashq_atomic (R := detected cfg) (fun h => h) (fun _ _ h => h.symm) run hu hfit

end Runs

/-! ## Scripts with cuts -/

section Scripts

/-- A write into the header sector of a region. -/
def writesHeader (cfg : FlashqConfig) (addr : Nat) : Bool :=
  decide (∀ r : Fin 2, ¬ (cfg.regionOffset r + dataStart ≤ addr ∧
    addr < cfg.regionOffset r + cfg.regionSize))

/-- The write leaves the whole record at `addr`, or no record. -/
def detectsAt (cfg : FlashqConfig) (m : Memory) (addr : Nat) (bytes : Bytes) (ev : FlashEvent)
    (r : Fin 2) : Bool :=
  let v := (view cfg m r).program (addr - cfg.regionOffset r) (landedBytes bytes ev)
  let e := addr - cfg.regionOffset r
  (acceptAt cfg v e).isNone ||
    (decide (v.bytesAt e bytes.length = bytes) && (acceptAt cfg v (e + bytes.length)).isNone)

/-- `detectedCuts`, as far as it can be computed. -/
def detects (cfg : FlashqConfig) (m : Memory) (c : FlashCall) (ev : FlashEvent) : Bool :=
  (ev matches .run || ev matches .cut _) &&
    match c with
    | .write addr bytes => writesHeader cfg addr || decide (∀ r, detectsAt cfg m addr bytes ev r = true)
    | _ => true

theorem detects_sound {m : Memory} {c : FlashCall} {ev : FlashEvent}
    (hdetects : detects cfg m c ev = true) : detectedCuts cfg m c ev := by
  obtain ⟨hev, hwrite⟩ := Bool.and_eq_true_iff.mp hdetects
  refine ⟨?_, ?_⟩
  · cases ev with
    | run => exact .inl rfl
    | cut k => exact .inr ⟨k, rfl⟩
    | fail k => simp at hev
    | tear k => simp at hev
  · cases c with
    | write addr bytes =>
      rintro r e h data ⟨hact, ⟨recs, hlog⟩, hstop, hs, hd, hfit, rfl, rfl⟩
      have hlen := length_recordBytes hd
      have hle := h.usedSize_le
      have hpos : 0 < h.usedSize := by
        simp only [RecordHdr.usedSize, hdrSize]
        omega
      rcases Bool.or_eq_true_iff.mp hwrite with hheader | hall
      · have hr := of_decide_eq_true hheader r
        have hstart := hlog.le
        omega
      · have hr := of_decide_eq_true hall r
        simp only [detectsAt, Nat.add_sub_cancel_left] at hr
        rcases Bool.or_eq_true_iff.mp hr with hnone | hthere
        · exact .inl (Option.isNone_iff_eq_none.mp hnone)
        · obtain ⟨hbytes, hnone⟩ := Bool.and_eq_true_iff.mp hthere
          have hbytes := of_decide_eq_true hbytes
          rw [hlen] at hbytes hnone
          have hused := congrArg (List.take h.usedSize) hbytes
          rw [Memory.take_bytesAt hle] at hused
          exact .inr ⟨hused, Option.isNone_iff_eq_none.mp hnone⟩
    | _ => trivial

/-- The events of a step are permitted where they happen. -/
def FlashqSystem.permitsIn (cfg : FlashqConfig) (allow : Memory → FlashCall → FlashEvent → Bool) :
    FlashqSystem → FlashqAction → List FlashEvent → Bool
  | .on ctx m, .call op, evs => admitsIn cfg.device allow (flashqCall cfg op) ctx m evs
  | .off m, .boot, evs => admitsIn cfg.device allow (opRecover cfg) (FlashqCtx.fresh cfg) m evs
  | _, _, _ => true

/-- Play a script whose events are permitted. -/
def FlashqSystem.playIn (cfg : FlashqConfig) (allow : Memory → FlashCall → FlashEvent → Bool) :
    FlashqSystem → FlashqScript → List FlashqStepLabel → Option (List FlashqStepLabel × FlashqSystem)
  | s, [], labels => some (labels, s)
  | s, (a, evs) :: script, labels =>
      if s.permitsIn cfg allow a evs then
        match s.act cfg a evs with
        | none => none
        | some (label, s') => s'.playIn cfg allow script (labels ++ [label])
      else none

variable {allow : Memory → FlashCall → FlashEvent → Bool} {s0 s s' : FlashqSystem}

theorem FlashqSystem.act_stepIn (hallow : ∀ m c ev, allow m c ev = true → R.env m c ev)
    {a : FlashqAction} {evs : List FlashEvent} {label : FlashqStepLabel}
    (hp : s.permitsIn cfg allow a evs = true) (h : s.act cfg a evs = some (label, s')) :
    FlashqStep cfg R.world s label s' := by
  cases s with
  | off m =>
    cases a with
    | call op => simp [act] at h
    | stop => simp [act] at h
    | boot =>
      have hrun := runs_of_admitsIn hallow (opRecover cfg) hp
      rw [act] at h
      split at h <;> rename_i hexec <;> rw [hexec] at hrun <;> cases h
      · exact .boot (g := 0) hrun
      · exact .bootFail (g := 0) hrun
      · exact .bootCut (g := 0) hrun
  | on ctx m =>
    cases a with
    | boot => simp [act] at h
    | stop =>
      cases h
      exact .stop
    | call op =>
      have hrun := runs_of_admitsIn hallow (flashqCall cfg op) hp
      rw [act] at h
      split at h <;> rename_i hexec <;> rw [hexec] at hrun <;> cases h
      · exact .returned hrun
      · exact .failed hrun
      · exact .cut hrun

/-- What is played is a run. -/
theorem FlashqSystem.playIn_run (hallow : ∀ m c ev, allow m c ev = true → R.env m c ev)
    {script : FlashqScript} {labels labels' : List FlashqStepLabel}
    (run : StepRun (FlashqStep cfg R.world) s0 labels s)
    (h : s.playIn cfg allow script labels = some (labels', s')) :
    StepRun (FlashqStep cfg R.world) s0 labels' s' := by
  induction script generalizing s labels with
  | nil =>
    cases h
    exact run
  | cons x script ih =>
    obtain ⟨a, evs⟩ := x
    rw [playIn] at h
    split at h
    case isFalse => cases h
    case isTrue hp =>
      cases hact : s.act cfg a evs with
      | none => simp [hact] at h
      | some y =>
        obtain ⟨label, s1⟩ := y
        rw [hact] at h
        exact ih (run.snoc (act_stepIn hallow hp hact)) h

/-- A message is accepted, and the power goes inside the record of the next one. -/
def tornAppendScript : FlashqScript :=
  [(.boot, []), (.call (.enqueue ⟨1, [0x61], 1, 5, [1, 2, 3]⟩), []),
    (.call (.enqueue ⟨2, [0x61], 1, 6, [4, 5, 6]⟩), [.cut 24]), (.boot, [])]

/-- What the callers see of it. -/
def tornAppendLabels : List FlashqStepLabel :=
  [.booted, .call (.enqueue ⟨1, [0x61], 1, 5, [1, 2, 3]⟩) (.ok .done),
    .callCut (.enqueue ⟨2, [0x61], 1, 6, [4, 5, 6]⟩), .booted]

/-- A running queue shows the labels, and holds messages with these payloads. -/
def FlashqSystem.holds (cfg : FlashqConfig) (labels : List FlashqStepLabel) (payloads : List Bytes) :
    List FlashqStepLabel × FlashqSystem → Bool
  | (labels', .on ctx m) =>
      decide (labels' = labels ∧ (ctx.core.queue cfg m).map (·.payload) = payloads)
  | (_, .off _) => false

theorem FlashqSystem.holds_shows {labels : List FlashqStepLabel} {payloads : List Bytes}
    {x : List FlashqStepLabel × FlashqSystem} (h : FlashqSystem.holds cfg labels payloads x = true) :
    ∃ ctx m, x = (labels, .on ctx m) ∧ (ctx.core.queue cfg m).map (·.payload) = payloads := by
  obtain ⟨labels', s⟩ := x
  cases s with
  | off m => cases h
  | on ctx m =>
    obtain ⟨rfl, hpayload⟩ := of_decide_eq_true h
    exact ⟨ctx, m, rfl, hpayload⟩

theorem flashq_crash_atomic_torn : ∃ ctx m,
    StepRun (Guarded (FlashqStep roomyConfig (detected roomyConfig).world) RetriesInFlight)
      (.off erasedFlash) tornAppendLabels (.on ctx m) ∧
    (ctx.core.queue roomyConfig m).map (·.payload) = [[1, 2, 3]] ∧
    StepRun (AtomicStep messageQueue) (.off []) tornAppendLabels
      (.on (ctx.core.queue roomyConfig m)) := by
  have hcheck : (FlashqSystem.playIn roomyConfig (detects roomyConfig) (.off erasedFlash)
      tornAppendScript []).any (FlashqSystem.holds roomyConfig tornAppendLabels [[1, 2, 3]]) =
      true := by decide +kernel
  obtain ⟨x, hplay, hholds⟩ := (Option.any_eq_true _ _).mp hcheck
  obtain ⟨ctx, m, rfl, hpayload⟩ := FlashqSystem.holds_shows hholds
  have hrun : StepRun (FlashqStep roomyConfig (detected roomyConfig).world) (.off erasedFlash)
      tornAppendLabels (.on ctx m) :=
    FlashqSystem.playIn_run (R := detected roomyConfig) (fun _ _ _ h => detects_sound h) .nil hplay
  have hguarded : StepRun (Guarded (FlashqStep roomyConfig (detected roomyConfig).world)
      RetriesInFlight) (.off erasedFlash) tornAppendLabels (.on ctx m) := by
    refine hrun.guarded fun label hl s => ?_
    cases s with
    | off m => trivial
    | on ctx m =>
      intro id nextRetryTimeUs deadLetter lastError hop
      have hnone : ∀ label ∈ tornAppendLabels, ∀ id next dead err,
          label.op? ≠ some (.scheduleRetry id next dead err) := by
        simp [tornAppendLabels, FlashqStepLabel.op?]
      exact absurd hop (hnone label hl _ _ _ _)
  exact ⟨ctx, m, hguarded, hpayload, flashq_crash_atomic hguarded (by decide) (by decide)⟩

end Scripts

end EdgeSync
