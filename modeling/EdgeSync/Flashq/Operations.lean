/-
  Flashq/Operations.lean --- what a storage call does, in one place.

  `Effect` lists every way a call through `edgesync_storage_ops_t` can end while
  the power is on; `CallQueues` the queues a power cut may leave.  `wp_call` is
  the one theorem about the programs; every invariant of the backend is derived
  from it by a case analysis on `Effect`.
-/
import EdgeSync.Flashq.Enqueue
import EdgeSync.Flashq.Claim

set_option autoImplicit false

namespace EdgeSync

open Foundation

variable {cfg : FlashqConfig} {R : Regime cfg}

/-! ## Retiring and rescheduling -/

section Programs

variable {ctx : FlashqCtx} {m : Memory} {recs : List (Nat × RecordHdr)}
  {Q : List StoredMessage → Prop} {id : UInt64}

/-- `op_mark_delivered` and `op_remove`. -/
theorem wp_retireEntry {P : Post FlashqCtx Memory EspErr Unit} (hquiet : ¬ R.mayFail)
    {newState : FlashqState} (b : Base R ctx.core m recs)
    (hQ : ∀ (pos : Nat) e, findEntry ctx.index id = some pos → ctx.index[pos]? = some e →
      UpdateQueues cfg Q (view cfg m ctx.activeRegion) recs ctx.index e.id
        (e.progress.inState newState))
    (hnone : findEntry ctx.index id = none → P.error .notFound ctx m)
    (hok : ∀ (pos : Nat) e (ctx1 : FlashqCtx) m1 recs1 c2 (ctx2 : FlashqCtx) m2,
      findEntry ctx.index id = some pos → ctx.index[pos]? = some e →
      Moved R ctx.core m recs ctx1.core m1 recs1 →
      Updated R ctx1.core m1 pos e.id (e.progress.inState newState) c2 m2 →
      ctx2.core = c2.retired pos → P.ok () ctx2 m2)
    (hfull : ∀ (ctx1 : FlashqCtx) m1 recs1, Moved R ctx.core m recs ctx1.core m1 recs1 →
      ctx1.core = ctx.core.compacted → recs1 = compactedRecs ctx.nextSeq ctx.index →
      cfg.dataCapacity < liveBytes ctx.index + updateSize + updateSize → P.error .storage ctx1 m1)
    (hbad : R.lossy → ∀ (ctx1 : FlashqCtx) m1 recs1 (ctx2 : FlashqCtx) m2,
      Moved R ctx.core m recs ctx1.core m1 recs1 →
      Spoilt R m1 ctx1.activeRegion ctx1.cursor m2 → ctx2.core = ctx1.core →
      P.error .storage ctx2 m2)
    (hcut : ∀ m', Image R m' Q → P.cut m') :
    wp cfg.device R.env (retireEntry cfg id newState) P ctx m := by
  unfold retireEntry
  simp only [Prog.bind_eq, wp_bind, wp_read]
  cases hpos : findEntry ctx.index id with
  | none => exact wp_fail.mpr (hnone hpos)
  | some pos =>
    obtain ⟨e, he, _⟩ := findEntry_some hpos
    simp only [wp_bind]
    refine wp_appendStateUpdateLocked (Q := Q) b he rfl (hQ pos e hpos he) ?_ hfull hbad
      (fun hmay => absurd hmay hquiet) hcut
    intro ctx1 m1 recs1 ctx2 m2 mv up
    unfold removeEntryAt
    simp only [wp_modify]
    exact hok pos e ctx1 m1 recs1 _ _ m2 hpos he mv up rfl

/-- The index with these fields assigned. -/
def Core.stagedAt (c : Core) (pos : Nat) (nextRetryTimeUs : Int64) (deadLetter : Bool)
    (lastError : Int32) : Core :=
  { c with
    index := c.index.modify pos fun e =>
      e.withProgress (e.progress.staged nextRetryTimeUs deadLetter lastError) }

theorem Base.stagedAt {c : Core} (b : Base R c m recs) (pos : Nat) (nextRetryTimeUs : Int64)
    (deadLetter : Bool) (lastError : Int32) :
    Base R (c.stagedAt pos nextRetryTimeUs deadLetter lastError) m recs := by
  have hkeys : (c.stagedAt pos nextRetryTimeUs deadLetter lastError).index.map
      FlashqIndexEntry.key = c.index.map FlashqIndexEntry.key := map_modify_of_eq fun _ _ => rfl
  have hlive := liveBytes_congr (identities_of_keys hkeys)
  exact ⟨⟨b.active, b.generation, b.spare, b.spare_blank, b.log, b.tail,
    located_of_keys hkeys.symm b.located, by rw [hlive]; exact b.fit⟩, by rw [hkeys, b.same]⟩

/-- `op_schedule_retry`. -/
theorem wp_opScheduleRetry {P : Post FlashqCtx Memory EspErr Unit} (hquiet : ¬ R.mayFail)
    {nextRetryTimeUs : Int64} {deadLetter : Bool} {lastError : Int32} (b : Base R ctx.core m recs)
    (hQ : ∀ (pos : Nat) e, findEntry ctx.index id = some pos → ctx.index[pos]? = some e →
      UpdateQueues cfg Q (view cfg m ctx.activeRegion) recs
        (ctx.core.stagedAt pos nextRetryTimeUs deadLetter lastError).index e.id
        (e.progress.retried nextRetryTimeUs deadLetter lastError))
    (hnone : findEntry ctx.index id = none → P.error .notFound ctx m)
    (hok : ∀ (pos : Nat) e (ctx1 : FlashqCtx) m1 recs1 (ctx2 : FlashqCtx) m2,
      findEntry ctx.index id = some pos → ctx.index[pos]? = some e →
      Moved R (ctx.core.stagedAt pos nextRetryTimeUs deadLetter lastError) m recs ctx1.core m1
        recs1 →
      Updated R ctx1.core m1 pos e.id (e.progress.retried nextRetryTimeUs deadLetter lastError)
        ctx2.core m2 → P.ok () ctx2 m2)
    (hfull : ∀ (pos : Nat) (ctx1 : FlashqCtx) m1 recs1, findEntry ctx.index id = some pos →
      Moved R (ctx.core.stagedAt pos nextRetryTimeUs deadLetter lastError) m recs ctx1.core m1
        recs1 →
      ctx1.core = (ctx.core.stagedAt pos nextRetryTimeUs deadLetter lastError).compacted →
      recs1 = compactedRecs ctx.nextSeq
        (ctx.core.stagedAt pos nextRetryTimeUs deadLetter lastError).index →
      cfg.dataCapacity < liveBytes ctx.index + updateSize + updateSize → P.error .storage ctx1 m1)
    (hbad : R.lossy → ∀ (pos : Nat) (ctx1 : FlashqCtx) m1 recs1 (ctx2 : FlashqCtx) m2,
      findEntry ctx.index id = some pos →
      Moved R (ctx.core.stagedAt pos nextRetryTimeUs deadLetter lastError) m recs ctx1.core m1
        recs1 →
      Spoilt R m1 ctx1.activeRegion ctx1.cursor m2 → ctx2.core = ctx1.core →
      P.error .storage ctx2 m2)
    (hcut : ∀ m', Image R m' Q → P.cut m') :
    wp cfg.device R.env (opScheduleRetry cfg id nextRetryTimeUs deadLetter lastError) P ctx m := by
  unfold opScheduleRetry
  simp only [Prog.bind_eq, wp_bind, wp_read]
  cases hpos : findEntry ctx.index id with
  | none => exact wp_fail.mpr (hnone hpos)
  | some pos =>
    obtain ⟨e, he, _⟩ := findEntry_some hpos
    unfold assignEntry
    simp only [wp_bind, wp_modify]
    have he' : (ctx.index.modify pos fun e => { e with
        nextRetryAtUs := if deadLetter then 0 else nextRetryTimeUs
        lastError := lastError })[pos]? =
        some (e.withProgress (e.progress.staged nextRetryTimeUs deadLetter lastError)) := by
      simp only [List.getElem?_modify, if_true, he]
      rfl
    have hlive : liveBytes (ctx.core.stagedAt pos nextRetryTimeUs deadLetter lastError).index =
        liveBytes ctx.index := liveBytes_congr (map_modify_of_eq fun _ _ => rfl)
    refine wp_appendStateUpdateLocked (Q := Q)
      (p := e.progress.retried nextRetryTimeUs deadLetter lastError)
      (b.stagedAt pos nextRetryTimeUs deadLetter lastError) he' ?_ (hQ pos e hpos he) ?_ ?_ ?_
      (fun hmay => absurd hmay hquiet) hcut
    · cases deadLetter <;> rfl
    · intro ctx1 m1 recs1 ctx2 m2 mv up
      exact hok pos e ctx1 m1 recs1 ctx2 m2 hpos he mv up
    · intro ctx1 m1 recs1 mv hc hr hlow
      refine hfull pos ctx1 m1 recs1 hpos mv hc hr ?_
      have hlow' : cfg.dataCapacity < liveBytes (ctx.core.stagedAt pos nextRetryTimeUs deadLetter
        lastError).index + updateSize + updateSize := hlow
      rwa [hlive] at hlow'
    · intro hl ctx1 m1 recs1 ctx2 m2 mv sp hc
      exact hbad hl pos ctx1 m1 recs1 ctx2 m2 hpos mv sp hc

end Programs

/-! ## The effect of a call -/

/-- Bytes a call asks `ensure_space_locked` for. -/
def StorageOp.neededLen : StorageOp → Nat
  | .enqueue message => message.recordSize
  | _ => updateSize

/-- Why a call refuses before it touches anything. -/
def Refused (cfg : FlashqConfig) (index : List FlashqIndexEntry) (err : EspErr) : StorageOp → Prop
  | .enqueue message => EnqueueRefused cfg index message err
  | .claimNext nowUs => err = .notFound ∧ selectClaim nowUs (index.map (·.toEntryMeta)) = none
  | .markDelivered id => err = .notFound ∧ findEntry index id = none
  | .remove id => err = .notFound ∧ findEntry index id = none
  | .scheduleRetry id _ _ _ => err = .notFound ∧ findEntry index id = none
  | .findDropCandidate policy =>
      err = .notFound ∧ selectDrop policy (index.map (·.toEntryMeta)) = none
  | .getStats _ => False

/-- The replies of the calls that change nothing. -/
def Looked (cfg : FlashqConfig) (c : Core) : StorageOp → StorageReply → Prop
  | .findDropCandidate policy, .candidate id =>
      ∃ (pos : Nat) (e : FlashqIndexEntry),
        selectDrop policy (c.index.map (·.toEntryMeta)) = some pos ∧
        c.index[pos]? = some e ∧ id = e.id
  | .getStats stats, .stats stats' => ∃ compactionsTotal, stats' =
      { (c.index.map (·.toEntryMeta)).foldl EdgesyncStats.count stats with
        deliveredAwaitingGc := c.awaitingGcCount
        queueCapacity := UInt32.ofNat cfg.indexCapacity
        storageBytesUsed := UInt32.ofNat (c.cursor - dataStart)
        storageBytesCapacity := UInt32.ofNat cfg.dataCapacity
        compactionsTotal := compactionsTotal }
  | _, _ => False

/-- What a call does to the context before it looks for space. -/
def Prepared (c cS : Core) : StorageOp → Prop
  | .claimNext _ => ∃ claimScratch, cS = { c with claimScratch := claimScratch }
  | .scheduleRetry id nextRetryTimeUs deadLetter lastError =>
      ∃ pos, findEntry c.index id = some pos ∧
        cS = c.stagedAt pos nextRetryTimeUs deadLetter lastError
  | .findDropCandidate _ => False
  | .getStats _ => False
  | _ => cS = c

variable (R) in
/-- Every way a call can end with the power on. -/
inductive Effect (c : Core) (m : Memory) (recs : List (Nat × RecordHdr)) :
    StorageOp → Except EspErr StorageReply → Core → Memory → List (Nat × RecordHdr) → Prop where
  | refused {op : StorageOp} {err : EspErr} (why : Refused cfg c.index err op) :
      Effect c m recs op (.error err) c m recs
  | looked {op : StorageOp} {reply : StorageReply} (seen : Looked cfg c op reply) :
      Effect c m recs op (.ok reply) c m recs
  /-- no space, even after a compaction -/
  | full {op : StorageOp} {cS : Core} {m1 : Memory} (prepared : Prepared c cS op)
      (moved : Moved R cS m recs cS.compacted m1 (compactedRecs cS.nextSeq cS.index))
      (low : cfg.dataCapacity < liveBytes c.index + updateSize + op.neededLen) :
      Effect c m recs op (.error .storage) cS.compacted m1 (compactedRecs cS.nextSeq cS.index)
  /-- the read-back failed -/
  | spoilt {op : StorageOp} {cS c1 : Core} {m1 m2 : Memory} {recs1 : List (Nat × RecordHdr)}
      (lossy : R.lossy) (prepared : Prepared c cS op) (moved : Moved R cS m recs c1 m1 recs1)
      (left : Spoilt R m1 c1.region c1.cursor m2) :
      Effect c m recs op (.error .storage) c1 m2 recs1
  | enqueued {message : EdgesyncMessage} {c1 c2 : Core} {m1 m2 : Memory}
      {recs1 : List (Nat × RecordHdr)} (moved : Moved R c m recs c1 m1 recs1)
      (enqueued : Enqueued R c1 m1 message c2 m2) :
      Effect c m recs (.enqueue message) (.ok .done) c2 m2 (enqueuedRecs c1 recs1 message)
  | claimed {nowUs : Int64} {pos : Nat} {e : FlashqIndexEntry} {claimScratch : Bytes}
      {c1 c2 : Core} {m1 m2 : Memory} {recs1 : List (Nat × RecordHdr)}
      (selected : selectClaim nowUs (c.index.map (·.toEntryMeta)) = some pos)
      (entry : c.index[pos]? = some e)
      (borrowed : slice claimScratch (hdrSize + e.destinationLen.toNat) e.payloadLen.toNat =
        (contentOf (view cfg m c.region) e).payload)
      (moved : Moved R { c with claimScratch := claimScratch } m recs c1 m1 recs1)
      (updated : Updated R c1 m1 pos e.id (e.progress.claimed nowUs) c2 m2) :
      Effect c m recs (.claimNext nowUs)
        (.ok (.claim (.claimed ((contentOf (view cfg m c.region) e).claimedMessage nowUs)))) c2 m2
        (updatedRecs c1 recs1 e.id (e.progress.claimed nowUs))
  | retired {op : StorageOp} {id : UInt64} {newState : FlashqState} {pos : Nat}
      {e : FlashqIndexEntry} {c1 c2 : Core} {m1 m2 : Memory} {recs1 : List (Nat × RecordHdr)}
      (retires : Retires op id newState) (found : findEntry c.index id = some pos)
      (entry : c.index[pos]? = some e) (moved : Moved R c m recs c1 m1 recs1)
      (updated : Updated R c1 m1 pos e.id (e.progress.inState newState) c2 m2) :
      Effect c m recs op (.ok .done) (c2.retired pos) m2
        (updatedRecs c1 recs1 e.id (e.progress.inState newState))
  | retried {id : UInt64} {nextRetryTimeUs : Int64} {deadLetter : Bool} {lastError : Int32}
      {pos : Nat} {e : FlashqIndexEntry} {c1 c2 : Core} {m1 m2 : Memory}
      {recs1 : List (Nat × RecordHdr)} (found : findEntry c.index id = some pos)
      (entry : c.index[pos]? = some e)
      (moved : Moved R (c.stagedAt pos nextRetryTimeUs deadLetter lastError) m recs c1 m1 recs1)
      (updated : Updated R c1 m1 pos e.id (e.progress.retried nextRetryTimeUs deadLetter lastError)
        c2 m2) :
      Effect c m recs (.scheduleRetry id nextRetryTimeUs deadLetter lastError) (.ok .done) c2 m2
        (updatedRecs c1 recs1 e.id (e.progress.retried nextRetryTimeUs deadLetter lastError))

/-- The queues a power cut during a call may leave all satisfy `Q`. -/
def CallQueues (R : Regime cfg) (Q : List StoredMessage → Prop) (v : Memory)
    (recs : List (Nat × RecordHdr)) (c : Core) : StorageOp → Prop
  | .enqueue message => EnqueueQueues R Q v recs c.index message
  | .claimNext nowUs => ∀ (pos : Nat) e,
      selectClaim nowUs (c.index.map (·.toEntryMeta)) = some pos → c.index[pos]? = some e →
      UpdateQueues cfg Q v recs c.index e.id (e.progress.claimed nowUs)
  | .markDelivered id => ∀ (pos : Nat) e, findEntry c.index id = some pos →
      c.index[pos]? = some e →
      UpdateQueues cfg Q v recs c.index e.id (e.progress.inState .delivered)
  | .remove id => ∀ (pos : Nat) e, findEntry c.index id = some pos → c.index[pos]? = some e →
      UpdateQueues cfg Q v recs c.index e.id (e.progress.inState .removed)
  | .scheduleRetry id nextRetryTimeUs deadLetter lastError => ∀ (pos : Nat) e,
      findEntry c.index id = some pos → c.index[pos]? = some e →
      UpdateQueues cfg Q v recs (c.stagedAt pos nextRetryTimeUs deadLetter lastError).index
        e.id (e.progress.retried nextRetryTimeUs deadLetter lastError)
  | _ => True

/-- One call through the table of operations. -/
def flashqCall (cfg : FlashqConfig) (op : StorageOp) : FlashqM StorageReply :=
  (sFlashqOps cfg).call op

/-- Every run of a call has one of the effects, or leaves an image. -/
theorem wp_flashqCall {P : Post FlashqCtx Memory EspErr StorageReply} (hquiet : ¬ R.mayFail)
    {ctx : FlashqCtx} {m : Memory} {recs : List (Nat × RecordHdr)} {Q : List StoredMessage → Prop}
    {op : StorageOp} (b : Base R ctx.core m recs) (hfits : op.Fits cfg.maxMessageSize)
    (hQ : CallQueues R Q (view cfg m ctx.activeRegion) recs ctx.core op)
    (hok : ∀ reply (ctx' : FlashqCtx) m' recs',
      Effect R ctx.core m recs op (.ok reply) ctx'.core m' recs' → P.ok reply ctx' m')
    (herr : ∀ err (ctx' : FlashqCtx) m' recs',
      Effect R ctx.core m recs op (.error err) ctx'.core m' recs' → P.error err ctx' m')
    (hcut : ∀ m', Image R m' Q → P.cut m') :
    wp cfg.device R.env (flashqCall cfg op) P ctx m := by
  have hsame : ∀ (ctx' ctx1 : FlashqCtx) {op err m' recs'},
      Effect R ctx.core m recs op (.error err) ctx1.core m' recs' → ctx'.core = ctx1.core →
      Effect R ctx.core m recs op (.error err) ctx'.core m' recs' := by
    intro ctx' ctx1 op err m' recs' h hc
    rwa [hc]
  unfold flashqCall
  cases op with
  | enqueue message =>
    simp only [StorageOps.call, sFlashqOps, Prog.bind_eq, Prog.pure_eq, wp_bind, wp_ret]
    refine wp_opEnqueue hquiet b hfits hQ ?_ ?_ ?_ ?_ hcut
    · exact fun ctx1 m1 recs1 ctx2 m2 mv en => hok _ _ _ _ (.enqueued mv en)
    · exact fun err ctx' hc why => herr _ _ _ recs (hsame ctx' ctx (.refused why) hc)
    · intro ctx1 m1 recs1 mv hc hr hlow
      refine herr _ _ _ (compactedRecs ctx.nextSeq ctx.index) ?_
      rw [hc]
      rw [hc, hr] at mv
      exact .full rfl mv hlow
    · exact fun hl ctx1 m1 recs1 ctx2 m2 mv sp hc =>
        herr _ _ _ _ (hsame ctx2 ctx1 (.spoilt hl rfl mv sp) hc)
  | claimNext nowUs =>
    simp only [StorageOps.call, sFlashqOps, Prog.bind_eq, Prog.pure_eq, wp_bind, wp_ret]
    refine wp_opClaimNext (Q := Q) hquiet b hQ ?_ ?_ ?_ ?_ hcut
    · exact fun hsel => herr _ _ _ _ (.refused ⟨rfl, hsel⟩)
    · exact fun pos e cs ctx1 m1 recs1 ctx2 m2 hsel he hb mv up =>
        hok _ _ _ _ (.claimed hsel he hb mv up)
    · intro cs ctx1 m1 recs1 mv hc hr hlow
      refine herr _ _ _ (compactedRecs ctx.nextSeq ctx.index) ?_
      rw [hc]
      rw [hc, hr] at mv
      exact .full ⟨cs, rfl⟩ mv hlow
    · exact fun hl cs ctx1 m1 recs1 ctx2 m2 mv sp hc =>
        herr _ _ _ _ (hsame ctx2 ctx1 (.spoilt hl ⟨cs, rfl⟩ mv sp) hc)
  | markDelivered id =>
    simp only [StorageOps.call, sFlashqOps, opMarkDelivered, Prog.bind_eq, Prog.pure_eq, wp_bind,
      wp_ret]
    refine wp_retireEntry hquiet b hQ ?_ ?_ ?_ ?_ hcut
    · exact fun hnone => herr _ _ _ _ (.refused ⟨rfl, hnone⟩)
    · intro pos e ctx1 m1 recs1 c2 ctx2 m2 hpos he mv up hc
      refine hok _ _ _ (updatedRecs ctx1.core recs1 e.id (e.progress.inState .delivered)) ?_
      rw [hc]
      exact .retired (.delivered id) hpos he mv up
    · intro ctx1 m1 recs1 mv hc hr hlow
      refine herr _ _ _ (compactedRecs ctx.nextSeq ctx.index) ?_
      rw [hc]
      rw [hc, hr] at mv
      exact .full rfl mv hlow
    · exact fun hl ctx1 m1 recs1 ctx2 m2 mv sp hc =>
        herr _ _ _ _ (hsame ctx2 ctx1 (.spoilt hl rfl mv sp) hc)
  | remove id =>
    simp only [StorageOps.call, sFlashqOps, opRemove, Prog.bind_eq, Prog.pure_eq, wp_bind, wp_ret]
    refine wp_retireEntry hquiet b hQ ?_ ?_ ?_ ?_ hcut
    · exact fun hnone => herr _ _ _ _ (.refused ⟨rfl, hnone⟩)
    · intro pos e ctx1 m1 recs1 c2 ctx2 m2 hpos he mv up hc
      refine hok _ _ _ (updatedRecs ctx1.core recs1 e.id (e.progress.inState .removed)) ?_
      rw [hc]
      exact .retired (.removed id) hpos he mv up
    · intro ctx1 m1 recs1 mv hc hr hlow
      refine herr _ _ _ (compactedRecs ctx.nextSeq ctx.index) ?_
      rw [hc]
      rw [hc, hr] at mv
      exact .full rfl mv hlow
    · exact fun hl ctx1 m1 recs1 ctx2 m2 mv sp hc =>
        herr _ _ _ _ (hsame ctx2 ctx1 (.spoilt hl rfl mv sp) hc)
  | scheduleRetry id nextRetryTimeUs deadLetter lastError =>
    simp only [StorageOps.call, sFlashqOps, Prog.bind_eq, Prog.pure_eq, wp_bind, wp_ret]
    refine wp_opScheduleRetry hquiet b hQ ?_ ?_ ?_ ?_ hcut
    · exact fun hnone => herr _ _ _ _ (.refused ⟨rfl, hnone⟩)
    · exact fun pos e ctx1 m1 recs1 ctx2 m2 hpos he mv up =>
        hok _ _ _ _ (.retried hpos he mv up)
    · intro pos ctx1 m1 recs1 hpos mv hc hr hlow
      refine herr _ _ _ (compactedRecs ctx.nextSeq
        (ctx.core.stagedAt pos nextRetryTimeUs deadLetter lastError).index) ?_
      rw [hc]
      rw [hc, hr] at mv
      exact .full ⟨pos, hpos, rfl⟩ mv hlow
    · exact fun hl pos ctx1 m1 recs1 ctx2 m2 hpos mv sp hc =>
        herr _ _ _ _ (hsame ctx2 ctx1 (.spoilt hl ⟨pos, hpos, rfl⟩ mv sp) hc)
  | findDropCandidate policy =>
    simp only [StorageOps.call, sFlashqOps, opFindDropCandidate, Prog.bind_eq, Prog.pure_eq,
      wp_bind, wp_read]
    cases hsel : selectDrop policy (ctx.index.map (·.toEntryMeta)) with
    | none => exact wp_fail.mpr (herr _ _ _ _ (.refused ⟨rfl, hsel⟩))
    | some pos =>
      obtain ⟨a, ha, _⟩ := pick_some hsel
      rw [List.getElem?_map] at ha
      obtain ⟨e, he, rfl⟩ := Option.map_eq_some_iff.mp ha
      simp only [wp_bind]
      refine wp_entryAt he ?_
      simp only [wp_ret]
      exact hok _ _ _ _ (.looked ⟨pos, e, hsel, he, rfl⟩)
  | getStats stats =>
    simp only [StorageOps.call, sFlashqOps, opGetStats, Prog.bind_eq, Prog.pure_eq, wp_bind,
      wp_read, wp_ret]
    exact hok _ _ _ _ (.looked ⟨ctx.compactionsTotal, rfl⟩)

end EdgeSync
