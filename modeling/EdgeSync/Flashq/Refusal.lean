/-
  Flashq/Refusal.lean --- calls that are refused.

  A call that finds no space has compacted the log first, from the index as it is at
  that time.  `op_schedule_retry` assigns the fields of the entry before it asks for
  space: when it is refused, they stay in the index and the compaction has made them
  durable.  Every other refused call leaves the queue as it was.
-/
import EdgeSync.Flashq.Drain
import EdgeSync.Live

set_option autoImplicit false

namespace EdgeSync

open Foundation

/-- The log of an ACTIVE region replays to the queue. -/
def ReplaysTo (cfg : FlashqConfig) (m : Memory) (q : List StoredMessage) : Prop :=
  ∃ r recs e, IsActive (view cfg m r) ∧ Log cfg (view cfg m r) dataStart recs e ∧
    acceptAt cfg (view cfg m r) e = none ∧ contents (view cfg m r) (replay cfg recs).index = q

/-- The index is as before but for the offsets, and the log replays to the same
queue. -/
structure Untouched (cfg : FlashqConfig) (ctx : FlashqCtx) (m : Memory) (ctx' : FlashqCtx)
    (m' : Memory) : Prop where
  index : ctx'.index.map (·.toEntryMeta) = ctx.index.map (·.toEntryMeta)
  durable : ∀ q, ReplaysTo cfg m' q ↔ ReplaysTo cfg m q

/-- A retry of a message in the queue finds no room for its record, and the fields it
assigns first differ from those of the entry. -/
def StagesInVain (cfg : FlashqConfig) (ctx : FlashqCtx) : StorageOp → Prop
  | .scheduleRetry id nextRetryTimeUs deadLetter lastError => ∃ (pos : Nat) (e : FlashqIndexEntry),
      findEntry ctx.index id = some pos ∧ ctx.index[pos]? = some e ∧
      cfg.dataCapacity < liveBytes ctx.index + updateSize + updateSize ∧
      e.progress.staged nextRetryTimeUs deadLetter lastError ≠ e.progress
  | _ => False

section Refusals

variable {cfg : FlashqConfig} {c : Core} {m : Memory} {recs : List (Nat × RecordHdr)}
  {labels : List FlashqStepLabel}

/-- There is one log to replay. -/
theorem Base.replaysTo_iff {q : List StoredMessage} (b : Base (quiet cfg) c m recs) :
    ReplaysTo cfg m q ↔ contents (view cfg m c.region) (replay cfg recs).index = q := by
  constructor
  · rintro ⟨r, recs', e, hr, log, hstop, rfl⟩
    rcases eq_or_eq_other r c.region with rfl | rfl
    · obtain ⟨rfl, _⟩ := b.log.unique log ((quiet cfg).tail_stop b.tail) hstop
      rfl
    · exact absurd hr b.spare
  · exact fun h => ⟨c.region, recs, c.cursor, b.active, b.log, (quiet cfg).tail_stop b.tail, h⟩

/-- A compaction of the index `cS` leaves its entries, in RAM and in the log. -/
theorem Moved.compacted_queue {cS : Core} {m' : Memory} (b : Base (quiet cfg) c m recs)
    (hlen : cS.index.length = c.index.length)
    (mv : Moved (quiet cfg) cS m recs cS.compacted m' (compactedRecs cS.nextSeq cS.index))
    (q : List StoredMessage) : ReplaysTo cfg m' q ↔ cS.queue cfg m = q := by
  have hroom : cS.index.length ≤ cfg.indexCapacity := by
    rw [hlen]
    exact b.room
  rw [mv.base.replaysTo_iff, replay_of_compacted hroom, ← mv.queue_eq]
  rfl

/-- Where the fields are as before, staging them changes nothing. -/
theorem stagedAt_eq {pos : Nat} {e : FlashqIndexEntry} {nextRetryTimeUs : Int64} {deadLetter : Bool}
    {lastError : Int32} (he : c.index[pos]? = some e)
    (hsame : e.progress.staged nextRetryTimeUs deadLetter lastError = e.progress) :
    c.stagedAt pos nextRetryTimeUs deadLetter lastError = c := by
  have hindex : (c.index.modify pos fun e =>
      e.withProgress (e.progress.staged nextRetryTimeUs deadLetter lastError)) = c.index := by
    rw [modify_of_getElem? he, hsame]
    exact set_of_getElem? he
  rw [Core.stagedAt, hindex]

theorem getElem?_stagedAt {pos : Nat} {e : FlashqIndexEntry} (he : c.index[pos]? = some e)
    (nextRetryTimeUs : Int64) (deadLetter : Bool) (lastError : Int32) :
    (c.stagedAt pos nextRetryTimeUs deadLetter lastError).index[pos]? =
      some (e.withProgress (e.progress.staged nextRetryTimeUs deadLetter lastError)) := by
  rw [Core.stagedAt, modify_of_getElem? he]
  exact List.getElem?_set_self (List.getElem?_eq_some_iff.mp he).1

/-- Only a retry stages fields. -/
theorem Prepared.eq_of_not_retry {op : StorageOp} {cS : Core} (prep : Prepared c cS op)
    (hop : ∀ id nextRetryTimeUs deadLetter lastError,
      op ≠ .scheduleRetry id nextRetryTimeUs deadLetter lastError) :
    cS.index = c.index ∧ cS.region = c.region := by
  cases op with
  | claimNext nowUs =>
    obtain ⟨_, rfl⟩ := prep
    exact ⟨rfl, rfl⟩
  | scheduleRetry id next dead err => exact absurd rfl (hop id next dead err)
  | findDropCandidate policy => exact prep.elim
  | getStats stats => exact prep.elim
  | _ =>
    cases prep
    exact ⟨rfl, rfl⟩

/-- What a refused call leaves. -/
theorem Effect.untouched_iff {op : StorageOp} {err : EspErr} {m' : Memory}
    {recs' : List (Nat × RecordHdr)} {ctx ctx' : FlashqCtx}
    (htr : TrackedOn cfg LiveQueue labels ctx.core m recs)
    (ef : Effect (quiet cfg) ctx.core m recs op (.error err) ctx'.core m' recs') :
    Untouched cfg ctx m ctx' m' ↔ ¬ StagesInVain cfg ctx op := by
  have hbefore : ∀ q, ReplaysTo cfg m q ↔ ctx.core.queue cfg m = q := by
    intro q
    rw [htr.base.replaysTo_iff, htr.queue_eq]
  generalize hc' : ctx'.core = c' at ef
  have hindex : ctx'.index = c'.index := congrArg Core.index hc'
  generalize hres : (Except.error err : Except EspErr StorageReply) = res at ef
  cases ef with
  | refused why =>
    refine ⟨fun _ => ?_, fun _ => ⟨by rw [hindex]; rfl, fun _ => Iff.rfl⟩⟩
    cases op with
    | scheduleRetry id nextRetryTimeUs deadLetter lastError =>
      rintro ⟨pos, e, hfound, _⟩
      rw [show findEntry ctx.index id = none from why.2] at hfound
      exact absurd hfound (by simp)
    | _ => exact fun h => h
  | full prepared moved low =>
    have hdurable := moved.compacted_queue htr.base prepared.length
    have hmetas := moved.metas
    by_cases hretry : ∃ id nextRetryTimeUs deadLetter lastError,
        op = .scheduleRetry id nextRetryTimeUs deadLetter lastError
    · obtain ⟨id, nextRetryTimeUs, deadLetter, lastError, rfl⟩ := hretry
      obtain ⟨pos, hfound, rfl⟩ := prepared
      obtain ⟨e, he, _⟩ := findEntry_some hfound
      constructor
      · rintro hun ⟨pos', e', hfound', he', _, hne⟩
        obtain rfl : pos = pos' := Option.some.inj (hfound.symm.trans hfound')
        -- the index shows the fields that were staged
        have hstaged := getElem?_stagedAt (c := ctx.core) he' nextRetryTimeUs deadLetter lastError
        have hat := congrArg (·[pos]?) (hun.index.symm.trans (hindex ▸ hmetas))
        simp only [List.getElem?_map, hstaged, he', Option.map_some] at hat
        exact hne (congrArg EntryMeta.progress (Option.some.inj hat)).symm
      · intro hnot
        have hsame : e.progress.staged nextRetryTimeUs deadLetter lastError = e.progress := by
          by_contra hne
          exact hnot ⟨pos, e, hfound, he, low, hne⟩
        have hcS := stagedAt_eq (c := ctx.core) he hsame
        refine ⟨?_, fun q => ?_⟩
        · rw [hindex, hmetas, hcS]
          rfl
        · rw [hbefore q, hdurable q, hcS]
    · have hsame := prepared.eq_of_not_retry fun id next dead err h => hretry ⟨id, next, dead, err, h⟩
      refine ⟨fun _ => ?_, fun _ => ⟨?_, fun q => ?_⟩⟩
      · cases op with
        | scheduleRetry id next dead err => exact absurd ⟨id, next, dead, err, rfl⟩ hretry
        | _ => exact fun h => h
      · rw [hindex, hmetas, hsame.1]
        rfl
      · rw [hbefore q, hdurable q, Core.queue, hsame.1, hsame.2]
        rfl
  | spoilt lossy prepared moved left => exact lossy.elim
  | looked seen => cases hres
  | enqueued moved enqueued => cases hres
  | claimed selected entry borrowed moved updated => cases hres
  | retired retires found entry moved updated => cases hres
  | retried found entry moved updated => cases hres

/-- A refused call leaves the queue as it was, in RAM and in the log, unless it is a
retry whose fields were staged in vain. -/
theorem refused_untouched {ctx ctx' : FlashqCtx} {m' : Memory} {op : StorageOp} {err : EspErr}
    (run : FlashqRun cfg quietWorld (.off erasedFlash) labels (.on ctx m))
    (hu : (publishedIds labels).Nodup) (hfit : AllFit cfg labels)
    (hop : op.Fits cfg.maxMessageSize)
    (step : FlashqStep cfg quietWorld (.on ctx m) (.call op (.error err)) (.on ctx' m')) :
    Untouched cfg ctx m ctx' m' ↔ ¬ StagesInVain cfg ctx op := by
  obtain ⟨recs, htr⟩ := tracked_live run hu hfit
  obtain ⟨ctx2, m2, recs2, hsys, ef⟩ := quiet_effect htr.base hop step
  cases hsys
  exact ef.untouched_iff htr

end Refusals

/-! ## A retry without room -/

/-- The retry of a message whose claim has no room. -/
theorem fullMessage_not_retried {c c' : Core} {m m' : Memory} {recs recs' : List (Nat × RecordHdr)}
    {res : Except EspErr StorageReply} (hlive : liveBytes c.index = 4028)
    (hfound : findEntry c.index 7 = some 0)
    (ef : Effect (quiet fullConfig) c m recs (.scheduleRetry 7 99 false 5) res c' m' recs') :
    res = .error .storage := by
  cases ef with
  | refused why => exact absurd (hfound.symm.trans why.2) (by simp)
  | looked seen => exact seen.elim
  | full prepared moved low => rfl
  | spoilt lossy prepared moved left => exact lossy.elim
  | retired retires found entry moved updated => cases retires
  | retried found entry moved updated =>
    have hroom := updated.room
    have hsame := moved.liveBytes_eq
    have hstaged : liveBytes (c.stagedAt 0 99 false 5).index = liveBytes c.index :=
      liveBytes_congr (map_modify_of_eq fun _ _ => rfl)
    obtain rfl := Option.some.inj (found.symm.trans hfound)
    rw [hsame, hstaged, hlive] at hroom
    exact absurd hroom (by decide)

/-- The message is queued, and its retry is refused. -/
theorem fullMessage_retry : ∃ ctx m ctx' m',
    FlashqRun fullConfig quietWorld (.off erasedFlash)
      [.booted, .call (.enqueue fullMessage) (.ok .done)] (.on ctx m) ∧
    AllFit fullConfig [.booted, .call (.enqueue fullMessage) (.ok .done)] ∧
    ctx.index.map (·.toEntryMeta) = metas [StoredMessage.ofMessage fullMessage] ∧
    FlashqStep fullConfig quietWorld (.on ctx m)
      (.call (.scheduleRetry 7 99 false 5) (.error .storage)) (.on ctx' m') ∧
    StagesInVain fullConfig ctx (.scheduleRetry 7 99 false 5) := by
  obtain ⟨ctx, m, recs, run, hfit, b, hq, hlive⟩ := fullMessage_queued
  have hmetas : ctx.index.map (·.toEntryMeta) = metas [StoredMessage.ofMessage fullMessage] := by
    rw [← hq, Core.queue, metas_contents]
    rfl
  have hfound : findEntry ctx.index 7 = some 0 := by
    have h : findMessage (ctx.core.queue fullConfig m) 7 = some 0 := by
      rw [hq]
      rfl
    exact (findEntry_contents _ _ _).symm.trans h
  obtain ⟨res2, ctx2, m2, recs2, step2, ef2⟩ := quiet_call (.scheduleRetry 7 99 false 5) b trivial
  obtain rfl := fullMessage_not_retried hlive hfound ef2
  refine ⟨ctx, m, ctx2, m2, run, hfit, hmetas, step2, ?_⟩
  obtain ⟨e, he, _⟩ := findEntry_some hfound
  have hmeta : e.toEntryMeta = (StoredMessage.ofMessage fullMessage).toEntryMeta := by
    have hat := congrArg (·[0]?) hmetas
    simp only [List.getElem?_map, he] at hat
    exact Option.some.inj hat
  refine ⟨0, e, hfound, he, by rw [hlive]; decide, ?_⟩
  rw [hmeta]
  decide

/-- The refused retry has changed the entry. -/
theorem refused_retry_stays : ∃ ctx m ctx' m',
    FlashqRun fullConfig quietWorld (.off erasedFlash)
      [.booted, .call (.enqueue fullMessage) (.ok .done)] (.on ctx m) ∧
    AllFit fullConfig [.booted, .call (.enqueue fullMessage) (.ok .done)] ∧
    FlashqStep fullConfig quietWorld (.on ctx m)
      (.call (.scheduleRetry 7 99 false 5) (.error .storage)) (.on ctx' m') ∧
    ¬ Untouched fullConfig ctx m ctx' m' := by
  obtain ⟨ctx, m, ctx', m', run, hfit, hmetas, step, hvain⟩ := fullMessage_retry
  obtain ⟨recs, htr⟩ := tracked_live run (by decide) hfit
  have hfits : (StorageOp.scheduleRetry 7 99 false 5).Fits fullConfig.maxMessageSize := trivial
  obtain ⟨ctx2, m2, recs2, hsys, ef⟩ := quiet_effect htr.base hfits step
  cases hsys
  exact ⟨ctx, m, ctx', m', run, hfit, step, fun hun => (ef.untouched_iff htr).mp hun hvain⟩

/-- The refused retry of that message is the exception. -/
theorem refused_untouched_full : ∃ ctx m ctx' m',
    FlashqStep fullConfig quietWorld (.on ctx m)
      (.call (.scheduleRetry 7 99 false 5) (.error .storage)) (.on ctx' m') ∧
    (Untouched fullConfig ctx m ctx' m' ↔
      ¬ StagesInVain fullConfig ctx (.scheduleRetry 7 99 false 5)) := by
  obtain ⟨ctx, m, ctx', m', run, hfit, _, step, _⟩ := fullMessage_retry
  have hfits : (StorageOp.scheduleRetry 7 99 false 5).Fits fullConfig.maxMessageSize := trivial
  exact ⟨ctx, m, ctx', m', step, refused_untouched run (by decide) hfit hfits step⟩

end EdgeSync
