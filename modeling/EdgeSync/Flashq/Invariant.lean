/-
  Flashq/Invariant.lean --- what every effect preserves.

  Three layers: the flash invariant `Base`; the agreement of the index with the
  replay of its log, seen through a lens; and the abstract queue, which moves by
  `QueueStep` whatever the flash does underneath.
-/
import EdgeSync.Flashq.Requeue

set_option autoImplicit false

namespace EdgeSync

open Foundation

variable {cfg : FlashqConfig} {R : Regime cfg}

/-! ## The flash invariant -/

section Flash

variable {c cS c' : Core} {m m' : Memory} {recs recs' : List (Nat × RecordHdr)} {op : StorageOp}
  {res : Except EspErr StorageReply}

theorem Prepared.base (prep : Prepared c cS op) (b : Base R c m recs) : Base R cS m recs := by
  cases op with
  | claimNext nowUs =>
    obtain ⟨claimScratch, rfl⟩ := prep
    exact b.withClaimScratch claimScratch
  | scheduleRetry id nextRetryTimeUs deadLetter lastError =>
    obtain ⟨pos, _, rfl⟩ := prep
    exact b.stagedAt pos nextRetryTimeUs deadLetter lastError
  | findDropCandidate policy => exact prep.elim
  | getStats stats => exact prep.elim
  | _ =>
    cases prep
    exact b

/-- Staging keeps what never changes. -/
theorem Prepared.keys (prep : Prepared c cS op) :
    cS.index.map FlashqIndexEntry.key = c.index.map FlashqIndexEntry.key := by
  cases op with
  | claimNext nowUs =>
    obtain ⟨claimScratch, rfl⟩ := prep
    rfl
  | scheduleRetry id nextRetryTimeUs deadLetter lastError =>
    obtain ⟨pos, _, rfl⟩ := prep
    exact map_modify_of_eq fun _ _ => rfl
  | findDropCandidate policy => exact prep.elim
  | getStats stats => exact prep.elim
  | _ =>
    cases prep
    rfl

theorem Moved.ids {c1 : Core} {m1 : Memory} {recs1 : List (Nat × RecordHdr)}
    (mv : Moved R c m recs c1 m1 recs1) : c1.index.map (·.id) = c.index.map (·.id) := by
  have h := congrArg (List.map EntryMeta.id) mv.metas
  simpa [List.map_map, Function.comp_def] using h

theorem Moved.findEntry {c1 : Core} {m1 : Memory} {recs1 : List (Nat × RecordHdr)}
    (mv : Moved R c m recs c1 m1 recs1) (id : UInt64) :
    findEntry c1.index id = findEntry c.index id := findEntry_congr mv.ids id

theorem Retires.isFinal {id : UInt64} {newState : FlashqState} (h : Retires op id newState)
    (p : Progress) : isFinal (p.inState newState).state = true := by
  cases h <;> rfl

theorem isFinal_claimed (nowUs : Int64) (p : Progress) : isFinal (p.claimed nowUs).state = false :=
  rfl

theorem isFinal_retried (nextRetryTimeUs : Int64) (deadLetter : Bool) (lastError : Int32)
    (p : Progress) : isFinal (p.retried nextRetryTimeUs deadLetter lastError).state = false := by
  cases deadLetter <;> rfl

/-- The id of an entry that was looked up. -/
theorem id_of_findEntry {index : List FlashqIndexEntry} {id : UInt64} {pos : Nat}
    {e : FlashqIndexEntry} (h : findEntry index id = some pos) (he : index[pos]? = some e) :
    e.id = id := by
  obtain ⟨e', he', hid⟩ := findEntry_some h
  obtain rfl := Option.some.inj (he.symm.trans he')
  exact hid

/-- Staging changes no id. -/
theorem stagedAt_ids (c : Core) (pos : Nat) (nextRetryTimeUs : Int64) (deadLetter : Bool)
    (lastError : Int32) :
    (c.stagedAt pos nextRetryTimeUs deadLetter lastError).index.map (·.id) =
      c.index.map (·.id) := map_modify_of_eq fun _ _ => rfl

/-- Every call keeps the flash invariant. -/
theorem Effect.base (ef : Effect R c m recs op res c' m' recs') (b : Base R c m recs) :
    Base R c' m' recs' := by
  cases ef with
  | refused why => exact b
  | looked seen => exact b
  | full prepared moved low => exact moved.base
  | spoilt lossy prepared moved left => exact moved.base.spoilt left
  | enqueued moved enqueued => exact enqueued.base moved.base
  | claimed selected entry borrowed moved updated =>
    exact updated.base moved.base (isFinal_claimed _ _)
  | retired retires found entry moved updated =>
    refine updated.retired moved.base ?_ (retires.isFinal _)
    rw [moved.findEntry, id_of_findEntry found entry]
    exact found
  | retried found entry moved updated =>
    exact updated.base moved.base (isFinal_retried _ _ _ _)

end Flash

/-! ## Agreement with the log -/

section Agreement

variable {c c' : Core} {m m' : Memory} {recs recs' : List (Nat × RecordHdr)} {op : StorageOp}
  {res : Except EspErr StorageReply} {β : Type} {L : Lens β}

theorem findEntry_of_nodup {index : List FlashqIndexEntry} {pos : Nat} {e : FlashqIndexEntry}
    (h : (index.map (·.id)).Nodup) (he : index[pos]? = some e) :
    findEntry index e.id = some pos := findPos_of_nodup h he

/-- Making space keeps the agreement, and a compaction restores it. -/
theorem Moved.staged {c1 : Core} {m1 : Memory} {recs1 : List (Nat × RecordHdr)} {pos : Nat}
    (mv : Moved R c m recs c1 m1 recs1) (hroom : c.index.length ≤ cfg.indexCapacity)
    (h : Staged L pos c.index (replay cfg recs).index) :
    Staged L pos c1.index (replay cfg recs1).index := by
  rcases mv.how with ⟨rfl, rfl, rfl⟩ | ⟨rfl, rfl⟩
  · exact h
  · rw [replay_of_compacted hroom]
    exact (LensEq.refl L _).staged pos

theorem Moved.lensEq {c1 : Core} {m1 : Memory} {recs1 : List (Nat × RecordHdr)}
    (mv : Moved R c m recs c1 m1 recs1) (hroom : c.index.length ≤ cfg.indexCapacity)
    (h : LensEq L c.index (replay cfg recs).index) :
    LensEq L c1.index (replay cfg recs1).index := by
  rcases mv.how with ⟨rfl, rfl, rfl⟩ | ⟨rfl, rfl⟩
  · exact h
  · rw [replay_of_compacted hroom]
    exact LensEq.refl L _

theorem Prepared.length {cS : Core} (prep : Prepared c cS op) :
    cS.index.length = c.index.length := by
  simpa using congrArg List.length prep.keys

/-- Every call keeps the agreement, as long as what a spoilt call staged cannot
be seen. -/
theorem Effect.lensEq (ef : Effect R c m recs op res c' m' recs') (b : Base R c m recs)
    (hu : (c.index.map (·.id)).Nodup) (h : LensEq L c.index (replay cfg recs).index)
    (hstage : R.lossy → ∀ cS, Prepared c cS op → LensEq L cS.index c.index) :
    LensEq L c'.index (replay cfg recs').index := by
  cases ef with
  | refused why => exact h
  | looked seen => exact h
  | full prepared moved low =>
    rw [replay_of_compacted (by rw [prepared.length]; exact b.room)]
    exact LensEq.refl L _
  | spoilt lossy prepared moved left =>
    exact moved.lensEq (by rw [prepared.length]; exact b.room)
      ((hstage lossy _ prepared).trans h)
  | enqueued moved enqueued => exact enqueued.lensEq moved.base (moved.lensEq b.room h)
  | claimed selected entry borrowed moved updated =>
    refine updated.lensEq moved.base ?_ (isFinal_claimed _ _) (moved.staged b.room (h.staged _))
    rw [moved.findEntry]
    exact findEntry_of_nodup hu entry
  | retired retires found entry moved updated =>
    refine updated.retired_lensEq moved.base ?_ (retires.isFinal _)
      (moved.staged b.room (h.staged _))
    rw [moved.findEntry]
    exact findEntry_of_nodup hu entry
  | @retried id nextRetryTimeUs deadLetter lastError pos e c1 _ m1 _ recs1 found entry moved
      updated =>
    have hroom : (c.stagedAt pos nextRetryTimeUs deadLetter lastError).index.length ≤
        cfg.indexCapacity := (b.stagedAt pos nextRetryTimeUs deadLetter lastError).room
    refine updated.lensEq moved.base ?_ (isFinal_retried _ _ _ _) (moved.staged hroom
      ((h.staged pos).modify fun x => x.progress.staged nextRetryTimeUs deadLetter lastError))
    rw [moved.findEntry, findEntry_congr (stagedAt_ids c pos _ _ _)]
    exact findEntry_of_nodup hu entry

theorem Updated.awaitingGcCount {c1 c2 : Core} {m1 m2 : Memory} {pos : Nat} {id : UInt64}
    {p : Progress} (up : Updated R c1 m1 pos id p c2 m2) :
    c2.awaitingGcCount = c1.awaitingGcCount := by
  rw [up.core_eq]

theorem Moved.awaitingGcCount {c1 : Core} {m1 : Memory} {recs1 : List (Nat × RecordHdr)}
    (mv : Moved R c m recs c1 m1 recs1) (hroom : c.index.length ≤ cfg.indexCapacity)
    (h : c.awaitingGcCount = (replay cfg recs).awaitingGcCount) :
    c1.awaitingGcCount = (replay cfg recs1).awaitingGcCount := by
  rcases mv.how with ⟨rfl, rfl, rfl⟩ | ⟨rfl, rfl⟩
  · exact h
  · rw [replay_of_compacted hroom]

/-- The count of retired messages is the replay's. -/
theorem Effect.awaitingGcCount (ef : Effect R c m recs op res c' m' recs') (b : Base R c m recs)
    (hu : (c.index.map (·.id)).Nodup)
    (h : c.awaitingGcCount = (replay cfg recs).awaitingGcCount) :
    c'.awaitingGcCount = (replay cfg recs').awaitingGcCount := by
  cases ef with
  | refused why => exact h
  | looked seen => exact h
  | full prepared moved low =>
    rw [replay_of_compacted (by rw [prepared.length]; exact b.room)]
  | @spoilt _ cS _ _ _ _ lossy prepared moved left =>
    refine moved.awaitingGcCount (by rw [prepared.length]; exact b.room) ?_
    have hcS : cS.awaitingGcCount = c.awaitingGcCount := by
      cases op with
      | claimNext nowUs =>
        obtain ⟨claimScratch, rfl⟩ := prepared
        rfl
      | scheduleRetry id nextRetryTimeUs deadLetter lastError =>
        obtain ⟨pos, _, rfl⟩ := prepared
        rfl
      | findDropCandidate policy => exact prepared.elim
      | getStats stats => exact prepared.elim
      | _ =>
        cases prepared
        rfl
    rw [hcS, h]
  | @enqueued message c1 c2 m1 m2 recs1 moved enqueued =>
    have hroom : (replay cfg recs1).index.length < cfg.indexCapacity := by
      rw [moved.base.length_eq]
      exact enqueued.room
    rw [replay_enqueuedRecs hroom, enqueued.core_eq]
    exact moved.awaitingGcCount b.room h
  | claimed selected entry borrowed moved updated =>
    rw [Updated.replay_eq moved.base (by rw [moved.findEntry]; exact findEntry_of_nodup hu entry)
      (isFinal_claimed _ _), updated.awaitingGcCount]
    exact moved.awaitingGcCount b.room h
  | @retired _ id newState pos e c1 c2 m1 _ recs1 retires found entry moved updated =>
    rw [Updated.replay_final moved.base (by rw [moved.findEntry]; exact findEntry_of_nodup hu entry)
      (retires.isFinal _), ← moved.awaitingGcCount b.room h, ← updated.awaitingGcCount]
    rfl
  | @retried id nextRetryTimeUs deadLetter lastError pos e c1 _ m1 _ recs1 found entry moved
      updated =>
    have hpos : findEntry c1.index e.id = some pos := by
      rw [moved.findEntry, findEntry_congr (stagedAt_ids c pos _ _ _)]
      exact findEntry_of_nodup hu entry
    rw [Updated.replay_eq moved.base hpos (isFinal_retried _ _ _ _), updated.awaitingGcCount]
    exact moved.awaitingGcCount (b.stagedAt pos nextRetryTimeUs deadLetter lastError).room h

/-- Entries with equal keys and equal fields are equal. -/
theorem index_eq_of_lensEq {A B : List FlashqIndexEntry}
    (hk : A.map FlashqIndexEntry.key = B.map FlashqIndexEntry.key) (h : LensEq Lens.all A B) :
    A = B := by
  apply List.ext_getElem? fun i => ?_
  have hki := congrArg (·[i]?) hk
  have hi := congrArg (·[i]?) h
  simp only [List.getElem?_map] at hki hi
  cases ha : A[i]? with
  | none =>
    rw [ha] at hi
    exact (Option.map_eq_none_iff.mp hi.symm).symm
  | some a =>
    rw [ha] at hi hki
    obtain ⟨b, hb, hmeta⟩ := Option.map_eq_some_iff.mp hi.symm
    rw [hb] at hki ⊢
    have hoff : a.messageOffset = b.messageOffset :=
      congrArg Prod.snd (Option.some.inj hki)
    obtain ⟨ma, oa⟩ := a
    obtain ⟨mb, ob⟩ := b
    cases hmeta
    cases hoff
    rfl

end Agreement

/-! ## The abstract queue -/

section Queue

variable {c c' : Core} {m m' : Memory} {recs recs' : List (Nat × RecordHdr)} {op : StorageOp}
  {res : Except EspErr StorageReply}

/-- The messages of a context. -/
def Core.queue (cfg : FlashqConfig) (c : Core) (m : Memory) : List StoredMessage :=
  contents (view cfg m c.region) c.index

theorem metas_contents (v : Memory) (index : List FlashqIndexEntry) :
    metas (contents v index) = index.map (·.toEntryMeta) := by
  rw [metas, contents, List.map_map]
  rfl

theorem contents_getElem? {v : Memory} {index : List FlashqIndexEntry} {pos : Nat}
    {e : FlashqIndexEntry} (he : index[pos]? = some e) :
    (contents v index)[pos]? = some (contentOf v e) := by
  rw [contents, List.getElem?_map, he]
  rfl

/-- What a call staged, seen from the queue. -/
theorem Prepared.queueStep {cS : Core} (prep : Prepared c cS op) (m : Memory) :
    QueueStep (c.queue cfg m) op (.error .storage) (cS.queue cfg m) := by
  cases op with
  | claimNext nowUs =>
    obtain ⟨claimScratch, rfl⟩ := prep
    exact .refused
  | scheduleRetry id nextRetryTimeUs deadLetter lastError =>
    obtain ⟨pos, hpos, rfl⟩ := prep
    have hc : (c.stagedAt pos nextRetryTimeUs deadLetter lastError).queue cfg m =
        (c.queue cfg m).modify pos
          (·.change (Progress.staged nextRetryTimeUs deadLetter lastError)) :=
      contents_modify _ c.index pos _
    rw [hc]
    exact .staged ((findEntry_contents _ _ _).trans hpos)
  | findDropCandidate policy => exact prep.elim
  | getStats stats => exact prep.elim
  | _ =>
    cases prep
    exact .refused

theorem Moved.queue_eq {c1 : Core} {m1 : Memory} {recs1 : List (Nat × RecordHdr)}
    (mv : Moved R c m recs c1 m1 recs1) : c1.queue cfg m1 = c.queue cfg m := mv.contents_eq

theorem Spoilt.queue_eq (b : Base R c m recs) (left : Spoilt R m c.region c.cursor m') :
    c.queue cfg m' = c.queue cfg m :=
  contents_congr (left.before.mono (Nat.zero_le _) (Nat.le_refl _)) b.located

/-- The message of an entry after it was changed. -/
theorem modify_change_const {q : List StoredMessage} {pos : Nat} {s : StoredMessage}
    (hs : q[pos]? = some s) (f : Progress → Progress) :
    q.modify pos (·.change fun _ => f s.toEntryMeta.progress) = q.modify pos (·.change f) := by
  rw [modify_of_getElem? hs, modify_of_getElem? hs]
  rfl

theorem Updated.queue_eq {c1 c2 : Core} {m1 m2 : Memory} {recs1 : List (Nat × RecordHdr)}
    {pos : Nat} {id : UInt64} {p : Progress} (up : Updated R c1 m1 pos id p c2 m2)
    (b : Base R c1 m1 recs1) :
    c2.queue cfg m2 = (c1.queue cfg m1).modify pos (·.change fun _ => p) := up.contents_index b

/-- The messages after an UPDATE whose fields were staged. -/
theorem Moved.staged_queue {c1 c2 : Core} {m1 m2 : Memory} {recs1 : List (Nat × RecordHdr)}
    {pos : Nat} {nextRetryTimeUs : Int64} {deadLetter : Bool} {lastError : Int32} {id : UInt64}
    {p : Progress}
    (moved : Moved R (c.stagedAt pos nextRetryTimeUs deadLetter lastError) m recs c1 m1 recs1)
    (updated : Updated R c1 m1 pos id p c2 m2) :
    c2.queue cfg m2 = (c.queue cfg m).modify pos (·.change fun _ => p) := by
  have hst : (c.stagedAt pos nextRetryTimeUs deadLetter lastError).queue cfg m =
      (c.queue cfg m).modify pos
        (·.change (Progress.staged nextRetryTimeUs deadLetter lastError)) :=
    contents_modify _ c.index pos _
  rw [updated.queue_eq moved.base, moved.queue_eq, hst, List.modify_modify_eq]
  rfl

/-- Every call takes a step of the abstract queue. -/
theorem Effect.queueStep (ef : Effect R c m recs op res c' m' recs') :
    QueueStep (c.queue cfg m) op res (c'.queue cfg m') := by
  cases ef with
  | refused why => exact .refused
  | looked seen =>
    rename_i reply
    cases op with
    | findDropCandidate policy =>
      cases reply with
      | candidate id =>
        obtain ⟨pos, e, hsel, he, rfl⟩ := seen
        have hq : selectDrop policy (metas (c.queue cfg m)) = some pos := by
          rw [Core.queue, metas_contents]
          exact hsel
        exact .candidate hq (contents_getElem? he)
      | _ => exact seen.elim
    | getStats stats =>
      cases reply with
      | stats stats' => exact .stats
      | _ => exact seen.elim
    | _ => exact seen.elim
  | full prepared moved low =>
    rw [moved.queue_eq]
    exact prepared.queueStep m
  | spoilt lossy prepared moved left =>
    rw [left.queue_eq moved.base, moved.queue_eq]
    exact prepared.queueStep m
  | @enqueued message _ _ _ _ _ moved enqueued =>
    have h : c'.queue cfg m' = c.queue cfg m ++ [StoredMessage.ofMessage message] := by
      rw [← moved.queue_eq]
      exact enqueued.contents_index moved.base
    rw [h]
    exact .enqueued
  | @claimed nowUs pos e claimScratch c1 c2 m1 m2 recs1 selected entry borrowed moved updated =>
    have hq := moved.queue_eq
    have hs : (c.queue cfg m)[pos]? = some (contentOf (view cfg m c.region) e) :=
      contents_getElem? entry
    have hqs : c1.queue cfg m1 = c.queue cfg m := hq
    have hch := modify_change_const hs (Progress.claimed nowUs)
    rw [updated.queue_eq moved.base, hqs]
    have hp : (contentOf (view cfg m c.region) e).toEntryMeta.progress = e.progress := rfl
    rw [hp] at hch
    rw [hch]
    refine .claimed ?_ hs
    rw [Core.queue, metas_contents]
    exact selected
  | @retired _ id newState pos e c1 c2 m1 _ recs1 retires found entry moved updated =>
    have h := updated.retired_contents moved.base
    have hr : (c2.retired pos).queue cfg m' = swapRemove (c.queue cfg m) pos := by
      rw [← moved.queue_eq]
      exact h
    rw [hr]
    exact .retired retires ((findEntry_contents _ _ _).trans found)
  | @retried id nextRetryTimeUs deadLetter lastError pos e c1 _ m1 _ recs1 found entry moved
      updated =>
    have hs : (c.queue cfg m)[pos]? = some (contentOf (view cfg m c.region) e) :=
      contents_getElem? entry
    have hch := modify_change_const hs (Progress.retried nextRetryTimeUs deadLetter lastError)
    rw [moved.staged_queue updated]
    refine Eq.subst (motive := fun q' => QueueStep _ _ _ q') hch.symm ?_
    exact .retried ((findEntry_contents _ _ _).trans found)

end Queue

end EdgeSync
