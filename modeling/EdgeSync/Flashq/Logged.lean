/-
  Flashq/Logged.lean --- the log over runs without faults.

  With unique ids every message has one record in the log, and none of them finds
  the index of its writer full.  A restart that fails for want of space leaves such
  a log as well.
-/
import EdgeSync.Flashq.Subscan
import EdgeSync.Live

set_option autoImplicit false

namespace EdgeSync

open Foundation

variable {cfg : FlashqConfig} {labels : List FlashqStepLabel}

variable (cfg) in
/-- The messages of the log were published, each is recorded once, and none was
refused. -/
structure LogOk (labels : List FlashqStepLabel) (recs : List (Nat × RecordHdr)) : Prop where
  unrefused : Unrefused cfg recs
  unique : (recordedIds recs).Nodup
  published : ∀ id ∈ recordedIds recs, id ∈ publishedIds labels

/-! ## One record -/

section Records

variable {recs : List (Nat × RecordHdr)} {off : Nat} {h : RecordHdr}

theorem LogOk.snoc (ok : LogOk cfg labels recs) (ht : h.type ≠ RecordType.message.code) :
    LogOk cfg labels (recs ++ [(off, h)]) where
  unrefused := ok.unrefused.snoc fun hm => absurd hm ht
  unique := by
    rw [recordedIds_snoc_of_ne ht]
    exact ok.unique
  published := by
    rw [recordedIds_snoc_of_ne ht]
    exact ok.published

theorem LogOk.mono {labels' : List FlashqStepLabel} (ok : LogOk cfg labels recs)
    (h : ∀ id ∈ publishedIds labels, id ∈ publishedIds labels') : LogOk cfg labels' recs :=
  ⟨ok.unrefused, ok.unique, fun id hid => h id (ok.published id hid)⟩

/-- A new message. -/
theorem LogOk.message (ok : LogOk cfg labels recs) {label : FlashqStepLabel}
    (ht : h.type = RecordType.message.code)
    (hroom : (replay cfg recs).index.length < cfg.indexCapacity)
    (hnew : h.messageId ∉ publishedIds labels)
    (hpub : h.messageId ∈ publishedIds (labels ++ [label])) :
    LogOk cfg (labels ++ [label]) (recs ++ [(off, h)]) where
  unrefused := ok.unrefused.snoc fun _ => hroom
  unique := by
    rw [recordedIds_snoc, if_pos ht]
    refine ok.unique.append (List.nodup_singleton _) fun id hid hid' => hnew ?_
    rw [← List.mem_singleton.mp hid']
    exact ok.published id hid
  published := by
    rw [recordedIds_snoc, if_pos ht]
    intro id hid
    rcases List.mem_append.mp hid with hid | hid
    · exact mem_published_init (ok.published id hid) label
    · rwa [List.mem_singleton.mp hid]

theorem LogOk.nil : LogOk cfg labels [] := ⟨.nil, List.nodup_nil, by simp [recordedIds]⟩

/-- The records compaction writes. -/
theorem recordedIds_copiedRecs (off : Nat) (seq : UInt32) (index : List FlashqIndexEntry) :
    recordedIds (copiedRecs off seq index) = index.map (·.id) := by
  induction index generalizing off seq with
  | nil => rfl
  | cons e es ih =>
    have ih' := ih (off + e.recordSize) (seq + 1)
    rw [copiedRecs, recordedIds, List.filter_cons, if_pos (by rfl), List.map_cons, ← recordedIds, ih',
      List.map_cons]
    rfl

theorem unrefused_copiedRecs (off : Nat) (seq : UInt32) (index : List FlashqIndexEntry)
    (hroom : index.length ≤ cfg.indexCapacity) : Unrefused cfg (copiedRecs off seq index) := by
  induction index using List.reverseRecOn with
  | nil => exact .nil
  | append_singleton es e ih =>
    rw [List.length_append, List.length_singleton] at hroom
    rw [copiedRecs_append]
    refine (ih (by omega)).snoc fun _ => ?_
    have h := @foldl_copiedRecs cfg [] 0 off seq es (by rw [List.length_nil]; omega)
    rw [replay, h, List.nil_append]
    show (placed off es).length < cfg.indexCapacity
    rw [length_placed]
    omega

theorem LogOk.compacted {index : List FlashqIndexEntry} (seq : UInt32)
    (hroom : index.length ≤ cfg.indexCapacity) (hids : (index.map (·.id)).Nodup)
    (hpub : ∀ id ∈ index.map (·.id), id ∈ publishedIds labels) :
    LogOk cfg labels (compactedRecs seq index) := by
  have hcopied : LogOk cfg labels (copiedRecs dataStart seq index) := by
    refine ⟨unrefused_copiedRecs _ _ _ hroom, ?_, ?_⟩
    · rwa [recordedIds_copiedRecs]
    · rwa [recordedIds_copiedRecs]
  exact hcopied.snoc (show RecordType.endMarker.code ≠ RecordType.message.code by decide)

end Records

/-! ## One call -/

section Steps

variable {P : List FlashqStepLabel → List StoredMessage → Prop} {c c' c1 c2 : Core}
  {m m' m1 m2 : Memory} {recs recs' recs1 : List (Nat × RecordHdr)}

theorem LogOk.moved (ok : LogOk cfg labels recs) (mv : Moved (quiet cfg) c m recs c1 m1 recs1)
    (hroom : c.index.length ≤ cfg.indexCapacity) (hids : (c.index.map (·.id)).Nodup)
    (hpub : ∀ id ∈ c.index.map (·.id), id ∈ publishedIds labels) : LogOk cfg labels recs1 := by
  rcases mv.how with ⟨_, _, rfl⟩ | ⟨_, rfl⟩
  · exact ok
  · exact .compacted _ hroom hids hpub

theorem LogOk.updated (ok : LogOk cfg labels recs) (id : UInt64) (p : Progress) :
    LogOk cfg labels (updatedRecs c recs id p) :=
  ok.snoc (show RecordType.update.code ≠ RecordType.message.code by decide)

/-- What is known of the ids of a context. -/
structure IdsKnown (cfg : FlashqConfig) (labels : List FlashqStepLabel)
    (index : List FlashqIndexEntry) : Prop where
  room : index.length ≤ cfg.indexCapacity
  nodup : (index.map (·.id)).Nodup
  published : ∀ id ∈ index.map (·.id), id ∈ publishedIds labels

theorem TrackedOn.idsKnown (h : TrackedOn cfg P labels c m recs) : IdsKnown cfg labels c.index := by
  refine ⟨h.base.room, h.nodup, ?_⟩
  rw [← messageIds_queue c m]
  exact h.ids.published

theorem IdsKnown.stagedAt (h : IdsKnown cfg labels c.index) (pos : Nat) (nextRetryTimeUs : Int64)
    (deadLetter : Bool) (lastError : Int32) :
    IdsKnown cfg labels (c.stagedAt pos nextRetryTimeUs deadLetter lastError).index := by
  have hids : (c.stagedAt pos nextRetryTimeUs deadLetter lastError).index.map (·.id) =
      c.index.map (·.id) := stagedAt_ids c pos _ _ _
  refine ⟨?_, by rw [hids]; exact h.nodup, by rw [hids]; exact h.published⟩
  have hlen := congrArg List.length hids
  rw [List.length_map, List.length_map] at hlen
  rw [hlen]
  exact h.room

/-- A call keeps the log. -/
theorem LogOk.call {op : StorageOp} {res : Except EspErr StorageReply}
    (ok : LogOk cfg labels recs) (hk : IdsKnown cfg labels c.index)
    (hu : (publishedIds (labels ++ [.call op res])).Nodup)
    (ef : Effect (quiet cfg) c m recs op res c' m' recs') :
    LogOk cfg (labels ++ [.call op res]) recs' := by
  have hmono : ∀ {recs}, LogOk cfg labels recs → LogOk cfg (labels ++ [.call op res]) recs :=
    fun ok => ok.mono fun id hid => mem_published_init hid _
  have hprep : ∀ {cS}, Prepared c cS op → IdsKnown cfg labels cS.index := by
    intro cS prep
    cases op with
    | claimNext nowUs =>
      obtain ⟨_, rfl⟩ := prep
      exact hk
    | scheduleRetry id nextRetryTimeUs deadLetter lastError =>
      obtain ⟨pos, _, rfl⟩ := prep
      exact hk.stagedAt pos _ _ _
    | findDropCandidate policy => exact prep.elim
    | getStats stats => exact prep.elim
    | _ =>
      cases prep
      exact hk
  cases ef with
  | refused why => exact hmono ok
  | looked seen => exact hmono ok
  | full prepared moved low =>
    have hkS := hprep prepared
    exact hmono (ok.moved moved hkS.room hkS.nodup hkS.published)
  | spoilt lossy prepared moved left => exact lossy.elim
  | @enqueued message c1 c2 m1 m2 recs1 moved enqueued =>
    have ok1 := ok.moved moved hk.room hk.nodup hk.published
    have hlen := congrArg List.length moved.base.same
    have hroom := enqueued.room
    rw [List.length_map, List.length_map] at hlen
    exact ok1.message rfl (by omega) (fresh_of_unique hu rfl) (mem_published_last rfl)
  | claimed selected entry borrowed moved updated =>
    exact hmono ((ok.moved moved hk.room hk.nodup hk.published).updated _ _)
  | retired retires found entry moved updated =>
    exact hmono ((ok.moved moved hk.room hk.nodup hk.published).updated _ _)
  | @retried id nextRetryTimeUs deadLetter lastError pos _ _ _ _ _ _ found entry moved updated =>
    have hkS := hk.stagedAt pos nextRetryTimeUs deadLetter lastError
    exact hmono ((ok.moved moved hkS.room hkS.nodup hkS.published).updated _ _)

/-! ## Runs -/

variable (cfg labels) in
/-- The queue holds what is owed, and the log is sound. -/
structure LoggedOn (c : Core) (m : Memory) (recs : List (Nat × RecordHdr)) : Prop
    extends TrackedOn cfg LiveQueue labels c m recs where
  ok : LogOk cfg labels recs

/-- The log of the one ACTIVE region. -/
structure LoggedRegion (cfg : FlashqConfig) (labels : List FlashqStepLabel) (m : Memory) (r : Fin 2) :
    Prop where
  one : ¬ IsActive (view cfg m (1 - r))
  exists_log : ∃ recs e, Log cfg (view cfg m r) dataStart recs e ∧
    acceptAt cfg (view cfg m r) e = none ∧ LogOk cfg labels recs

/-- What a run keeps. -/
def Logged (cfg : FlashqConfig) (labels : List FlashqStepLabel) : FlashqSystem → Prop
  | .on ctx m => ∃ recs, LoggedOn cfg labels ctx.core m recs
  | .off m => Tracked cfg LiveQueue labels (.off m) ∧
      ∀ r, IsActive (view cfg m r) → LoggedRegion cfg labels m r

/-- A running backend leaves its log. -/
theorem Base.loggedRegion (b : Base (quiet cfg) c m recs) (ok : LogOk cfg labels recs) (r : Fin 2)
    (hr : IsActive (view cfg m r)) : LoggedRegion cfg labels m r := by
  rcases eq_or_eq_other r c.region with rfl | rfl
  · exact ⟨b.spare, recs, c.cursor, b.log, (quiet cfg).tail_stop b.tail, ok⟩
  · exact absurd hr b.spare

/-- The power goes while the context is as after `c`. -/
theorem Base.logged (b : Base (quiet cfg) c m recs) (ok : LogOk cfg labels recs)
    {q : List StoredMessage} (hids : c.index.map (·.id) = messageIds q) (hknown : KnownIds labels q)
    (hlive : LiveQueue labels q) : Logged cfg labels (.off m) := by
  have hq : messageIds (contents (view cfg m c.region) (replay cfg recs).index) = messageIds q := by
    rw [messageIds_contents, ← ids_of_keys b.same, hids]
  refine ⟨b.image ⟨⟨?_, ?_⟩, hlive.of_messageIds hq⟩, b.loggedRegion ok⟩
  · rw [hq]
    exact hknown.nodup
  · rw [hq]
    exact hknown.published

/-- A step that is no call changes nothing that is known. -/
theorem Logged.restart {s : FlashqSystem} {label : FlashqStepLabel} (h : Logged cfg labels s)
    (hop : label.op? = none) : Logged cfg (labels ++ [label]) s := by
  have hmono : ∀ {recs : List (Nat × RecordHdr)}, LogOk cfg labels recs →
      LogOk cfg (labels ++ [label]) recs :=
    fun ok => ok.mono fun id hid => mem_published_init hid label
  cases s with
  | on ctx m =>
    obtain ⟨recs, hlog⟩ := h
    exact ⟨recs, ⟨hlog.base, hlog.same, hlog.ids.restart, hlog.holds.restart hop⟩, hmono hlog.ok⟩
  | off m =>
    obtain ⟨htr, hlog⟩ := h
    refine ⟨Image.mono htr fun q hq => ⟨hq.1.restart, hq.2.restart hop⟩, fun r hr => ?_⟩
    obtain ⟨hone, recs, e, log, hstop, ok⟩ := hlog r hr
    exact ⟨hone, recs, e, log, hstop, hmono ok⟩

/-- `op_recover` keeps the log, also where it fails for want of space. -/
theorem Logged.boot (h : Logged cfg labels (.off m)) :
    wp cfg.device calmEnv (opRecover cfg)
      ⟨fun _ ctx' m' => Logged cfg labels (.on ctx' m'),
        fun _ _ m' => Logged cfg labels (.off m'), fun _ => True⟩ (FlashqCtx.fresh cfg) m := by
  obtain ⟨htr, hlog⟩ := h
  have hrequeue : RequeueInvariant (quiet cfg) (LoggedOn cfg labels) fun _ => True := by
    refine ⟨fun _ _ => trivial, fun _ _ _ _ => updateQueues_true, ?_⟩
    intro c m recs pos e c1 m1 recs1 c2 m2 hJ _ he hin mv up
    have hk := hJ.toTrackedOn.idsKnown.stagedAt pos 0 false e.lastError
    exact ⟨hJ.toTrackedOn.requeue liveQueue_keptByRequeue he hin mv up,
      (hJ.ok.moved mv hk.room hk.nodup hk.published).updated _ _⟩
  refine wp_opRecover (R := quiet cfg) (J := LoggedOn cfg labels) htr hrequeue
    (fun _ _ => trivial) ?_ ?_ ?_ ?_ (fun hl => hl.elim) (fun hm => hm.elim) fun _ _ => trivial
  · intro c0 m0 recs0 ho hq
    obtain ⟨recs, e, log, hstop, ok⟩ := (hlog c0.region ho.chosen.active).exists_log
    have hstop0 : acceptAt cfg (view cfg m c0.region) c0.cursor = none := by
      refine (quiet cfg).tail_stop ((quiet cfg).tail_congr ?_ ho.base.tail)
      exact (ho.chosen.agree.mono (Nat.zero_le _) (Nat.le_refl _)).symm
    obtain ⟨rfl, _⟩ := ho.log.unique log hstop0 hstop
    exact ⟨⟨ho.base, by rw [ho.replay_eq]; exact LensEq.refl _ _, hq.1, hq.2⟩, ok⟩
  · intro hnone ctx' m' hcore b
    obtain ⟨_, hids, hP⟩ := htr.fresh hnone
    refine ⟨[], ⟨b, ?_, ?_, ?_⟩, .nil⟩ <;> rw [hcore]
    · rfl
    · exact hids
    · exact hP
  · exact fun _ _ _ _ _ recs' _ _ _ hJ _ => ⟨recs', hJ⟩
  · intro _ _ _ _ _ _ _ _ m' _ ⟨c, m1, recs, pos, e, c1, recs1, hJ, _, _, _, mv⟩
    have hk := hJ.toTrackedOn.idsKnown.stagedAt pos 0 false e.lastError
    refine mv.base.logged (hJ.ok.moved mv hk.room hk.nodup hk.published)
      (q := c.queue cfg m1) ?_ hJ.ids hJ.holds
    rw [messageIds_queue, ← stagedAt_ids c pos 0 false e.lastError]
    exact ids_of_metas mv.metas

/-- One step without faults. -/
theorem Logged.step {label : FlashqStepLabel} {s s' : FlashqSystem} (h : Logged cfg labels s)
    (step : FlashqStep cfg quietWorld s label s') (hu : (publishedIds (labels ++ [label])).Nodup)
    (hfit : ∀ op, label.op? = some op → op.Fits cfg.maxMessageSize) :
    Logged cfg (labels ++ [label]) s' := by
  have hcall : ∀ {ctx : FlashqCtx} {m : Memory} {op : StorageOp}
      {res : Except EspErr StorageReply} {s' : FlashqSystem}, Logged cfg labels (.on ctx m) →
      (publishedIds (labels ++ [.call op res])).Nodup → op.Fits cfg.maxMessageSize →
      FlashqStep cfg quietWorld (.on ctx m) (.call op res) s' →
      Logged cfg (labels ++ [.call op res]) s' := by
    intro ctx m op res s' ⟨recs, hlog⟩ hu hfit step
    obtain ⟨ctx', m', recs', rfl, ef⟩ := quiet_effect hlog.base hfit step
    exact ⟨recs', hlog.toTrackedOn.call queueInvariant_live hu ef,
      hlog.ok.call hlog.toTrackedOn.idsKnown hu ef⟩
  have hstep := step
  cases step with
  | returned run => exact hcall h hu (hfit _ rfl) hstep
  | failed run => exact hcall h hu (hfit _ rfl) hstep
  | cut run => exact absurd hstep quiet_not_callCut
  | stop =>
    obtain ⟨recs, hlog⟩ := h
    refine Logged.restart ?_ rfl
    exact hlog.base.logged hlog.ok (messageIds_queue _ _).symm hlog.ids hlog.holds
  | boot run => exact Logged.restart (wp_sound run h.boot) rfl
  | bootFail run => exact Logged.restart (wp_sound run h.boot) rfl
  | bootCut run => exact absurd hstep quiet_not_bootCut

/-- A run without faults keeps the log. -/
theorem Logged.run {s s' : FlashqSystem} {labels' : List FlashqStepLabel} (h : Logged cfg labels s)
    (run : FlashqRun cfg quietWorld s labels' s') (hu : (publishedIds (labels ++ labels')).Nodup)
    (hfit : AllFit cfg labels') : Logged cfg (labels ++ labels') s' := by
  induction run with
  | nil => rwa [List.append_nil]
  | @snoc labels' s1 s2 label run step ih =>
    rw [← List.append_assoc] at hu ⊢
    exact (ih (unique_init hu) hfit.init).step step hu fun op hop => hfit.last hop

theorem logged_erased : Logged cfg [] (.off erasedFlash) :=
  ⟨image_erased ⟨⟨List.nodup_nil, fun _ h => absurd h List.not_mem_nil⟩, .refl _⟩,
    fun r hr => absurd hr (erased_not_active r)⟩

end Steps

end EdgeSync
