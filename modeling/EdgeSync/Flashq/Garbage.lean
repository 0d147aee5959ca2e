/-
  Flashq/Garbage.lean --- the records that await compaction.

  `awaiting_gc_count` goes up by one where a message leaves the index, and starts over
  with compaction, which copies live messages only.  So it counts the MESSAGE records
  of the log whose message is no longer indexed.
-/
import EdgeSync.Flashq.Logged
import EdgeSync.Flashq.Reopen

set_option autoImplicit false

namespace EdgeSync

open Foundation

variable {cfg : FlashqConfig}

/-! ## The log -/

section Log

variable {recs : List (Nat × RecordHdr)}

theorem length_recordedIds_le (recs : List (Nat × RecordHdr)) :
    (recordedIds recs).length ≤ recs.length := by
  rw [recordedIds, List.length_map]
  exact List.length_filter_le _ _

/-- What the scan counts: every recorded message is indexed, or was retired. -/
theorem Unrefused.awaitingGcCount (unrefused : Unrefused cfg recs)
    (hlt : (recordedIds recs).length < 2 ^ 32) :
    (replay cfg recs).index.length + (replay cfg recs).awaitingGcCount.toNat =
      (recordedIds recs).length := by
  induction unrefused with
  | nil => rfl
  | @snoc recs off h before room ih =>
    rw [recordedIds_snoc] at hlt ⊢
    rw [List.length_append] at hlt ⊢
    have ih' := ih (by omega)
    rw [replay_snoc]
    by_cases htm : h.type = RecordType.message.code
    · rw [Replay.apply_message htm (room htm), if_pos htm]
      simp only [List.length_append, List.length_singleton]
      omega
    rw [if_neg htm] at hlt ⊢
    by_cases htu : h.type = RecordType.update.code
    · cases hpos : findEntry (replay cfg recs).index h.messageId with
      | none => rwa [Replay.apply, if_neg htm, if_pos htu, hpos]
      | some pos =>
        cases hs : isFinal h.state with
        | false =>
          rw [Replay.apply_update htu hpos hs]
          simp only [List.length_modify]
          exact ih'
        | true =>
          rw [Replay.apply_final htu hpos hs]
          obtain ⟨e, he, _⟩ := findEntry_some hpos
          have hpos' := (List.getElem?_eq_some_iff.mp he).1
          simp only [length_swapRemove]
          rw [List.length_nil, Nat.add_zero] at hlt ⊢
          have hone : (1 : UInt32).toNat = 1 := rfl
          rw [UInt32.toNat_add, hone, Nat.mod_eq_of_lt (by omega)]
          omega
    · rwa [Replay.apply, if_neg htm, if_neg htu]

/-- The messages of a log whose message is no longer indexed. -/
def awaitingGc (recs : List (Nat × RecordHdr)) (ids : List UInt64) : List (Nat × RecordHdr) :=
  recs.filter fun x => x.2.type = RecordType.message.code ∧ x.2.messageId ∉ ids

theorem length_awaitingGc (ids : List UInt64) :
    (awaitingGc recs ids).length = ((recordedIds recs).filter fun id => id ∉ ids).length := by
  rw [recordedIds, List.filter_map, List.length_map, List.filter_filter, awaitingGc]
  congr 1
  refine List.filter_congr fun x _ => ?_
  simp [Bool.and_comm]

/-- The indexed messages of a log are part of the recorded ones. -/
theorem length_filter_recorded {ids : List UInt64} (hnodup : (recordedIds recs).Nodup)
    (hids : ids.Nodup) (hsub : ∀ id ∈ ids, id ∈ recordedIds recs) :
    ids.length + ((recordedIds recs).filter fun id => id ∉ ids).length =
      (recordedIds recs).length := by
  have hperm : ((recordedIds recs).filter fun id => id ∈ ids).Perm ids := by
    refine (List.perm_ext_iff_of_nodup (hnodup.filter _) hids).mpr fun id => ?_
    simp only [List.mem_filter, decide_eq_true_eq]
    exact ⟨fun h => h.2, fun h => ⟨hsub id h, h⟩⟩
  have hsplit := @List.length_eq_length_filter_add _ (recordedIds recs) fun id => decide (id ∈ ids)
  rw [hperm.length_eq] at hsplit
  simp only [decide_not]
  exact hsplit.symm

end Log

/-! ## Runs of calls -/

section Runs

variable {labels : List FlashqStepLabel} {c c' : Core} {m m' : Memory}
  {recs recs' : List (Nat × RecordHdr)}

variable (cfg labels) in
/-- The context of a backend that has run without faults, with a log in which every
message is recorded once. -/
structure Collected (c : Core) (m : Memory) (recs : List (Nat × RecordHdr)) : Prop
    extends Live cfg labels c m recs where
  ok : LogOk cfg labels recs

theorem Live.idsKnown (live : Live cfg labels c m recs) : IdsKnown cfg labels c.index := by
  refine ⟨live.base.room, ?_, ?_⟩
  · rw [← messageIds_queue c m]
    exact live.ids.nodup
  · rw [← messageIds_queue c m]
    exact live.ids.published

theorem Collected.call {op : StorageOp} {res : Except EspErr StorageReply}
    (h : Collected cfg labels c m recs) (hu : (publishedIds (labels ++ [.call op res])).Nodup)
    (ef : Effect (quiet cfg) c m recs op res c' m' recs') :
    Collected cfg (labels ++ [.call op res]) c' m' recs' :=
  ⟨h.toLive.call hu ef, h.ok.call h.toLive.idsKnown hu ef⟩

/-- What the counter counts. -/
theorem Collected.awaitingGcCount (h : Collected cfg labels c m recs) :
    c.awaitingGcCount.toNat = (awaitingGc recs (c.index.map (·.id))).length := by
  have hk := h.toLive.idsKnown
  have hlog := h.base.log.length_le
  have hend := h.base.cursor_le
  have hsize := cfg.regionSize_lt
  have hlt : (recordedIds recs).length < 2 ^ 32 := by
    have := length_recordedIds_le recs
    omega
  have hcount := h.ok.unrefused.awaitingGcCount hlt
  rw [h.replay_eq] at hcount
  have hsub : ∀ id ∈ c.index.map (·.id), id ∈ recordedIds recs := by
    have hscan : Subscan cfg cfg recs := h.ok.unrefused.subscan h.ok.unique
    intro id hid
    obtain ⟨e, he, rfl⟩ := List.mem_map.mp hid
    exact hscan.recorded e (by rw [h.replay_eq]; exact he)
  have hfilter := length_filter_recorded h.ok.unique hk.nodup hsub
  rw [length_awaitingGc]
  rw [List.length_map] at hfilter
  simp only at hcount
  omega

/-- Every run of calls on a partition that was erased before. -/
theorem collected_run {ctx0 ctx : FlashqCtx} {m0 : Memory}
    (boot : FlashqStep cfg quietWorld (.off erasedFlash) .booted (.on ctx0 m0))
    (run : FlashqRun cfg quietWorld (.on ctx0 m0) labels (.on ctx m)) (hcalls : OnlyCalls labels)
    (hu : (publishedIds labels).Nodup) (hfit : AllFit cfg labels) :
    ∃ recs, Collected cfg labels ctx.core m recs := by
  suffices h : ∀ s, FlashqRun cfg quietWorld (.on ctx0 m0) labels s →
      ∃ ctx m recs, s = .on ctx m ∧ Collected cfg labels ctx.core m recs by
    obtain ⟨ctx1, m1, recs, heq, hcollected⟩ := h _ run
    cases heq
    exact ⟨recs, hcollected⟩
  clear run
  intro s run
  induction run with
  | nil =>
    cases boot with
    | boot hrun =>
      obtain ⟨hcore, hbase⟩ := boot_erased (R := quiet cfg) hrun
      rw [hcore] at hbase
      exact ⟨ctx0, m0, [], rfl, hcore ▸ ⟨Live.initialized hbase, .nil⟩⟩
  | @snoc labels s' s'' label run step ih =>
    obtain ⟨ctx, m, recs, rfl, hcollected⟩ := ih
      (fun l hl => hcalls l (List.mem_append_left _ hl)) (unique_init hu) hfit.init
    obtain ⟨op, res, rfl⟩ := hcalls label (List.mem_append_right _ (List.mem_singleton.mpr rfl))
    obtain ⟨ctx', m', recs', rfl, ef⟩ := quiet_effect hcollected.base (hfit.last rfl) step
    exact ⟨ctx', m', recs', rfl, hcollected.call hu ef⟩

end Runs

end EdgeSync
