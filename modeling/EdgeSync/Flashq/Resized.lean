/-
  Flashq/Resized.lean --- the partition under another `max_messages`.

  The log does not say how many messages its writer allowed.  A backend with a
  smaller index reads it all the same, and keeps the messages that are owed exactly
  when none of their records finds its index full.
-/
import EdgeSync.Flashq.Logged
import Mathlib.Algebra.Order.BigOperators.Group.List

set_option autoImplicit false

namespace EdgeSync

open Foundation

/-- The configuration with another `max_messages`. -/
def FlashqConfig.resized (cfg : FlashqConfig) (n : UInt32) (hn : n ≠ 0) : FlashqConfig :=
  { cfg with
    maxMessages := n
    maxMessages_ne := hn }

/-- In the log of the ACTIVE region every message that is owed has its record where
an index of `n` entries has room. -/
def ScanKeeps (cfg : FlashqConfig) (labels : List FlashqStepLabel) (m : Memory) (n : Nat) : Prop :=
  ∀ r recs e, IsActive (view cfg m r) → Log cfg (view cfg m r) dataStart recs e →
    acceptAt cfg (view cfg m r) e = none → ∀ id ∈ liveIds labels, FindsRoom n recs id

section Resized

variable {cfg : FlashqConfig} {n : UInt32} {hn : n ≠ 0} {labels : List FlashqStepLabel} {m : Memory}

/-- The format of the log does not depend on the setting. -/
theorem Log.resized {v : Memory} {off e : Nat} {recs : List (Nat × RecordHdr)}
    (log : Log cfg v off recs e) : Log (cfg.resized n hn) v off recs e := by
  induction log with
  | nil off => exact .nil off
  | cons accepted rest ih => exact .cons accepted ih

theorem Located.resized {v : Memory} {limit : Nat} {e : FlashqIndexEntry}
    (h : Located cfg v limit e) : Located (cfg.resized n hn) v limit e :=
  ⟨h.record, h.lower, h.upper, h.destinationLen_le, h.payloadLen_le, h.destination_ne⟩

/-- Part of an index takes no more bytes. -/
theorem liveBytes_le_of_subset {es fs : List FlashqIndexEntry} (hnodup : es.Nodup)
    (h : ∀ e ∈ es, e ∈ fs) : liveBytes es ≤ liveBytes fs := by
  obtain ⟨gs, hperm, hsub⟩ := List.subperm_of_subset hnodup h
  rw [liveBytes, liveBytes, ← (hperm.map fun e => e.toEntryMeta.recordSize).sum_nat]
  exact (hsub.map _).sum_le_sum fun _ _ => Nat.zero_le _

variable (cfg labels m n) in
/-- What a restart with the other setting finds. -/
structure FoundLive (q : List StoredMessage) : Prop where
  owed : ∀ id ∈ messageIds q, id ∈ liveIds labels
  all_iff : (∀ id ∈ liveIds labels, id ∈ messageIds q) ↔ ScanKeeps cfg labels m n.toNat

/-- The log, read with the other setting. -/
theorem Logged.image_resized (h : Logged cfg labels (.off m)) :
    Image (quiet (cfg.resized n hn)) m fun q => KnownIds labels q ∧ FoundLive cfg n labels m q := by
  obtain ⟨img, hlog⟩ := h
  refine ⟨fun r hr => ?_, img.spare, fun hnone => ⟨(img.fresh hnone).1, ?_⟩⟩
  · obtain ⟨q, ⟨hids, hlive⟩, good⟩ := img.active r hr
    obtain ⟨recs, e, log, tail, located, fit, rfl⟩ := good.exists_log
    obtain ⟨hone, recs', e', log', hstop', ok⟩ := hlog r hr
    obtain ⟨rfl, rfl⟩ := log.unique log' ((quiet cfg).tail_stop tail) hstop'
    have sub : Subscan (cfg.resized n hn) cfg recs := ok.unrefused.subscan ok.unique
    have hsubset : ∀ id ∈ (replay (cfg.resized n hn) recs).index.map (·.id),
        id ∈ (replay cfg recs).index.map (·.id) := by
      intro id hid
      obtain ⟨x, hx, rfl⟩ := List.mem_map.mp hid
      exact List.mem_map.mpr ⟨x, sub.subset x hx, rfl⟩
    rw [LiveQueue, messageIds_contents] at hlive
    refine ⟨contents (view cfg m r) (replay (cfg.resized n hn) recs).index, ⟨⟨?_, ?_⟩, ?_, ?_⟩,
      recs, e, log.resized, tail, fun x hx => (located x (sub.subset x hx)).resized, ?_, rfl⟩
    · rw [messageIds_contents]
      exact sub.ids'
    · rw [messageIds_contents]
      intro id hid
      refine hids.published id ?_
      rw [messageIds_contents]
      exact hsubset id hid
    · rw [messageIds_contents]
      exact fun id hid => hlive.mem_iff.mp (hsubset id hid)
    · rw [messageIds_contents]
      -- of the messages that are owed the scan keeps those whose records find room
      have hkeeps : ∀ id ∈ liveIds labels,
          id ∈ (replay (cfg.resized n hn) recs).index.map (·.id) ↔ FindsRoom n.toNat recs id := by
        intro id hid
        obtain ⟨x, hx, rfl⟩ := List.mem_map.mp (hlive.mem_iff.mpr hid)
        exact sub.keeps x hx
      constructor
      · intro hall r' recs2 e2 hr' log2 hstop2 id hid
        have hr2 : r' = r := by
          rcases eq_or_eq_other r' r with h | h
          · exact h
          · rw [h] at hr'
            exact absurd hr' hone
        rw [hr2] at log2 hstop2
        have heq := (log.unique log2 ((quiet cfg).tail_stop tail) hstop2).1
        rw [← heq]
        exact (hkeeps id hid).mp (hall id hid)
      · intro hroom id hid
        exact (hkeeps id hid).mpr
          (hroom r recs e hr log ((quiet cfg).tail_stop tail) id hid)
    · have hle := liveBytes_le_of_subset (sub.ids'.of_map _) sub.subset
      exact Nat.le_trans (Nat.add_le_add_right hle _) fit
  · obtain ⟨_, hids, hlive⟩ := img.fresh hnone
    have hnil : liveIds labels = [] := List.nil_perm.mp hlive
    refine ⟨hids, fun _ h => absurd h List.not_mem_nil, ?_⟩
    rw [hnil]
    exact ⟨fun _ r _ _ hr => absurd hr (hnone r), fun _ _ h => absurd h List.not_mem_nil⟩

/-- A restart with the other setting. -/
theorem Logged.boot_resized {s : FlashqSystem} (h : Logged cfg labels (.off m))
    (step : FlashqStep (cfg.resized n hn) quietWorld (.off m) .booted s) :
    Tracked (cfg.resized n hn) (fun _ => FoundLive cfg n labels m) labels s := by
  have himg : Tracked (cfg.resized n hn) (fun _ => FoundLive cfg n labels m) labels (.off m) :=
    h.image_resized
  have hkeep : KeptByRequeue (fun _ => FoundLive cfg n labels m) labels := by
    intro q s pos _ hq _ _
    constructor
    · rw [messageIds_modify]
      exact hq.owed
    · rw [messageIds_modify]
      exact hq.all_iff
  cases step with
  | boot run => exact wp_sound run (himg.boot hkeep)

/-- The restart kept what is owed. -/
theorem LiveQueue.of_found {q : List StoredMessage} (hids : KnownIds labels q)
    (hfound : FoundLive cfg n labels m q) (hnodup : (liveIds labels).Nodup)
    (hkeeps : ScanKeeps cfg labels m n.toNat) : LiveQueue labels q :=
  (List.perm_ext_iff_of_nodup hids.nodup hnodup).mpr fun id =>
    ⟨hfound.owed id, hfound.all_iff.mpr hkeeps id⟩

/-- A running backend indexes the messages. -/
def FlashqSystem.indexes : FlashqSystem → List UInt64 → Prop
  | .on ctx _, ids => ∀ id ∈ ids, id ∈ ctx.index.map (·.id)
  | .off _, _ => True

theorem Tracked.indexes {s : FlashqSystem} (h : Tracked cfg LiveQueue labels s) :
    s.indexes (liveIds labels) := by
  cases s with
  | off m => trivial
  | on ctx m =>
    obtain ⟨recs, htr⟩ := h
    have hlive := htr.holds
    rw [LiveQueue, messageIds_queue] at hlive
    exact fun id hid => hlive.mem_iff.mpr hid

/-- A log that has room for all that is owed loses nothing of it, in no run under
the other setting. -/
theorem Logged.run_resized {labels' : List FlashqStepLabel} {s : FlashqSystem}
    (h : Logged cfg labels (.off m)) (hkeeps : ScanKeeps cfg labels m n.toNat)
    (run : FlashqRun (cfg.resized n hn) quietWorld (.off m) labels' s)
    (hu : (publishedIds (labels ++ labels')).Nodup) (hfit : AllFit (cfg.resized n hn) labels') :
    s.indexes (liveIds (labels ++ labels')) := by
  have hnodup : (publishedIds labels).Nodup := by
    rw [publishedIds, List.filterMap_append] at hu
    exact hu.of_append_left
  have himg : Tracked (cfg.resized n hn) LiveQueue labels (.off m) :=
    h.image_resized.mono fun q hq => ⟨hq.1, .of_found hq.1 hq.2 (nodup_liveIds hnodup).1 hkeeps⟩
  exact (himg.live_run run hu hfit).indexes

/-- A restart under the other setting indexes all that is owed only if the log has
room for it. -/
theorem Logged.indexes_iff {s : FlashqSystem} (h : Logged cfg labels (.off m))
    (step : FlashqStep (cfg.resized n hn) quietWorld (.off m) .booted s) :
    s.indexes (liveIds labels) ↔ ScanKeeps cfg labels m n.toNat := by
  have htr := h.boot_resized step
  cases step with
  | boot run =>
    obtain ⟨recs, htr⟩ := htr
    have hiff := htr.holds.all_iff
    rwa [messageIds_queue] at hiff

end Resized

end EdgeSync
