/-
  Restarts.lean --- what the requeue loops of `op_recover` make of the entries.

  Whatever the storage does, an `op_recover` that returned `ESP_OK` has settled all entries
  that its first pass found: none is in flight.
-/
import EdgeSync.Backends

set_option autoImplicit false

namespace EdgeSync

open Foundation

/-- The entries from `i` on are settled. -/
def settledFrom (q : List EntryMeta) (i : Nat) : List EntryMeta :=
  q.take i ++ (q.drop i).map EntryMeta.settle

theorem settledFrom_length {q : List EntryMeta} {i : Nat} (h : q.length ≤ i) : settledFrom q i = q := by
  rw [settledFrom, List.take_of_length_le h, List.drop_of_length_le h, List.map_nil, List.append_nil]

/-- One turn of a requeue loop. -/
theorem settledFrom_eq {q q' : List EntryMeta} {i : Nat} {e : EntryMeta} (he : q[i]? = some e)
    (hq : q' = q.modify i EntryMeta.settle) : settledFrom q i = settledFrom q' (i + 1) := by
  have hlt := (List.getElem?_eq_some_iff.mp he).1
  have hsplit : q = q.take i ++ e :: q.drop (i + 1) := by
    rw [← (List.getElem?_eq_some_iff.mp he).2, ← List.drop_eq_getElem_cons hlt, List.take_append_drop]
  have hlen : (q.take i).length = i := by
    rw [List.length_take]
    omega
  have hq' : q' = (q.take i ++ [e.settle]) ++ q.drop (i + 1) := by
    have hmodify := modify_append_cons EntryMeta.settle (q.take i) (q.drop (i + 1)) e
    rw [hlen, ← hsplit] at hmodify
    rw [hq, hmodify, List.append_assoc]
    rfl
  have hdrop : q.drop i = e :: q.drop (i + 1) := by
    rw [← (List.getElem?_eq_some_iff.mp he).2, ← List.drop_eq_getElem_cons hlt]
  have hlen' : (q.take i ++ [e.settle]).length = i + 1 := by
    rw [List.length_append, hlen, List.length_singleton]
  rw [settledFrom, settledFrom, hq', List.take_left' hlen', List.drop_left' hlen', hdrop,
    List.map_cons, List.append_assoc]
  rfl

/-- A turn that leaves the entry alone. -/
theorem modify_settle_of_ne {q : List EntryMeta} {i : Nat} {e : EntryMeta} (he : q[i]? = some e)
    (h : e.state ≠ FlashqState.inFlight.code) : q = q.modify i EntryMeta.settle := by
  rw [modify_of_getElem? he, EntryMeta.settle_of_ne h]
  obtain ⟨hlt, rfl⟩ := List.getElem?_eq_some_iff.mp he
  exact (List.set_getElem_self hlt).symm

/-- What a turn assigns to an entry in flight. -/
theorem settle_of_inFlight {e : EntryMeta} (h : e.state = FlashqState.inFlight.code) :
    e.settle = { e with state := FlashqState.pending.code, nextRetryAtUs := 0 } := by
  rw [EntryMeta.settle, Progress.requeued, if_pos (show e.progress.state = _ from h)]
  rfl

/-! ## The flash queue -/

section Flashq

variable (cfg : FlashqConfig)

theorem leaves_requeueLoop (n : Nat) {i : Nat} {ctx : FlashqCtx} (h : i + n = ctx.metas.length) :
    leaves (requeueLoop cfg n i) (fun _ c => c.metas = settledFrom ctx.metas i) (fun _ _ => True)
      ctx := by
  induction n generalizing i ctx with
  | zero => exact leaves_ret.mpr (settledFrom_length (by omega)).symm
  | succ n ih =>
    have hlt : i < ctx.index.length := by
      rw [FlashqCtx.metas, List.length_map] at h
      omega
    have he : ctx.index[i]? = some ctx.index[i] := List.getElem?_eq_getElem hlt
    have hx : ctx.metas[i]? = some ctx.index[i].toEntryMeta := by
      rw [FlashqCtx.metas, List.getElem?_map, he]
      rfl
    have hnext : ∀ {c : FlashqCtx}, c.metas = ctx.metas.modify i EntryMeta.settle →
        leaves (requeueLoop cfg n (i + 1)) (fun _ c' => c'.metas = settledFrom ctx.metas i)
          (fun _ _ => True) c := by
      intro c hc
      rw [settledFrom_eq hx hc]
      refine ih ?_
      rw [hc, List.length_modify]
      omega
    unfold requeueLoop
    simp only [Prog.bind_eq, leaves_bind]
    refine leaves_entryAt he ?_
    by_cases hstate : ctx.index[i].state = FlashqState.inFlight.code
    · rw [if_pos hstate]
      unfold assignEntry
      simp only [leaves_bind, leaves_modify]
      refine leaves_mono (leaves_appendStateUpdateLocked cfg i .pending _) (fun _ c hc => hnext ?_)
        fun _ _ _ => trivial
      rw [hc]
      have hmetas : ({ ctx with index := ctx.index.modify i fun e => { e with nextRetryAtUs := 0 } } :
          FlashqCtx).metas = ctx.metas.modify i
            (·.change fun p => { p with nextRetryAtUs := 0 }) := metas_modify i fun _ => rfl
      rw [hmetas, List.modify_modify_eq, modify_of_getElem? hx, modify_of_getElem? hx,
        settle_of_inFlight hstate]
      rfl
    · rw [if_neg hstate]
      exact hnext (modify_settle_of_ne hx hstate)

/-- After an `op_recover` that returned, the entries are settled ones. -/
theorem leaves_opRecover (ctx : FlashqCtx) :
    leaves (opRecover cfg) (fun _ c => ∃ q : List EntryMeta, c.metas = q.map EntryMeta.settle) (fun _ _ => True) ctx := by
  unfold opRecover recoverWith
  simp only [Prog.bind_eq]
  refine leaves_seq (leaves_true _ _) (fun x0 c0 _ => ?_) fun _ _ _ => trivial
  refine leaves_seq (leaves_true _ _) (fun x1 c1 _ => ?_) fun _ _ _ => trivial
  split
  · unfold reinitialize
    simp only [Prog.bind_eq]
    refine leaves_seq (leaves_true _ _) (fun _ c2 _ => ?_) fun _ _ _ => trivial
    refine leaves_seq (leaves_true _ _) (fun _ c3 _ => ?_) fun _ _ _ => trivial
    refine leaves_seq (leaves_true _ _) (fun _ c4 _ => ?_) fun _ _ _ => trivial
    exact leaves_modify.mpr ⟨[], rfl⟩
  · refine leaves_seq (leaves_true _ _) (fun _ c2 _ => ?_) fun _ _ _ => trivial
    unfold scanRegion
    simp only [Prog.bind_eq]
    refine leaves_seq (leaves_true _ _) (fun _ c3 _ => ?_) fun _ _ _ => trivial
    refine leaves_bind.mpr (leaves_read.mpr ?_)
    refine leaves_mono (leaves_requeueLoop cfg c3.index.length ?_) (fun _ c hc => ⟨c3.metas, ?_⟩)
      fun _ _ _ => trivial
    · rw [FlashqCtx.metas, List.length_map, Nat.zero_add]
    · exact hc

end Flashq

/-! ## The NVS backend -/

section Nvs

variable (cfg : NvsConfig)

/-- A turn for an entry in flight. -/
theorem leaves_requeueSlot {i : Nat} {e : NvsIndexEntry} {ctx : NvsCtx}
    (he : ctx.index[i]? = some e) (hstate : e.state = FlashqState.inFlight.code) :
    leaves (requeueSlot cfg i) (fun _ c => c.metas = ctx.metas.modify i EntryMeta.settle)
      (fun _ _ => True) ctx := by
  have hx : ctx.metas[i]? = some e.toEntryMeta := by
    rw [NvsCtx.metas, List.getElem?_map, he]
    rfl
  unfold requeueSlot nvsAssignEntry
  simp only [Prog.bind_eq, leaves_bind]
  refine leaves_nvsEntryAt he ?_
  refine leaves_mono (keeps_readAndVerify cfg e.slot ctx) (fun hdr c1 h1 => ?_) fun _ _ _ => trivial
  simp only [leaves_read, leaves_modify]
  generalize hc2 : NvsCtx.mk _ _ _ _ = c2
  have hm2 : c2.metas = ctx.metas.modify i
      (·.change fun p => { p with state := FlashqState.pending.code, nextRetryAtUs := 0 }) := by
    rw [← hc2, ← NvsCtx.metas_eq h1]
    exact nvs_metas_modify i fun _ => rfl
  have he2 : ∃ e2, c2.index[i]? = some e2 := by
    rw [← hc2, h1]
    simp only [List.getElem?_modify, if_true, he]
    exact ⟨_, rfl⟩
  obtain ⟨e2, he2⟩ := he2
  refine leaves_nvsEntryAt he2 ?_
  refine leaves_mono (keeps_writeEntry cfg _ _ _ c2) (fun _ c3 h3 => ?_) fun _ _ _ => trivial
  rw [NvsCtx.metas_eq h3, hm2, modify_of_getElem? hx, modify_of_getElem? hx,
    settle_of_inFlight hstate]
  rfl

theorem leaves_nvsRequeueLoop (n : Nat) {i : Nat} {ctx : NvsCtx} (h : i + n = ctx.metas.length) :
    leaves (nvsRequeueLoop cfg n i) (fun _ c => c.metas = settledFrom ctx.metas i) (fun _ _ => True)
      ctx := by
  induction n generalizing i ctx with
  | zero => exact leaves_ret.mpr (settledFrom_length (by omega)).symm
  | succ n ih =>
    have hlt : i < ctx.index.length := by
      rw [NvsCtx.metas, List.length_map] at h
      omega
    have he : ctx.index[i]? = some ctx.index[i] := List.getElem?_eq_getElem hlt
    have hx : ctx.metas[i]? = some ctx.index[i].toEntryMeta := by
      rw [NvsCtx.metas, List.getElem?_map, he]
      rfl
    have hnext : ∀ {c : NvsCtx}, c.metas = ctx.metas.modify i EntryMeta.settle →
        leaves (nvsRequeueLoop cfg n (i + 1)) (fun _ c' => c'.metas = settledFrom ctx.metas i)
          (fun _ _ => True) c := by
      intro c hc
      rw [settledFrom_eq hx hc]
      refine ih ?_
      rw [hc, List.length_modify]
      omega
    unfold nvsRequeueLoop
    simp only [Prog.bind_eq, leaves_bind]
    refine leaves_nvsEntryAt he ?_
    by_cases hstate : ctx.index[i].state = FlashqState.inFlight.code
    · simp only [if_pos hstate]
      exact leaves_seq (leaves_requeueSlot cfg he hstate) (fun _ _ hc => hnext hc)
        fun _ _ _ => trivial
    · simp only [if_neg hstate]
      exact hnext (modify_settle_of_ne hx hstate)

theorem leaves_nvsOpRecover (ctx : NvsCtx) :
    leaves (nvsOpRecover cfg) (fun _ c => ∃ q : List EntryMeta, c.metas = q.map EntryMeta.settle) (fun _ _ => True)
      ctx := by
  unfold nvsOpRecover
  simp only [Prog.bind_eq]
  refine leaves_seq (leaves_true _ _) (fun _ c1 _ => ?_) fun _ _ _ => trivial
  refine leaves_seq (leaves_true _ _) (fun _ c2 _ => ?_) fun _ _ _ => trivial
  refine leaves_bind.mpr (leaves_read.mpr ?_)
  refine leaves_mono (leaves_nvsRequeueLoop cfg c2.index.length ?_) (fun _ c hc => ⟨c2.metas, hc⟩)
    fun _ _ _ => trivial
  rw [NvsCtx.metas, List.length_map, Nat.zero_add]

end Nvs

/-- A settled entry is not in flight. -/
theorem settle_state_ne (e : EntryMeta) : e.settle.state ≠ FlashqState.inFlight.code :=
  Progress.requeued_state_ne e.progress

end EdgeSync
