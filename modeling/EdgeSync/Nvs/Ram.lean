/-
  Nvs/Ram.lean --- the index of the NVS backend under any faults.

  As for the flash queue, what a call does to the entries follows from the
  program text alone.  An entry takes its new state before its record is written.
-/
import EdgeSync.Foundation.Volatile
import EdgeSync.Calls
import EdgeSync.Selection
import EdgeSync.Nvs.Backend

set_option autoImplicit false

namespace EdgeSync

open Foundation

variable (cfg : NvsConfig)

/-- The entries of the index, without their slots. -/
def NvsCtx.metas (ctx : NvsCtx) : List EntryMeta := ctx.index.map (·.toEntryMeta)

/-- One call through `edgesync_storage_ops_t`. -/
def nvsCall (op : StorageOp) : NvsM StorageReply := (sNvsOps cfg).call op

/-! ## Programs that keep the index -/

theorem keeps_writeEntry (e : NvsIndexEntry) (destination : Bytes) (payload : Body) :
    Keeps NvsCtx.index (writeEntry cfg e destination payload) := by
  refine Keeps.bind Keeps.read fun ctx => ?_
  split
  · exact Keeps.fail _
  · refine Keeps.bind (Keeps.modify fun _ => rfl) fun _ => Keeps.bind (Keeps.ask _) fun _ => ?_
    refine Keeps.ite (Keeps.bind (Keeps.ask _) fun _ => ?_) (Keeps.fail _)
    exact Keeps.ite (Keeps.ret _) (Keeps.fail _)

theorem keeps_readAndVerify (slot : UInt32) : Keeps NvsCtx.index (readAndVerify cfg slot) := by
  refine Keeps.bind (Keeps.ask _) fun len => ?_
  cases len with
  | none => exact Keeps.fail _
  | some len =>
    refine Keeps.ite (Keeps.fail _) (Keeps.bind (Keeps.ask _) fun blob => ?_)
    cases blob with
    | none => exact Keeps.fail _
    | some blob =>
      refine Keeps.bind (Keeps.modify fun _ => rfl) fun _ => Keeps.bind Keeps.read fun ctx => ?_
      split
      · exact Keeps.fail _
      · exact Keeps.ite (Keeps.ret _) (Keeps.fail _)

/-- Discarding a slot reports nothing. -/
theorem leaves_discardSlot {slot : UInt32} {ctx : NvsCtx} {Q : Unit → NvsCtx → Prop}
    {E : EspErr → NvsCtx → Prop} (h : Q () ctx) : leaves (discardSlot slot) Q E ctx :=
  leaves_bind.mpr (leaves_ask.mpr fun _ =>
    leaves_bind.mpr (leaves_ask.mpr fun _ => leaves_ret.mpr h))

/-! ## Programs that change an entry -/

theorem leaves_nvsEntryAt {ctx : NvsCtx} {pos : Nat} {e : NvsIndexEntry}
    {Q : NvsIndexEntry → NvsCtx → Prop} {E : EspErr → NvsCtx → Prop}
    (he : ctx.index[pos]? = some e) (h : Q e ctx) : leaves (nvsEntryAt pos) Q E ctx := by
  unfold nvsEntryAt
  simp only [Prog.bind_eq, leaves_bind, leaves_read, he]
  exact leaves_ret.mpr h

/-- Assigning the changing part of an entry. -/
theorem nvs_metas_modify {index : List NvsIndexEntry} (pos : Nat) {f : Progress → Progress}
    {g : NvsIndexEntry → NvsIndexEntry}
    (h : ∀ e : NvsIndexEntry, (g e).toEntryMeta = e.toEntryMeta.change f) :
    (index.modify pos g).map (·.toEntryMeta) =
      (index.map (·.toEntryMeta)).modify pos (·.change f) :=
  modify_map (h := fun e : NvsIndexEntry => e.toEntryMeta) h index pos

/-- The entry behind a position of the entries. -/
theorem NvsCtx.getElem?_metas {ctx : NvsCtx} {pos : Nat} {x : EntryMeta}
    (h : ctx.metas[pos]? = some x) : ∃ e, ctx.index[pos]? = some e ∧ e.toEntryMeta = x := by
  rw [metas, List.getElem?_map] at h
  exact Option.map_eq_some_iff.mp h

theorem NvsCtx.metas_eq {ctx ctx' : NvsCtx} (h : ctx'.index = ctx.index) :
    ctx'.metas = ctx.metas := by
  rw [metas, metas, h]

theorem findMeta_nvsMetas (ctx : NvsCtx) (id : UInt64) :
    findMeta ctx.metas id = nvsFindEntry ctx.index id :=
  findPos_map (fun e : NvsIndexEntry => e.toEntryMeta) (fun e => e.id == id) ctx.index

/-! ## Calls -/

theorem leaves_nvsOpEnqueue (message : EdgesyncMessage) (ctx : NvsCtx) :
    leaves (nvsOpEnqueue cfg message)
      (fun _ c => c.metas = ctx.metas ++ [message.entry] ∧ ctx.metas.length < cfg.indexCapacity)
      (fun _ c => c.metas = ctx.metas) ctx := by
  unfold nvsOpEnqueue
  simp only [Prog.bind_eq, leaves_bind, leaves_read, leaves_ite]
  refine ⟨fun _ => leaves_fail.mpr rfl, fun hroom => ?_⟩
  have hlen : ctx.metas.length < cfg.indexCapacity := by
    rw [NvsCtx.metas, List.length_map]
    omega
  split
  · exact leaves_fail.mpr rfl
  · simp only [leaves_bind]
    refine leaves_mono (keeps_writeEntry cfg _ _ _ ctx) (fun _ c1 h1 => ?_)
      fun _ _ h => NvsCtx.metas_eq h
    simp only [leaves_modify]
    refine ⟨?_, hlen⟩
    rw [NvsCtx.metas, NvsCtx.metas, List.map_append, h1]
    rfl

/-- A claim whose record was read. -/
theorem leaves_nvsClaimIntact {nowUs : Int64} {pos : Nat} {x : EntryMeta} {hdr : RecordHdr}
    {ctx : NvsCtx} (hsel : selectClaim nowUs ctx.metas = some pos)
    (hx : ctx.metas[pos]? = some x) :
    leaves (nvsClaimIntact cfg nowUs pos hdr)
      (fun reply c => CallStep true cfg.indexCapacity ctx.metas (.claimNext nowUs)
        (.ok (.claim reply)) c.metas)
      (fun err c => CallStep true cfg.indexCapacity ctx.metas (.claimNext nowUs) (.error err)
        c.metas) ctx := by
  obtain ⟨e, he, rfl⟩ := NvsCtx.getElem?_metas hx
  unfold nvsClaimIntact nvsAssignEntry
  simp only [Prog.bind_eq, Prog.pure_eq, leaves_bind, leaves_modify]
  generalize hc1 : NvsCtx.mk _ _ _ _ = c1
  have hm1 : c1.metas = ctx.metas.modify pos (·.change (Progress.claimed nowUs)) := by
    rw [← hc1]
    exact nvs_metas_modify pos fun _ => rfl
  have he1 : c1.index[pos]? = some { e with
      attemptCount := e.attemptCount + 1
      state := FlashqState.inFlight.code
      lastAttemptAtUs := nowUs } := by
    rw [← hc1]
    simp only [List.getElem?_modify, if_true, he]
    rfl
  refine leaves_nvsEntryAt he1 ?_
  simp only [leaves_read]
  refine leaves_mono (keeps_writeEntry cfg _ _ _ c1) (fun _ c2 h2 => ?_) fun err c2 h2 => ?_
  · simp only [leaves_ret]
    rw [NvsCtx.metas_eq h2, hm1]
    exact .claimed hsel hx ⟨rfl, rfl, rfl, rfl, rfl, rfl, rfl, rfl, rfl⟩
  · rw [NvsCtx.metas_eq h2, hm1]
    exact .claimLost rfl hsel

theorem leaves_nvsOpClaimNext (nowUs : Int64) (ctx : NvsCtx) :
    leaves (nvsOpClaimNext cfg nowUs)
      (fun reply c => CallStep true cfg.indexCapacity ctx.metas (.claimNext nowUs)
        (.ok (.claim reply)) c.metas)
      (fun err c => CallStep true cfg.indexCapacity ctx.metas (.claimNext nowUs) (.error err)
        c.metas) ctx := by
  unfold nvsOpClaimNext
  simp only [Prog.bind_eq, leaves_bind, leaves_read]
  cases hsel : selectClaim nowUs (ctx.index.map (·.toEntryMeta)) with
  | none => exact leaves_fail.mpr .refused
  | some pos =>
    obtain ⟨x, hx, _⟩ := pick_some hsel
    obtain ⟨e, he, rfl⟩ := NvsCtx.getElem?_metas hx
    simp only [leaves_bind]
    refine leaves_nvsEntryAt he ?_
    simp only [leaves_attempt]
    refine leaves_mono (keeps_readAndVerify cfg e.slot ctx) (fun hdr c1 h1 => ?_)
      fun err c1 h1 => ?_
    · have hm1 := NvsCtx.metas_eq h1
      have h := @leaves_nvsClaimIntact cfg nowUs pos e.toEntryMeta hdr c1 (by rw [hm1]; exact hsel)
        (by rw [hm1]; exact hx)
      rwa [hm1] at h
    · have hm1 := NvsCtx.metas_eq h1
      have hrefused : CallStep true cfg.indexCapacity ctx.metas (.claimNext nowUs) (.error err)
          c1.metas := by
        rw [hm1]
        exact .refused
      cases err with
      | storageCorrupt =>
        unfold nvsAssignEntry
        simp only [leaves_bind, leaves_modify]
        refine leaves_discardSlot ?_
        simp only [Prog.pure_eq, leaves_ret]
        have hc2 : ({ c1 with index := c1.index.modify pos fun e =>
            { e with
              lastError := EspErr.storageCorrupt.code
              state := FlashqState.deadLetter.code } } : NvsCtx).metas =
            ctx.metas.modify pos (·.change Progress.corrupted) := by
          rw [← hm1]
          exact nvs_metas_modify pos fun _ => rfl
        rw [hc2]
        exact .corrupt hsel hx
      | _ => exact leaves_fail.mpr hrefused

/-- `op_mark_delivered` and `op_remove`. -/
theorem leaves_nvsOpMarkDelivered {op : StorageOp} {id : UInt64} {newState : FlashqState}
    (retires : Retires op id newState) (ctx : NvsCtx) :
    leaves (nvsOpMarkDelivered id)
      (fun _ c => CallStep true cfg.indexCapacity ctx.metas op (.ok .done) c.metas)
      (fun err c => CallStep true cfg.indexCapacity ctx.metas op (.error err) c.metas) ctx := by
  unfold nvsOpMarkDelivered
  simp only [Prog.bind_eq, leaves_bind, leaves_read]
  cases hpos : nvsFindEntry ctx.index id with
  | none => exact leaves_fail.mpr .refused
  | some pos =>
    obtain ⟨e, he, _⟩ := findPos_some hpos
    simp only [leaves_bind]
    refine leaves_nvsEntryAt he ?_
    refine leaves_ask.mpr fun erased => ?_
    simp only [leaves_ite, leaves_fail, leaves_bind]
    refine ⟨fun _ => leaves_ask.mpr fun committed => ?_, fun _ => .refused⟩
    refine ⟨fun _ => ?_, fun _ => .refused⟩
    unfold nvsRemoveEntryAt
    simp only [leaves_modify]
    have hc : (swapRemove ctx.index pos).map (·.toEntryMeta) = swapRemove ctx.metas pos :=
      map_swapRemove _ _ _
    show CallStep true cfg.indexCapacity ctx.metas op (.ok .done)
      ((swapRemove ctx.index pos).map (·.toEntryMeta))
    rw [hc]
    exact .retired retires ((findMeta_nvsMetas ctx id).trans hpos)

theorem leaves_nvsOpScheduleRetry (id : UInt64) (nextRetryTimeUs : Int64) (deadLetter : Bool)
    (lastError : Int32) (ctx : NvsCtx) :
    leaves (nvsOpScheduleRetry cfg id nextRetryTimeUs deadLetter lastError)
      (fun _ c => CallStep true cfg.indexCapacity ctx.metas
        (.scheduleRetry id nextRetryTimeUs deadLetter lastError) (.ok .done) c.metas)
      (fun err c => CallStep true cfg.indexCapacity ctx.metas
        (.scheduleRetry id nextRetryTimeUs deadLetter lastError) (.error err) c.metas) ctx := by
  unfold nvsOpScheduleRetry
  simp only [Prog.bind_eq, leaves_bind, leaves_read]
  cases hpos : nvsFindEntry ctx.index id with
  | none => exact leaves_fail.mpr .refused
  | some pos =>
    have hfound := (findMeta_nvsMetas ctx id).trans hpos
    obtain ⟨e, he, _⟩ := findPos_some hpos
    simp only [leaves_bind]
    refine leaves_nvsEntryAt he ?_
    refine leaves_mono (keeps_readAndVerify cfg e.slot ctx) (fun hdr c1 h1 => ?_)
      fun err c1 h1 => ?_
    · unfold nvsAssignEntry
      simp only [leaves_read, leaves_modify]
      generalize hc2 : NvsCtx.mk _ _ _ _ = c2
      have hm2 : c2.metas = ctx.metas.modify pos
          (·.change (Progress.retried nextRetryTimeUs deadLetter lastError)) := by
        rw [← hc2, ← NvsCtx.metas_eq h1]
        exact nvs_metas_modify pos fun _ => rfl
      have he2 : ∃ e2, c2.index[pos]? = some e2 := by
        rw [← hc2, h1]
        simp only [List.getElem?_modify, if_true, he]
        exact ⟨_, rfl⟩
      obtain ⟨e2, he2⟩ := he2
      refine leaves_nvsEntryAt he2 ?_
      refine leaves_mono (keeps_writeEntry cfg _ _ _ c2) (fun _ c3 h3 => ?_) fun err c3 h3 => ?_
      · rw [NvsCtx.metas_eq h3, hm2]
        exact .retried hfound
      · rw [NvsCtx.metas_eq h3, hm2]
        exact .retryLost hfound
    · rw [NvsCtx.metas_eq h1]
      exact .refused

/-- Every call. -/
theorem leaves_nvsCall (op : StorageOp) (ctx : NvsCtx) :
    leaves (nvsCall cfg op)
      (fun reply c => CallStep true cfg.indexCapacity ctx.metas op (.ok reply) c.metas)
      (fun err c => CallStep true cfg.indexCapacity ctx.metas op (.error err) c.metas) ctx := by
  unfold nvsCall
  cases op with
  | enqueue message =>
    simp only [StorageOps.call, sNvsOps, Prog.bind_eq, Prog.pure_eq, leaves_bind, leaves_ret]
    refine leaves_mono (leaves_nvsOpEnqueue cfg message ctx) (fun _ c h => ?_) fun _ c h => ?_
    · rw [h.1]
      exact .enqueued h.2
    · rw [h]
      exact .refused
  | claimNext nowUs =>
    simp only [StorageOps.call, sNvsOps, Prog.bind_eq, Prog.pure_eq, leaves_bind, leaves_ret]
    exact leaves_nvsOpClaimNext cfg nowUs ctx
  | markDelivered id =>
    simp only [StorageOps.call, sNvsOps, Prog.bind_eq, Prog.pure_eq, leaves_bind, leaves_ret]
    exact leaves_nvsOpMarkDelivered cfg (.delivered id) ctx
  | remove id =>
    simp only [StorageOps.call, sNvsOps, nvsOpRemove, Prog.bind_eq, Prog.pure_eq, leaves_bind,
      leaves_ret]
    exact leaves_nvsOpMarkDelivered cfg (.removed id) ctx
  | scheduleRetry id nextRetryTimeUs deadLetter lastError =>
    simp only [StorageOps.call, sNvsOps, Prog.bind_eq, Prog.pure_eq, leaves_bind, leaves_ret]
    exact leaves_nvsOpScheduleRetry cfg id nextRetryTimeUs deadLetter lastError ctx
  | findDropCandidate policy =>
    simp only [StorageOps.call, sNvsOps, nvsOpFindDropCandidate, Prog.bind_eq, Prog.pure_eq,
      leaves_bind, leaves_read, leaves_ret]
    cases hsel : selectDrop policy (ctx.index.map (·.toEntryMeta)) with
    | none => exact leaves_fail.mpr .refused
    | some pos =>
      obtain ⟨x, hx, _⟩ := pick_some hsel
      obtain ⟨e, he, rfl⟩ := NvsCtx.getElem?_metas hx
      simp only [leaves_bind]
      refine leaves_nvsEntryAt he ?_
      exact leaves_ret.mpr (.candidate hsel hx)
  | getStats stats =>
    simp only [StorageOps.call, sNvsOps, nvsOpGetStats, Prog.bind_eq, Prog.pure_eq, leaves_bind,
      leaves_read, leaves_ret]
    refine leaves_ask.mpr fun counts => ?_
    cases counts with
    | none => exact leaves_ret.mpr .stats
    | some counts => exact leaves_ret.mpr .stats

/-- `op_get_stats` counts the entries, and does not fail. -/
theorem leaves_nvsGetStatsCall (stats : EdgesyncStats) (ctx : NvsCtx) :
    leaves (nvsCall cfg (.getStats stats))
      (fun reply c => c = ctx ∧ ∃ stats', reply = .stats stats' ∧
        StatsAgree stats' (ctx.metas.foldl EdgesyncStats.count stats))
      (fun _ _ => False) ctx := by
  unfold nvsCall
  simp only [StorageOps.call, sNvsOps, nvsOpGetStats, Prog.bind_eq, Prog.pure_eq, leaves_bind,
    leaves_read]
  refine leaves_ask.mpr fun counts => ?_
  cases counts with
  | none =>
    simp only [leaves_ret]
    exact ⟨trivial, _, rfl, ⟨rfl, rfl, rfl, rfl, rfl⟩⟩
  | some counts =>
    simp only [leaves_ret]
    exact ⟨trivial, _, rfl, ⟨rfl, rfl, rfl, rfl, rfl⟩⟩

end EdgeSync
