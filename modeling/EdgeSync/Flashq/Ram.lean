/-
  Flashq/Ram.lean --- the index of the flash queue under any faults.

  What a call does to the entries of the index follows from the program text
  alone, whatever the partition holds and whichever flash calls fail.  Compaction
  moves records and keeps the entries.
-/
import EdgeSync.Foundation.Volatile
import EdgeSync.Calls
import EdgeSync.Selection
import EdgeSync.Flashq.Operations

set_option autoImplicit false

namespace EdgeSync

open Foundation

variable (cfg : FlashqConfig)

/-- The entries of the index, without the places of their records. -/
def FlashqCtx.metas (ctx : FlashqCtx) : List EntryMeta := ctx.index.map (·.toEntryMeta)

/-! ## Programs that keep the entries -/

theorem keeps_regionHeaderRead (r : Fin 2) : Keeps FlashqCtx.metas (regionHeaderRead cfg r) := by
  refine Keeps.bind (Keeps.ask _) fun raw => ?_
  cases raw with
  | none => exact Keeps.fail _
  | some raw => exact Keeps.ret _

theorem keeps_partitionWriteVerify (absOffset : Nat) (data : Bytes) :
    Keeps FlashqCtx.metas (partitionWriteVerify absOffset data) := by
  refine Keeps.bind (Keeps.ask _) fun ok => Keeps.ite ?_ (Keeps.fail _)
  refine Keeps.bind (Keeps.ask _) fun raw => ?_
  cases raw with
  | none => exact Keeps.fail _
  | some raw =>
    refine Keeps.bind (Keeps.modify fun _ => rfl) fun _ => Keeps.bind Keeps.read fun ctx => ?_
    exact Keeps.ite (Keeps.ret _) (Keeps.fail _)

theorem keeps_ensureRegionErased (r : Fin 2) :
    Keeps FlashqCtx.metas (ensureRegionErased cfg r) := by
  have herase : Keeps FlashqCtx.metas (eraseRegion cfg r) :=
    Keeps.bind (Keeps.ask _) fun _ => Keeps.ite (Keeps.ret _) (Keeps.fail _)
  refine Keeps.bind (keeps_regionHeaderRead cfg r).attempt fun res => ?_
  rcases res with err | ⟨hdr, blank⟩
  · exact herase
  · exact Keeps.ite (Keeps.ret _) herase

theorem keeps_entryAt (pos : Nat) : Keeps FlashqCtx.metas (entryAt pos) := by
  refine Keeps.bind Keeps.read fun ctx => ?_
  split
  · exact Keeps.ret _
  · exact Keeps.fail _

theorem keeps_encodeToWriteScratch (encode : Bytes → Option (Bytes × Nat)) :
    Keeps FlashqCtx.metas (encodeToWriteScratch encode) := by
  refine Keeps.bind Keeps.read fun _ => ?_
  split
  · exact Keeps.bind (Keeps.modify fun _ => rfl) fun _ => Keeps.ret _
  · exact Keeps.ret _

/-- Moving a record keeps the entry. -/
theorem keeps_copyEntry (source target : Fin 2) (newCursor : Nat) (seq : UInt32) (i : Nat)
    (e : FlashqIndexEntry) :
    Keeps FlashqCtx.metas (copyEntry cfg source target newCursor seq i e) := by
  refine Keeps.bind (Keeps.ask _) fun raw => ?_
  cases raw with
  | none => exact Keeps.fail _
  | some raw =>
    refine Keeps.bind (Keeps.modify fun _ => rfl) fun _ => Keeps.bind Keeps.read fun ctx => ?_
    simp only []
    split
    · exact Keeps.fail _
    · refine Keeps.bind (Keeps.modify fun _ => rfl) fun _ =>
        Keeps.bind (keeps_partitionWriteVerify _ _) fun _ => Keeps.bind ?_ fun _ => Keeps.ret _
      exact Keeps.modify fun ctx => map_modify_of_eq fun _ _ => rfl

theorem keeps_copyLoop (source target : Fin 2) (entries : List FlashqIndexEntry) (i newCursor : Nat)
    (seq : UInt32) : Keeps FlashqCtx.metas (copyLoop cfg source target entries i newCursor seq) := by
  induction entries generalizing i newCursor seq with
  | nil => exact Keeps.ret _
  | cons e entries ih =>
    exact Keeps.bind (keeps_copyEntry cfg source target newCursor seq i e) fun _ => ih _ _ _

theorem keeps_commitTarget (source target : Fin 2) :
    Keeps FlashqCtx.metas (commitTarget cfg source target) :=
  Keeps.bind (keeps_partitionWriteVerify _ _) fun _ =>
    Keeps.bind (keeps_partitionWriteVerify _ _).attempt fun _ =>
      Keeps.bind (keeps_ensureRegionErased cfg source).attempt fun _ => Keeps.ret _

theorem keeps_compactLocked : Keeps FlashqCtx.metas (compactLocked cfg) :=
  Keeps.bind Keeps.read fun _ =>
    Keeps.bind (keeps_ensureRegionErased cfg _) fun _ =>
    Keeps.bind (keeps_partitionWriteVerify _ _) fun _ =>
    Keeps.bind (keeps_copyLoop cfg _ _ _ _ _ _) fun _ =>
    Keeps.bind (keeps_encodeToWriteScratch _) fun _ =>
    Keeps.bind Keeps.read fun _ =>
    Keeps.bind (keeps_partitionWriteVerify _ _) fun _ =>
    Keeps.bind (keeps_commitTarget cfg _ _) fun _ => Keeps.modify fun _ => rfl


theorem keeps_ensureSpaceLocked (neededLen : Nat) :
    Keeps FlashqCtx.metas (ensureSpaceLocked cfg neededLen) := by
  unfold ensureSpaceLocked
  simp only [Prog.bind_eq, Prog.pure_eq]
  refine Keeps.bind Keeps.read fun ctx => ?_
  have hlast : Keeps FlashqCtx.metas ((Prog.read : FlashqM FlashqCtx).bind fun ctx =>
      if ctx.freeBytes cfg < neededLen then (Prog.fail EspErr.storage : FlashqM Unit)
      else Prog.ret ()) :=
    Keeps.bind Keeps.read fun _ => Keeps.ite (Keeps.fail _) (Keeps.ret _)
  exact Keeps.ite (Keeps.bind (keeps_compactLocked cfg) fun _ => hlast) hlast

theorem keeps_appendLocked (buf : Bytes) (len : Nat) :
    Keeps FlashqCtx.metas (appendLocked cfg buf len) := by
  unfold appendLocked
  simp only [Prog.bind_eq]
  exact Keeps.bind Keeps.read fun ctx => Keeps.bind (keeps_partitionWriteVerify _ _) fun _ =>
    Keeps.modify fun _ => rfl

/-! ## Programs that change an entry -/

/-- Assigning the changing part of an entry. -/
theorem metas_modify {index : List FlashqIndexEntry} (pos : Nat) {f : Progress → Progress}
    {g : FlashqIndexEntry → FlashqIndexEntry}
    (h : ∀ e : FlashqIndexEntry, (g e).toEntryMeta = e.toEntryMeta.change f) :
    (index.modify pos g).map (·.toEntryMeta) =
      (index.map (·.toEntryMeta)).modify pos (·.change f) :=
  modify_map (h := fun e : FlashqIndexEntry => e.toEntryMeta) h index pos

/-- The state of the entry changes when the record was written. -/
theorem leaves_appendStateUpdateLocked (pos : Nat) (newState : FlashqState) (ctx : FlashqCtx) :
    leaves (appendStateUpdateLocked cfg pos newState)
      (fun _ c => c.metas = ctx.metas.modify pos (·.change (Progress.inState newState)))
      (fun _ c => c.metas = ctx.metas) ctx := by
  unfold appendStateUpdateLocked
  simp only [Prog.bind_eq]
  refine Keeps.seq (keeps_ensureSpaceLocked cfg updateSize) (fun _ c1 h1 => ?_) fun _ _ h => h
  refine Keeps.seq (keeps_entryAt pos) (fun e c2 h2 => ?_) fun _ _ h => h.trans h1
  simp only [leaves_bind, leaves_read]
  refine leaves_mono (keeps_encodeToWriteScratch _ c2) (fun len c3 h3 => ?_)
    fun _ _ h => h.trans (h2.trans h1)
  refine leaves_mono (keeps_appendLocked cfg _ _ c3) (fun _ c4 h4 => ?_)
    fun _ _ h => h.trans (h3.trans (h2.trans h1))
  have hmetas : c4.metas = ctx.metas := h4.trans (h3.trans (h2.trans h1))
  unfold assignEntry
  simp only [leaves_modify]
  rw [← hmetas]
  exact metas_modify pos fun _ => rfl

theorem leaves_entryAt {ctx : FlashqCtx} {pos : Nat} {e : FlashqIndexEntry}
    {Q : FlashqIndexEntry → FlashqCtx → Prop} {E : EspErr → FlashqCtx → Prop}
    (he : ctx.index[pos]? = some e) (h : Q e ctx) : leaves (entryAt pos) Q E ctx := by
  unfold entryAt
  simp only [Prog.bind_eq, leaves_bind, leaves_read, he]
  exact leaves_ret.mpr h

/-- The entry behind a position of the entries. -/
theorem FlashqCtx.getElem?_metas {ctx : FlashqCtx} {pos : Nat} {x : EntryMeta}
    (h : ctx.metas[pos]? = some x) : ∃ e, ctx.index[pos]? = some e ∧ e.toEntryMeta = x := by
  rw [metas, List.getElem?_map] at h
  exact Option.map_eq_some_iff.mp h

/-! ## Calls -/

theorem leaves_opEnqueue (message : EdgesyncMessage) (ctx : FlashqCtx) :
    leaves (opEnqueue cfg message)
      (fun _ c => c.metas = ctx.metas ++ [message.entry] ∧ ctx.metas.length < cfg.indexCapacity)
      (fun _ c => c.metas = ctx.metas) ctx := by
  unfold opEnqueue
  simp only [Prog.bind_eq, leaves_bind, leaves_read, leaves_ite]
  refine ⟨fun _ => leaves_fail.mpr rfl, fun hroom => ?_⟩
  have hlen : ctx.metas.length < cfg.indexCapacity := by
    rw [FlashqCtx.metas, List.length_map]
    omega
  split
  · exact leaves_fail.mpr rfl
  · simp only [leaves_bind, leaves_modify]
    refine leaves_mono (keeps_ensureSpaceLocked cfg _ _) (fun _ c1 h1 => ?_) fun _ _ h => h
    simp only [leaves_read]
    split
    · exact leaves_fail.mpr h1
    · simp only [leaves_bind, leaves_modify]
      refine leaves_mono (keeps_appendLocked cfg _ _ _) (fun _ c2 h2 => ?_) fun _ _ h => h.trans h1
      refine ⟨?_, hlen⟩
      have hmetas : c2.metas = ctx.metas := h2.trans h1
      rw [← hmetas, FlashqCtx.metas, List.map_append]
      rfl

/-- A claim of the message at `pos`, once it is known to be intact. -/
theorem leaves_claimIntact {nowUs : Int64} {pos : Nat} {x : EntryMeta} {ctx : FlashqCtx}
    (hx : ctx.metas[pos]? = some x) :
    leaves (claimIntact cfg nowUs pos)
      (fun reply c => (∃ claimed, reply = .claimed claimed ∧ claimed.Shows x nowUs) ∧
        c.metas = ctx.metas.modify pos (·.change (Progress.claimed nowUs)))
      (fun _ c => c.metas = ctx.metas) ctx := by
  obtain ⟨e, he, rfl⟩ := FlashqCtx.getElem?_metas hx
  unfold claimIntact
  simp only [Prog.bind_eq, leaves_bind]
  refine leaves_entryAt he ?_
  refine leaves_mono (keeps_ensureSpaceLocked cfg updateSize ctx) (fun _ c1 h1 => ?_)
    fun _ _ h => h
  obtain ⟨e1, he1, hm1⟩ := FlashqCtx.getElem?_metas (h1 ▸ hx)
  refine leaves_entryAt he1 ?_
  simp only [leaves_read]
  refine leaves_mono (keeps_encodeToWriteScratch _ c1) (fun len c2 h2 => ?_)
    fun _ _ h => h.trans h1
  refine leaves_mono (keeps_appendLocked cfg _ _ c2) (fun _ c3 h3 => ?_)
    fun _ _ h => h.trans (h2.trans h1)
  have hmetas : c3.metas = ctx.metas := h3.trans (h2.trans h1)
  unfold assignEntry
  simp only [leaves_modify, Prog.pure_eq, leaves_ret]
  refine ⟨⟨_, rfl, ?_⟩, ?_⟩
  · exact ⟨congrArg EntryMeta.id hm1, congrArg EntryMeta.priority hm1, rfl, rfl,
      congrArg EntryMeta.createdAtUs hm1, rfl, congrArg EntryMeta.nextRetryAtUs hm1,
      congrArg EntryMeta.lastError hm1, congrArg EntryMeta.payloadLen hm1⟩
  · have hx3 : c3.metas[pos]? = some e.toEntryMeta := by rw [hmetas, hx]
    obtain ⟨e3, he3, hm3⟩ := FlashqCtx.getElem?_metas hx3
    have hattempts : e.attemptCount = e3.attemptCount := (congrArg EntryMeta.attemptCount hm3).symm
    rw [← hmetas, modify_of_getElem? hx3, FlashqCtx.metas, FlashqCtx.metas]
    simp only
    rw [modify_of_getElem? he3, List.map_set, hattempts, ← hm3]
    rfl

theorem leaves_opClaimNext (nowUs : Int64) (ctx : FlashqCtx) :
    leaves (opClaimNext cfg nowUs)
      (fun reply c => CallStep false cfg.indexCapacity ctx.metas (.claimNext nowUs)
        (.ok (.claim reply)) c.metas)
      (fun err c => CallStep false cfg.indexCapacity ctx.metas (.claimNext nowUs) (.error err)
        c.metas) ctx := by
  unfold opClaimNext
  simp only [Prog.bind_eq, leaves_bind, leaves_read]
  cases hsel : selectClaim nowUs (ctx.index.map (·.toEntryMeta)) with
  | none => exact leaves_fail.mpr .refused
  | some pos =>
    obtain ⟨x, hx, _⟩ := pick_some hsel
    obtain ⟨e, he, rfl⟩ := FlashqCtx.getElem?_metas hx
    simp only [leaves_bind]
    refine leaves_entryAt he ?_
    refine leaves_ask.mpr fun raw => ?_
    simp only [leaves_modify, leaves_read, leaves_ite]
    refine ⟨fun _ => ?_, fun _ => ?_⟩
    · unfold assignEntry
      simp only [leaves_bind, leaves_modify]
      generalize hc1 : FlashqCtx.mk _ _ _ _ _ _ _ _ _ _ _ = c1
      have hm1 : c1.metas = ctx.metas.modify pos (·.change Progress.marked) := by
        rw [← hc1]
        exact metas_modify pos fun _ => rfl
      refine leaves_mono (leaves_appendStateUpdateLocked cfg pos .deadLetter c1)
        (fun _ c2 h2 => ?_) fun err c2 h2 => ?_
      · have hc2 : c2.metas = ctx.metas.modify pos (·.change Progress.corrupted) := by
          rw [h2, hm1, List.modify_modify_eq]
          rfl
        simp only [Prog.pure_eq, leaves_ret]
        rw [hc2]
        exact .corrupt hsel hx
      · rw [h2, hm1]
        exact .corruptLost hsel
    · have hx' : ({ ctx with claimScratch := overlay ctx.claimScratch 0 (raw.getD []) } :
          FlashqCtx).metas[pos]? = some e.toEntryMeta := hx
      refine leaves_mono (leaves_claimIntact cfg hx') (fun reply c h => ?_) fun err c h => ?_
      · obtain ⟨⟨claimed, rfl, hshows⟩, hm⟩ := h
        rw [hm]
        exact .claimed hsel hx hshows
      · rw [h]
        exact .refused

theorem findMeta_metas (ctx : FlashqCtx) (id : UInt64) :
    findMeta ctx.metas id = findEntry ctx.index id :=
  findPos_map (fun e : FlashqIndexEntry => e.toEntryMeta) (fun e => e.id == id) ctx.index

/-- `op_mark_delivered` and `op_remove`. -/
theorem leaves_retireEntry {op : StorageOp} {id : UInt64} {newState : FlashqState}
    (retires : Retires op id newState) (ctx : FlashqCtx) :
    leaves (retireEntry cfg id newState)
      (fun _ c => CallStep false cfg.indexCapacity ctx.metas op (.ok .done) c.metas)
      (fun err c => CallStep false cfg.indexCapacity ctx.metas op (.error err) c.metas) ctx := by
  unfold retireEntry
  simp only [Prog.bind_eq, leaves_bind, leaves_read]
  cases hpos : findEntry ctx.index id with
  | none => exact leaves_fail.mpr .refused
  | some pos =>
    simp only [leaves_bind]
    refine leaves_mono (leaves_appendStateUpdateLocked cfg pos newState ctx)
      (fun _ c1 h1 => ?_) fun err c1 h1 => ?_
    · unfold removeEntryAt
      simp only [leaves_modify]
      have hc : (swapRemove c1.index pos).map (·.toEntryMeta) = swapRemove ctx.metas pos := by
        rw [map_swapRemove]
        have h1' : c1.index.map (·.toEntryMeta) = _ := h1
        rw [h1', swapRemove_modify]
      show CallStep false cfg.indexCapacity ctx.metas op (.ok .done)
        ((swapRemove c1.index pos).map (·.toEntryMeta))
      rw [hc]
      exact .retired retires ((findMeta_metas ctx id).trans hpos)
    · rw [h1]
      exact .refused

theorem leaves_opScheduleRetry (id : UInt64) (nextRetryTimeUs : Int64) (deadLetter : Bool)
    (lastError : Int32) (ctx : FlashqCtx) :
    leaves (opScheduleRetry cfg id nextRetryTimeUs deadLetter lastError)
      (fun _ c => CallStep false cfg.indexCapacity ctx.metas
        (.scheduleRetry id nextRetryTimeUs deadLetter lastError) (.ok .done) c.metas)
      (fun err c => CallStep false cfg.indexCapacity ctx.metas
        (.scheduleRetry id nextRetryTimeUs deadLetter lastError) (.error err) c.metas) ctx := by
  unfold opScheduleRetry
  simp only [Prog.bind_eq, leaves_bind, leaves_read]
  cases hpos : findEntry ctx.index id with
  | none => exact leaves_fail.mpr .refused
  | some pos =>
    have hfound := (findMeta_metas ctx id).trans hpos
    unfold assignEntry
    simp only [leaves_bind, leaves_modify]
    generalize hc1 : FlashqCtx.mk _ _ _ _ _ _ _ _ _ _ _ = c1
    have hm1 : c1.metas = ctx.metas.modify pos
        (·.change (Progress.staged nextRetryTimeUs deadLetter lastError)) := by
      rw [← hc1]
      exact metas_modify pos fun _ => rfl
    refine leaves_mono (leaves_appendStateUpdateLocked cfg pos _ c1) (fun _ c2 h2 => ?_)
      fun err c2 h2 => ?_
    · have hc2 : c2.metas = ctx.metas.modify pos
          (·.change (Progress.retried nextRetryTimeUs deadLetter lastError)) := by
        rw [h2, hm1, List.modify_modify_eq]
        rfl
      rw [hc2]
      exact .retried hfound
    · rw [h2, hm1]
      exact .retryLost hfound

/-- Every call. -/
theorem leaves_flashqCall (op : StorageOp) (ctx : FlashqCtx) :
    leaves (flashqCall cfg op)
      (fun reply c => CallStep false cfg.indexCapacity ctx.metas op (.ok reply) c.metas)
      (fun err c => CallStep false cfg.indexCapacity ctx.metas op (.error err) c.metas) ctx := by
  unfold flashqCall
  cases op with
  | enqueue message =>
    simp only [StorageOps.call, sFlashqOps, Prog.bind_eq, Prog.pure_eq, leaves_bind, leaves_ret]
    refine leaves_mono (leaves_opEnqueue cfg message ctx) (fun _ c h => ?_) fun _ c h => ?_
    · rw [h.1]
      exact .enqueued h.2
    · rw [h]
      exact .refused
  | claimNext nowUs =>
    simp only [StorageOps.call, sFlashqOps, Prog.bind_eq, Prog.pure_eq, leaves_bind, leaves_ret]
    exact leaves_opClaimNext cfg nowUs ctx
  | markDelivered id =>
    simp only [StorageOps.call, sFlashqOps, opMarkDelivered, Prog.bind_eq, Prog.pure_eq,
      leaves_bind, leaves_ret]
    exact leaves_retireEntry cfg (.delivered id) ctx
  | remove id =>
    simp only [StorageOps.call, sFlashqOps, opRemove, Prog.bind_eq, Prog.pure_eq, leaves_bind,
      leaves_ret]
    exact leaves_retireEntry cfg (.removed id) ctx
  | scheduleRetry id nextRetryTimeUs deadLetter lastError =>
    simp only [StorageOps.call, sFlashqOps, Prog.bind_eq, Prog.pure_eq, leaves_bind, leaves_ret]
    exact leaves_opScheduleRetry cfg id nextRetryTimeUs deadLetter lastError ctx
  | findDropCandidate policy =>
    simp only [StorageOps.call, sFlashqOps, opFindDropCandidate, Prog.bind_eq, Prog.pure_eq,
      leaves_bind, leaves_read, leaves_ret]
    cases hsel : selectDrop policy (ctx.index.map (·.toEntryMeta)) with
    | none => exact leaves_fail.mpr .refused
    | some pos =>
      obtain ⟨x, hx, _⟩ := pick_some hsel
      obtain ⟨e, he, rfl⟩ := FlashqCtx.getElem?_metas hx
      simp only [leaves_bind]
      refine leaves_entryAt he ?_
      exact leaves_ret.mpr (.candidate hsel hx)
  | getStats stats =>
    simp only [StorageOps.call, sFlashqOps, opGetStats, Prog.bind_eq, Prog.pure_eq, leaves_bind,
      leaves_read, leaves_ret]
    exact .stats

/-- `op_get_stats` counts the entries, and does not fail. -/
theorem leaves_flashqGetStats (stats : EdgesyncStats) (ctx : FlashqCtx) :
    leaves (flashqCall cfg (.getStats stats))
      (fun reply c => c = ctx ∧ ∃ stats', reply = .stats stats' ∧
        StatsAgree stats' (ctx.metas.foldl EdgesyncStats.count stats) ∧
        stats'.deliveredAwaitingGc = ctx.awaitingGcCount)
      (fun _ _ => False) ctx := by
  unfold flashqCall
  simp only [StorageOps.call, sFlashqOps, opGetStats, Prog.bind_eq, Prog.pure_eq, leaves_bind,
    leaves_read, leaves_ret]
  exact ⟨trivial, _, rfl, ⟨rfl, rfl, rfl, rfl, rfl⟩, rfl⟩

end EdgeSync
