/-
  Nvs/Ownership.lean --- every entry of the NVS index owns its slot.

  Three structures say which slots are in use: the index, the bitmap `slot_used` and
  the keys of the store.  Index and bitmap agree whatever the store contains and
  whichever calls fail, because both are changed after the last call that may fail;
  a restart rebuilds both in the order of the slots.
-/
import EdgeSync.Nvs.Payload

set_option autoImplicit false

namespace EdgeSync

open Foundation

variable {cfg : NvsConfig}

/-- The slots of the entries. -/
def NvsCtx.slots (ctx : NvsCtx) : List Nat := ctx.index.map fun e => e.slot.toNat

/-- No two entries share a slot, and the bitmap marks the slots of the entries. -/
structure SlotsOwned (cfg : NvsConfig) (ctx : NvsCtx) : Prop where
  bitmap : ctx.slotUsed.length = cfg.maxMessages.toNat
  distinct : ctx.slots.Nodup
  used : ∀ i, ctx.slotUsed[i]? = some true ↔ i ∈ ctx.slots

/-- What decides about slots. -/
def NvsCtx.owners (ctx : NvsCtx) : List Nat × List Bool := (ctx.slots, ctx.slotUsed)

namespace SlotsOwned

variable {ctx ctx' : NvsCtx} {slot : UInt32}

theorem congr (h : SlotsOwned cfg ctx) (heq : ctx'.owners = ctx.owners) : SlotsOwned cfg ctx' := by
  obtain ⟨hslots, hused⟩ := Prod.mk.inj heq
  exact ⟨by rw [hused]; exact h.bitmap, by rw [hslots]; exact h.distinct,
    by rw [hslots, hused]; exact h.used⟩

theorem lt_of_mem (h : SlotsOwned cfg ctx) {i : Nat} (hi : i ∈ ctx.slots) :
    i < cfg.maxMessages.toNat := by
  rw [← h.bitmap]
  exact (List.getElem?_eq_some_iff.mp ((h.used i).mpr hi)).1

/-- Distinct numbers below a bound are no more than the bound. -/
theorem length_le (h : SlotsOwned cfg ctx) : ctx.index.length ≤ cfg.indexCapacity := by
  have hsub : ctx.slots ⊆ List.range cfg.maxMessages.toNat :=
    fun i hi => List.mem_range.mpr (h.lt_of_mem hi)
  have hle := (h.distinct.subperm hsub).length_le
  rwa [NvsCtx.slots, List.length_map, List.length_range] at hle

/-- With every slot in use the index is full. -/
theorem full (h : SlotsOwned cfg ctx) (hfree : findFreeSlot ctx.slotUsed = none) :
    cfg.indexCapacity ≤ ctx.index.length := by
  have hnone := findPos_none (Option.map_eq_none_iff.mp hfree)
  have hsub : List.range cfg.maxMessages.toNat ⊆ ctx.slots := by
    intro i hi
    have hlt : i < ctx.slotUsed.length := by
      rw [h.bitmap]
      exact List.mem_range.mp hi
    refine (h.used i).mp ?_
    rw [List.getElem?_eq_getElem hlt]
    have := hnone ctx.slotUsed[i] (List.getElem_mem hlt)
    simpa using this
  have hle := (List.nodup_range.subperm hsub).length_le
  rwa [NvsCtx.slots, List.length_map, List.length_range] at hle

/-- A free slot is a slot, and nobody's. -/
theorem free (h : SlotsOwned cfg ctx) (hfree : findFreeSlot ctx.slotUsed = some slot) :
    slot.toNat < cfg.maxMessages.toNat ∧ slot.toNat ∉ ctx.slots := by
  obtain ⟨pos, hpos, rfl⟩ := Option.map_eq_some_iff.mp hfree
  obtain ⟨used, hget, hused⟩ := findPos_some hpos
  have hlt : pos < cfg.maxMessages.toNat := by
    rw [← h.bitmap]
    exact (List.getElem?_eq_some_iff.mp hget).1
  have hmax := cfg.maxMessages.toNat_lt
  have hnum : (UInt32.ofNat pos).toNat = pos := by
    apply UInt32.toNat_ofNat_of_lt'
    simp only [UInt32.size]
    omega
  rw [hnum]
  refine ⟨hlt, fun hmem => ?_⟩
  have htrue := (h.used pos).mpr hmem
  rw [hget] at htrue
  rw [Option.some.inj htrue] at hused
  exact absurd hused (by decide)

/-- A new entry takes a slot that is nobody's. -/
theorem append (h : SlotsOwned cfg ctx) {e : NvsIndexEntry}
    (hlt : e.slot.toNat < cfg.maxMessages.toNat) (hnew : e.slot.toNat ∉ ctx.slots)
    (hindex : ctx'.index = ctx.index ++ [e])
    (hused : ctx'.slotUsed = ctx.slotUsed.set e.slot.toNat true) : SlotsOwned cfg ctx' := by
  have hslots : ctx'.slots = ctx.slots ++ [e.slot.toNat] := by
    rw [NvsCtx.slots, hindex, List.map_append]
    rfl
  refine ⟨by rw [hused, List.length_set]; exact h.bitmap, ?_, fun i => ?_⟩
  · rw [hslots]
    exact h.distinct.append (List.nodup_singleton _) fun i hi hi' =>
      hnew (List.mem_singleton.mp hi' ▸ hi)
  · rw [hslots, List.mem_append, List.mem_singleton, hused, List.getElem?_set, ← h.used i]
    by_cases hi : e.slot.toNat = i
    · rw [if_pos hi, if_pos (by rw [h.bitmap]; omega)]
      exact ⟨fun _ => .inr hi.symm, fun _ => rfl⟩
    · rw [if_neg hi]
      exact ⟨.inl, fun hor => hor.resolve_right (Ne.symm hi)⟩

/-- An entry that leaves frees its slot. -/
theorem remove (h : SlotsOwned cfg ctx) {pos : Nat} {e : NvsIndexEntry}
    (he : ctx.index[pos]? = some e) (hindex : ctx'.index = swapRemove ctx.index pos)
    (hused : ctx'.slotUsed = ctx.slotUsed.set e.slot.toNat false) : SlotsOwned cfg ctx' := by
  have hperm : ctx.slots.Perm (e.slot.toNat :: ctx'.slots) := by
    have hp := (perm_swapRemove he).map fun e => e.slot.toNat
    rwa [List.map_cons, ← hindex] at hp
  have hnodup := List.nodup_cons.mp (hperm.nodup_iff.mp h.distinct)
  refine ⟨by rw [hused, List.length_set]; exact h.bitmap, hnodup.2, fun i => ?_⟩
  have hmem := @List.Perm.mem_iff _ i _ _ hperm
  rw [List.mem_cons] at hmem
  rw [hused, List.getElem?_set]
  by_cases hi : e.slot.toNat = i
  · have hlt := h.lt_of_mem (hmem.mpr (.inl hi.symm))
    rw [if_pos hi, if_pos (by rw [h.bitmap]; omega)]
    exact ⟨fun hf => absurd hf (by simp), fun hin => absurd (hi ▸ hin) hnodup.1⟩
  · rw [if_neg hi, h.used i, hmem]
    exact ⟨fun hor => hor.resolve_left (Ne.symm hi), .inr⟩

/-- Nothing is in use when a restart begins. -/
theorem empty (ctx : NvsCtx) : SlotsOwned cfg
    { ctx with index := [], slotUsed := List.replicate cfg.maxMessages.toNat false } := by
  refine ⟨List.length_replicate, List.nodup_nil, fun i => ?_⟩
  rw [List.getElem?_replicate]
  constructor
  · intro h
    split at h <;> simp at h
  · exact fun h => absurd h List.not_mem_nil

end SlotsOwned

/-! ## Programs that leave the slots alone -/

theorem owners_writeEntry (e : NvsIndexEntry) (destination : Bytes) (payload : Body) :
    Keeps NvsCtx.owners (writeEntry cfg e destination payload) := by
  refine Keeps.bind Keeps.read fun ctx => ?_
  split
  · exact Keeps.fail _
  · refine Keeps.bind (Keeps.modify fun _ => rfl) fun _ => Keeps.bind (Keeps.ask _) fun _ => ?_
    refine Keeps.ite (Keeps.bind (Keeps.ask _) fun _ => ?_) (Keeps.fail _)
    exact Keeps.ite (Keeps.ret _) (Keeps.fail _)

theorem owners_readAndVerify (slot : UInt32) : Keeps NvsCtx.owners (readAndVerify cfg slot) := by
  refine Keeps.bind (Keeps.ask _) fun len => ?_
  cases len with
  | none => exact Keeps.fail _
  | some len =>
    refine Keeps.ite (Keeps.fail _) (Keeps.bind (Keeps.ask _) fun blob => ?_)
    cases blob with
    | none => exact Keeps.fail _
    | some blob =>
      refine Keeps.bind (Keeps.modify fun _ => rfl) fun _ => Keeps.bind Keeps.read fun ctx => ?_
      split
      · exact Keeps.fail _
      · exact Keeps.ite (Keeps.ret _) (Keeps.fail _)

theorem owners_discardSlot (slot : UInt32) : Keeps NvsCtx.owners (discardSlot slot) :=
  Keeps.bind (Keeps.ask _) fun _ => Keeps.bind (Keeps.ask _) fun _ => Keeps.ret _

theorem owners_nvsEntryAt (pos : Nat) : Keeps NvsCtx.owners (nvsEntryAt pos) := by
  refine Keeps.bind Keeps.read fun ctx => ?_
  split
  · exact Keeps.ret _
  · exact Keeps.fail _

/-- Assignments to an entry that keep its slot. -/
theorem owners_nvsAssignEntry (pos : Nat) {f : NvsIndexEntry → NvsIndexEntry}
    (h : ∀ e, (f e).slot = e.slot) : Keeps NvsCtx.owners (nvsAssignEntry pos f) := by
  refine Keeps.modify fun ctx => Prod.ext ?_ rfl
  exact map_modify_of_eq fun e _ => congrArg UInt32.toNat (h e)

theorem owners_nvsOpClaimNext (nowUs : Int64) : Keeps NvsCtx.owners (nvsOpClaimNext cfg nowUs) := by
  refine Keeps.bind Keeps.read fun ctx => ?_
  split
  · exact Keeps.fail _
  · refine Keeps.bind (owners_nvsEntryAt _) fun e => ?_
    refine Keeps.bind (owners_readAndVerify _).attempt fun res => ?_
    split
    · exact Keeps.bind (owners_nvsAssignEntry _ fun _ => rfl) fun _ =>
        Keeps.bind (owners_discardSlot _) fun _ => Keeps.ret _
    · exact Keeps.fail _
    · unfold nvsClaimIntact
      exact Keeps.bind (Keeps.modify fun _ => rfl) fun _ =>
        Keeps.bind (owners_nvsAssignEntry _ fun _ => rfl) fun _ =>
        Keeps.bind (owners_nvsEntryAt _) fun _ => Keeps.bind Keeps.read fun _ =>
        Keeps.bind (owners_writeEntry _ _ _) fun _ => Keeps.bind Keeps.read fun _ => Keeps.ret _

theorem owners_nvsOpScheduleRetry (id : UInt64) (nextRetryTimeUs : Int64) (deadLetter : Bool)
    (lastError : Int32) :
    Keeps NvsCtx.owners (nvsOpScheduleRetry cfg id nextRetryTimeUs deadLetter lastError) := by
  refine Keeps.bind Keeps.read fun ctx => ?_
  split
  · exact Keeps.fail _
  · exact Keeps.bind (owners_nvsEntryAt _) fun _ => Keeps.bind (owners_readAndVerify _) fun _ =>
      Keeps.bind Keeps.read fun _ => Keeps.bind (owners_nvsAssignEntry _ fun _ => rfl) fun _ =>
      Keeps.bind (owners_nvsEntryAt _) fun _ => owners_writeEntry _ _ _

theorem owners_nvsOpFindDropCandidate (policy : OverflowPolicy) :
    Keeps NvsCtx.owners (nvsOpFindDropCandidate policy) := by
  refine Keeps.bind Keeps.read fun ctx => ?_
  split
  · exact Keeps.fail _
  · exact Keeps.bind (owners_nvsEntryAt _) fun _ => Keeps.ret _

theorem owners_nvsOpGetStats (stats : EdgesyncStats) :
    Keeps NvsCtx.owners (nvsOpGetStats cfg stats) := by
  refine Keeps.bind Keeps.read fun ctx => Keeps.bind (Keeps.ask _) fun counts => ?_
  cases counts with
  | none => exact Keeps.ret _
  | some counts => exact Keeps.ret _

theorem owners_requeueSlot (pos : Nat) : Keeps NvsCtx.owners (requeueSlot cfg pos) :=
  Keeps.bind (owners_nvsEntryAt _) fun _ => Keeps.bind (owners_readAndVerify _) fun _ =>
    Keeps.bind Keeps.read fun _ => Keeps.bind (owners_nvsAssignEntry _ fun _ => rfl) fun _ =>
    Keeps.bind (owners_nvsEntryAt _) fun _ => owners_writeEntry _ _ _

theorem owners_nvsRequeueLoop (n i : Nat) : Keeps NvsCtx.owners (nvsRequeueLoop cfg n i) := by
  induction n generalizing i with
  | zero => exact Keeps.ret _
  | succ n ih =>
    unfold nvsRequeueLoop
    refine Keeps.bind (owners_nvsEntryAt _) fun e => ?_
    exact Keeps.ite (Keeps.bind (owners_requeueSlot i) fun _ => ih _) (ih _)

/-! ## Programs that give and take slots -/

/-- Writing a record fails for two reasons. -/
theorem leaves_writeEntry_error {e : NvsIndexEntry} {destination : Bytes} {payload : Body}
    {ctx : NvsCtx} : leaves (writeEntry cfg e destination payload) (fun _ _ => True)
      (fun err _ => err = .serialization ∨ err = .storage) ctx := by
  unfold writeEntry
  simp only [Prog.bind_eq, leaves_bind, leaves_read]
  split
  · exact leaves_fail.mpr (.inl rfl)
  · simp only [leaves_bind, leaves_modify]
    refine leaves_ask.mpr fun stored => ?_
    simp only [leaves_ite, leaves_fail, leaves_bind]
    refine ⟨fun _ => leaves_ask.mpr fun committed => ?_, fun _ => .inr trivial⟩
    exact ⟨fun _ => leaves_ret.mpr trivial, fun _ => .inr trivial⟩

/-- `op_enqueue` takes a free slot; it reports a full queue exactly when the index is full. -/
theorem owned_nvsOpEnqueue {ctx : NvsCtx} (h : SlotsOwned cfg ctx) (message : EdgesyncMessage) :
    leaves (nvsOpEnqueue cfg message)
      (fun _ c => SlotsOwned cfg c ∧ ctx.index.length ≠ cfg.indexCapacity)
      (fun err c => SlotsOwned cfg c ∧ (err = .queueFull ↔ ctx.index.length = cfg.indexCapacity))
      ctx := by
  have hle := h.length_le
  unfold nvsOpEnqueue
  simp only [Prog.bind_eq, leaves_bind, leaves_read]
  refine leaves_ite.mpr ⟨fun hfull => ?_, fun hroom => ?_⟩
  · exact leaves_fail.mpr ⟨h, iff_of_true rfl (Nat.le_antisymm hle hfull)⟩
  · cases hfree : findFreeSlot ctx.slotUsed with
    | none => exact absurd (h.full hfree) hroom
    | some slot =>
      obtain ⟨hlt, hnew⟩ := h.free hfree
      have hne : ctx.index.length ≠ cfg.indexCapacity := by omega
      refine leaves_bind.mpr (leaves_mono (leaves_and (owners_writeEntry _ _ _ ctx)
        leaves_writeEntry_error) (fun _ c hc => ?_) fun err c hc => ?_)
      · have hc' := h.congr hc.1
        have hslots : c.slots = ctx.slots := (Prod.mk.inj hc.1).1
        exact leaves_modify.mpr ⟨hc'.append hlt (by rwa [hslots]) rfl rfl, hne⟩
      · refine ⟨h.congr hc.1, iff_of_false (fun herr => ?_) hne⟩
        rcases hc.2 with h' | h' <;> exact absurd (herr.symm.trans h') (by decide)

/-- `op_mark_delivered` and `op_remove` give the slot back. -/
theorem owned_nvsOpMarkDelivered {ctx : NvsCtx} (h : SlotsOwned cfg ctx) (id : UInt64) :
    leaves (nvsOpMarkDelivered id) (fun _ c => SlotsOwned cfg c) (fun _ c => SlotsOwned cfg c)
      ctx := by
  unfold nvsOpMarkDelivered
  simp only [Prog.bind_eq, leaves_bind, leaves_read]
  cases hpos : nvsFindEntry ctx.index id with
  | none => exact leaves_fail.mpr h
  | some pos =>
    obtain ⟨e, he, _⟩ := findPos_some hpos
    simp only [leaves_bind]
    refine leaves_nvsEntryAt he (leaves_ask.mpr fun erased => ?_)
    simp only [leaves_ite, leaves_fail, leaves_bind]
    refine ⟨fun _ => leaves_ask.mpr fun committed => ⟨fun _ => ?_, fun _ => h⟩, fun _ => h⟩
    refine leaves_modify.mpr (h.remove he rfl ?_)
    rw [he]

/-- One slot of a restart: the slots before it are already taken or free. -/
theorem owned_recoverSlot {ctx : NvsCtx} {slot : Nat} (h : SlotsOwned cfg ctx)
    (hslot : slot < cfg.maxMessages.toNat) (hbelow : ∀ i ∈ ctx.slots, i < slot) :
    leaves (recoverSlot cfg (UInt32.ofNat slot))
      (fun _ c => SlotsOwned cfg c ∧ ∀ i ∈ c.slots, i < slot + 1)
      (fun _ c => SlotsOwned cfg c) ctx := by
  have hnum : (UInt32.ofNat slot).toNat = slot :=
    UInt32.toNat_ofNat_of_lt' (Nat.lt_trans hslot cfg.maxMessages.toNat_lt)
  unfold recoverSlot
  simp only [Prog.bind_eq]
  refine (owners_readAndVerify _).attempt.seq (fun res c hc => ?_) fun _ c hc => h.congr hc
  have hc' := h.congr hc
  have hslots : c.slots = ctx.slots := (Prod.mk.inj hc).1
  have hnext : ∀ i ∈ c.slots, i < slot + 1 := by
    intro i hi
    rw [hslots] at hi
    exact Nat.lt_succ_of_lt (hbelow i hi)
  split
  · exact leaves_ret.mpr ⟨hc', hnext⟩
  · exact leaves_discardSlot ⟨hc', hnext⟩
  · exact leaves_fail.mpr hc'
  · refine leaves_bind.mpr (leaves_read.mpr (leaves_ite.mpr ⟨fun _ => ?_, fun _ => ?_⟩))
    · exact leaves_ret.mpr ⟨hc', hnext⟩
    · rename_i hdr _
      have hnew : (hdr.nvsEntry (UInt32.ofNat slot)).slot.toNat = slot := hnum
      refine leaves_modify.mpr ⟨hc'.append ?_ ?_ rfl rfl, fun i hi => ?_⟩
      · rwa [hnew]
      · rw [hnew, hslots]
        exact fun hmem => absurd (hbelow slot hmem) (Nat.lt_irrefl slot)
      · rw [NvsCtx.slots, List.map_append, List.mem_append] at hi
        refine hi.elim (hnext i) fun hi => ?_
        rw [List.map_singleton, List.mem_singleton, hnew] at hi
        omega

theorem owned_recoverSlots (n : Nat) {ctx : NvsCtx} {slot : Nat} (h : SlotsOwned cfg ctx)
    (hslot : slot + n ≤ cfg.maxMessages.toNat) (hbelow : ∀ i ∈ ctx.slots, i < slot) :
    leaves (recoverSlots cfg n slot) (fun _ c => SlotsOwned cfg c) (fun _ c => SlotsOwned cfg c)
      ctx := by
  induction n generalizing ctx slot with
  | zero => exact leaves_ret.mpr h
  | succ n ih =>
    refine leaves_seq (owned_recoverSlot h (by omega) hbelow) (fun _ c hc => ?_) fun _ _ hc => hc
    exact ih hc.1 (by omega) hc.2

/-- `op_recover` builds index and bitmap anew, whatever the store holds and however it ends. -/
theorem owned_nvsOpRecover (ctx : NvsCtx) : leaves (nvsOpRecover cfg) (fun _ c => SlotsOwned cfg c)
    (fun _ c => SlotsOwned cfg c) ctx := by
  unfold nvsOpRecover
  simp only [Prog.bind_eq, leaves_bind, leaves_modify, leaves_read]
  refine leaves_mono (owned_recoverSlots _ (.empty ctx) (Nat.zero_add _).le fun i hi => ?_)
    (fun _ c hc => ?_) fun _ _ hc => hc
  · exact absurd hi List.not_mem_nil
  · exact leaves_mono (owners_nvsRequeueLoop _ _ c) (fun _ _ hc' => hc.congr hc')
      fun _ _ hc' => hc.congr hc'

/-- Every call. -/
theorem owned_nvsCall {ctx : NvsCtx} (h : SlotsOwned cfg ctx) (op : StorageOp) :
    leaves (nvsCall cfg op) (fun _ c => SlotsOwned cfg c) (fun _ c => SlotsOwned cfg c) ctx := by
  unfold nvsCall
  cases op <;> simp only [StorageOps.call, sNvsOps, Prog.bind_eq, Prog.pure_eq, leaves_bind,
    leaves_ret]
  case enqueue message =>
    exact leaves_mono (owned_nvsOpEnqueue h message) (fun _ _ hc => hc.1) fun _ _ hc => hc.1
  case claimNext nowUs =>
    exact leaves_mono (owners_nvsOpClaimNext nowUs ctx) (fun _ _ hc => h.congr hc)
      fun _ _ hc => h.congr hc
  case markDelivered id => exact owned_nvsOpMarkDelivered h id
  case scheduleRetry id nextRetryTimeUs deadLetter lastError =>
    exact leaves_mono (owners_nvsOpScheduleRetry id nextRetryTimeUs deadLetter lastError ctx)
      (fun _ _ hc => h.congr hc) fun _ _ hc => h.congr hc
  case remove id => exact owned_nvsOpMarkDelivered h id
  case findDropCandidate policy =>
    exact leaves_mono (owners_nvsOpFindDropCandidate policy ctx) (fun _ _ hc => h.congr hc)
      fun _ _ hc => h.congr hc
  case getStats stats =>
    exact leaves_mono (owners_nvsOpGetStats stats ctx) (fun _ _ hc => h.congr hc)
      fun _ _ hc => h.congr hc

/-! ## Runs -/

/-- A running backend owns its slots. -/
def SlotsOwnedBy {usage : BlobStore → UInt32 × UInt32} :
    StorageSystem (nvsBackend usage cfg) → Prop
  | .off _ => True
  | .on ctx _ => SlotsOwned cfg ctx

variable {usage : BlobStore → UInt32 × UInt32} {W : StorageWorld (nvsBackend usage cfg)}
  {sys sys' : StorageSystem (nvsBackend usage cfg)} {labels : List FlashqStepLabel}

theorem SlotsOwnedBy.step {label : FlashqStepLabel} (h : SlotsOwnedBy sys)
    (step : StorageStep (nvsBackend usage cfg) W sys label sys') : SlotsOwnedBy sys' := by
  cases step with
  | @call ctx ctx' dev dev' op res run =>
    have hmeets := leaves_sound run (owned_nvsCall h op)
    cases res with
    | ok reply => exact hmeets
    | error err => exact hmeets
  | boot picked run => exact leaves_sound run (owned_nvsOpRecover _)
  | cut run => trivial
  | stop => trivial
  | bootFail picked run => trivial
  | bootCut picked run => trivial

/-- Index and bitmap agree in every state of every run, whatever fails. -/
theorem SlotsOwnedBy.run {s0 : BlobStore}
    (run : StorageRun (nvsBackend usage cfg) W (.off s0) labels sys) : SlotsOwnedBy sys := by
  induction run with
  | nil => trivial
  | snoc _ step ih => exact ih.step step

/-! ## The blobs of the other entries -/

section Blobs

variable {env : Env BlobCall BlobStore BlobEvent} {ctx : NvsCtx} {s : BlobStore}

theorem only_writeEntry {e : NvsIndexEntry} {destination : Bytes} {payload : Body} {key : Nat}
    (h : slotKey e.slot ≠ key) :
    Only (BlobCall.Spares key) (writeEntry cfg e destination payload) := by
  refine Only.bind Only.read fun ctx => ?_
  split
  · exact Only.fail _
  · refine Only.bind (Only.modify _) fun _ => Only.bind (Only.ask h) fun _ => ?_
    refine Only.ite (fun _ => Only.bind (Only.ask trivial) fun _ => ?_) fun _ => Only.fail _
    exact Only.ite (fun _ => Only.ret _) fun _ => Only.fail _

/-- With keys for all slots, `op_enqueue` leaves the blobs of the entries alone. -/
theorem enqueue_spares (h : SlotsOwned cfg ctx) (hmax : cfg.maxMessages.toNat ≤ 100000)
    {e : NvsIndexEntry} (he : e ∈ ctx.index) (message : EdgesyncMessage) :
    wp (blobDevice usage) env (nvsOpEnqueue cfg message)
      (.always fun s' => s' (slotKey e.slot) = s (slotKey e.slot)) ctx s := by
  have hmem : e.slot.toNat ∈ ctx.slots := List.mem_map_of_mem he
  have hlt := h.lt_of_mem hmem
  unfold nvsOpEnqueue
  simp only [Prog.bind_eq, wp_bind, wp_read, wp_ite]
  refine ⟨fun _ => wp_fail.mpr rfl, fun _ => ?_⟩
  cases hfree : findFreeSlot ctx.slotUsed with
  | none => exact wp_fail.mpr rfl
  | some slot =>
    obtain ⟨hslot, hnew⟩ := h.free hfree
    have hne : slotKey slot ≠ slotKey e.slot := by
      rw [slotKey, slotKey, Nat.mod_eq_of_lt (by omega), Nat.mod_eq_of_lt (by omega)]
      exact fun heq => hnew (heq ▸ hmem)
    refine wp_always_bind ((only_writeEntry hne).keeps (fun s' c ev hc hs' => ?_) rfl)
      fun _ _ _ hs' => wp_modify.mpr hs'
    exact (hc.respond s' ev).trans hs'

theorem nvs_spares_entries (h : SlotsOwned cfg ctx) (hmax : cfg.maxMessages.toNat ≤ 100000)
    {e : NvsIndexEntry} (he : e ∈ ctx.index) {message : EdgesyncMessage}
    {o : Outcome NvsCtx BlobStore EspErr StorageReply}
    (run : Runs (blobDevice usage) env (nvsCall cfg (.enqueue message)) ctx s o) :
    o.dev (slotKey e.slot) = s (slotKey e.slot) := by
  refine Outcome.meets_always.mp (wp_sound run (wp_always_bind (enqueue_spares h hmax he message)
    fun _ _ _ hs' => ?_))
  exact wp_ret.mpr hs'

/-- A full index is reported, and nothing else is reported as one. -/
theorem nvs_reports_full (h : SlotsOwned cfg ctx) {message : EdgesyncMessage}
    {o : Outcome NvsCtx BlobStore EspErr StorageReply}
    (run : Runs (blobDevice usage) env (nvsCall cfg (.enqueue message)) ctx s o) :
    (∃ ctx' s', o = .error .queueFull ctx' s') ↔ ctx.index.length = cfg.maxMessages.toNat := by
  constructor
  · rintro ⟨ctx', s', rfl⟩
    have hrefuses : leaves (nvsCall cfg (.enqueue message)) (fun _ _ => True)
        (fun err _ => err = .queueFull ↔ ctx.index.length = cfg.indexCapacity) ctx :=
      leaves_seq (owned_nvsOpEnqueue h message) (fun _ _ _ => leaves_ret.mpr trivial)
        fun _ _ hc => hc.2
    exact (leaves_sound run hrefuses).mp rfl
  · intro hfull
    have hrefused : wp (blobDevice usage) env (nvsCall cfg (.enqueue message))
        ⟨fun _ _ _ => False, fun err _ _ => err = .queueFull, fun _ => False⟩ ctx s := by
      unfold nvsCall
      simp only [StorageOps.call, sNvsOps, nvsOpEnqueue, Prog.bind_eq, wp_bind, wp_read, wp_ite]
      exact ⟨fun _ => wp_fail.mpr rfl, fun hroom => absurd hfull.ge hroom⟩
    have hmeets := wp_sound run hrefused
    cases o with
    | ok reply c s' => exact absurd hmeets id
    | error err c s' =>
      obtain rfl : err = .queueFull := hmeets
      exact ⟨c, s', rfl⟩
    | cut s' => exact absurd hmeets id

end Blobs

/-- In every run with keys for all slots, under any failures and from any contents of
the store: the entries have slots of their own, the bitmap marks these slots, and
`op_enqueue` leaves the blobs of the entries alone and reports a full queue exactly when
every slot has its entry. -/
theorem slots_owned {s0 s : BlobStore} {ctx : NvsCtx} (hmax : cfg.maxMessages.toNat ≤ 100000)
    (run : StorageRun (nvsBackend usage cfg) W (.off s0) labels (.on ctx s)) :
    (∀ e ∈ ctx.index, e.slot < cfg.maxMessages) ∧ (ctx.index.map (·.slot)).Nodup ∧
    (∀ i, ctx.slotUsed[i]? = some true ↔ ∃ e ∈ ctx.index, e.slot.toNat = i) ∧
    ctx.index.length ≤ cfg.maxMessages.toNat ∧
    ∀ (message : EdgesyncMessage) (o : Outcome NvsCtx BlobStore EspErr StorageReply),
      Runs (blobDevice usage) W.calls (nvsCall cfg (.enqueue message)) ctx s o →
      (∀ e ∈ ctx.index, o.dev (slotKey e.slot) = s (slotKey e.slot)) ∧
      ((∃ ctx' s', o = .error .queueFull ctx' s') ↔
        ctx.index.length = cfg.maxMessages.toNat) := by
  have h : SlotsOwned cfg ctx := SlotsOwnedBy.run run
  refine ⟨fun e he => ?_, ?_, fun i => ?_, h.length_le, fun message o hrun => ⟨fun e he => ?_, ?_⟩⟩
  · exact UInt32.lt_iff_toNat_lt.mpr (h.lt_of_mem (List.mem_map_of_mem he))
  · refine List.Nodup.of_map UInt32.toNat ?_
    rw [List.map_map]
    exact h.distinct
  · rw [h.used i, NvsCtx.slots, List.mem_map]
  · exact nvs_spares_entries h hmax he hrun
  · exact nvs_reports_full h hrun

/-- A message whose commit fails, and two that are accepted; the first of them is delivered. -/
def ownershipScript : NvsScript :=
  [(.boot, []), (.call (.enqueue slotMessage), [.run, .fail]), (.call (.enqueue slotMessage), []),
    (.call (.enqueue { slotMessage with id := 8 }), []), (.call (.markDelivered 7), [])]

/-- The second accepted message is left, in the second slot. -/
def ownershipShows :
    List FlashqStepLabel × StorageSystem (nvsBackend noUsage slotConfig) → Bool
  | (_, .on ctx _) => decide ((NvsCtx.index ctx).map (fun e => (e.id, e.slot)) = [(8, 1)])
  | _ => false

theorem slots_owned_second : ∃ (ctx : NvsCtx) (e : NvsIndexEntry),
    ctx.index = [e] ∧ (e.id, e.slot) = (8, 1) ∧ (ctx.slotUsed[0]? ≠ some true) ∧
      ctx.slotUsed[1]? = some true := by
  have hcheck : (nvsPlay slotConfig (.off emptyStore) ownershipScript []).any ownershipShows =
      true := by decide +kernel
  obtain ⟨⟨labels, sys⟩, hplay, hshows⟩ := (Option.any_eq_true _ _).mp hcheck
  unfold ownershipShows at hshows
  split at hshows
  · rename_i ctx _ heq
    cases heq
    have hindex := of_decide_eq_true hshows
    obtain ⟨e, hctx, he⟩ := List.map_eq_singleton_iff.mp hindex
    have run := @nvsPlay_run slotConfig (fun _ _ _ => True) _ _ _ ownershipScript [] labels
      (fun _ _ => trivial) (fun _ _ _ _ _ _ => trivial) .nil hplay
    obtain ⟨_, _, hused, _, _⟩ := slots_owned (by decide) run
    refine ⟨ctx, e, hctx, he, fun h0 => ?_, (hused 1).mpr ⟨e, ?_, ?_⟩⟩
    · obtain ⟨e', he', hslot⟩ := (hused 0).mp h0
      rw [hctx, List.mem_singleton] at he'
      rw [he', (Prod.mk.inj he).2] at hslot
      exact absurd hslot (by decide)
    · rw [hctx]
      exact List.mem_singleton_self e
    · rw [(Prod.mk.inj he).2]
      decide
  · exact absurd hshows (by simp)

end EdgeSync
