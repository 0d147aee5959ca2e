/-
  Nvs/Recovery.lean --- `op_recover` of the NVS backend.

  The first loop makes an entry of every slot that holds a record, the second
  writes back the records of the messages that were in flight.  The index is then
  in the order of the slots, whatever it was before.
-/
import EdgeSync.Nvs.Invariant

set_option autoImplicit false

namespace EdgeSync

open Foundation

variable {cfg : NvsConfig}

/-! ## What a store holds -/

/-- The message in a blob. -/
def blobMessage (data : Bytes) : Option StoredMessage :=
  (decodeHeader data data.length).map fun hdr =>
    { toEntryMeta := (hdr.nvsEntry 0).toEntryMeta
      destination := slice data hdrSize hdr.destinationLen.toNat
      payload := slice data (hdrSize + hdr.destinationLen.toNat) hdr.bodyLen.toNat }

/-- The message in a slot. -/
def storedMessage (s : BlobStore) (i : Nat) : Option StoredMessage :=
  (s (slotKey (UInt32.ofNat i))).bind blobMessage

/-- The messages in the first `n` slots. -/
def storedQueue (s : BlobStore) (n : Nat) : List StoredMessage :=
  (List.range n).filterMap (storedMessage s)

/-- The entries `op_recover` makes of the first `n` slots. -/
def recoveredIndex (s : BlobStore) (n : Nat) : List NvsIndexEntry :=
  (List.range n).filterMap fun i =>
    (storedMessage s i).map fun x => ⟨x.toEntryMeta, UInt32.ofNat i⟩

variable (cfg) in
/-- Every blob is the record of a message. -/
def Recorded (s : BlobStore) : Prop :=
  ∀ k data, s k = some data → ∃ x : StoredMessage, x.Sized cfg ∧ data = x.blob

variable (cfg) in
/-- No record is in two slots. -/
def DistinctKeys (s : BlobStore) : Prop :=
  ∀ i j, i < j → j < cfg.maxMessages.toNat →
    slotKey (UInt32.ofNat i) = slotKey (UInt32.ofNat j) → s (slotKey (UInt32.ofNat i)) = none

/-- Below 100000 messages that is always so. -/
theorem distinctKeys (hmax : cfg.maxMessages.toNat ≤ 100000) (s : BlobStore) :
    DistinctKeys cfg s := by
  intro i j hij hj hk
  have hlt := cfg.maxMessages.toNat_lt
  have h1 : (UInt32.ofNat i).toNat = i :=
    UInt32.toNat_ofNat_of_lt' (by simp only [UInt32.size]; omega)
  have h2 : (UInt32.ofNat j).toNat = j :=
    UInt32.toNat_ofNat_of_lt' (by simp only [UInt32.size]; omega)
  simp only [slotKey, h1, h2] at hk
  omega

variable (cfg) in
/-- Every record is in a slot. -/
def InSlots (s : BlobStore) : Prop :=
  ∀ k data, s k = some data → ∃ i, i < cfg.maxMessages.toNat ∧ slotKey (UInt32.ofNat i) = k

section Stored

variable {s : BlobStore} {x y : StoredMessage} {ctx : NvsCtx}

/-- The header of a record makes the entry of the message. -/
theorem StoredMessage.Sized.nvsEntry_hdr (h : x.Sized cfg) (slot : UInt32) :
    x.hdr.nvsEntry slot = ⟨x.toEntryMeta, slot⟩ := by
  have hd := h.hdr_destinationLen
  rw [RecordHdr.nvsEntry, hd]
  rfl

/-- A record holds its message. -/
theorem blobMessage_blob (h : x.Sized cfg) : blobMessage x.blob = some x := by
  have hdec := h.decode []
  have hbody := @StoredMessage.Sized.slice_body x []
  have hdest := @StoredMessage.Sized.slice_destination x []
  rw [List.append_nil] at hdec hbody hdest
  have hdl : x.hdr.destinationLen.toNat = x.destination.length := by
    rw [h.hdr_destinationLen, h.destinationLen_toNat]
  have hpl : x.hdr.bodyLen.toNat = x.payload.length := h.payloadLen
  have hpay : slice x.blob (hdrSize + x.destination.length) x.payload.length = x.payload := by
    rw [← slice_append_slice, hdest] at hbody
    exact List.append_cancel_left hbody
  rw [blobMessage, hdec]
  simp only [Option.map_some, h.nvsEntry_hdr, hdl, hpl, hdest, hpay]

theorem blob_inj (hx : x.Sized cfg) (hy : y.Sized cfg) (h : x.blob = y.blob) : x = y := by
  have := blobMessage_blob hx
  rw [h, blobMessage_blob hy] at this
  exact (Option.some.inj this).symm

theorem slot_toNat {i : Nat} (h : i < cfg.maxMessages.toNat) : (UInt32.ofNat i).toNat = i :=
  UInt32.toNat_ofNat_of_lt' (by have := cfg.maxMessages.toNat_lt; simp only [UInt32.size]; omega)

theorem storedMessage_eq {i : Nat} (hx : x.Sized cfg)
    (h : s (slotKey (UInt32.ofNat i)) = some x.blob) : storedMessage s i = some x := by
  rw [storedMessage, h]
  exact blobMessage_blob hx

/-- What a slot of a recorded store holds. -/
theorem Recorded.cases (h : Recorded cfg s) (i : Nat) :
    (s (slotKey (UInt32.ofNat i)) = none ∧ storedMessage s i = none) ∨
    ∃ x, x.Sized cfg ∧ s (slotKey (UInt32.ofNat i)) = some x.blob ∧ storedMessage s i = some x := by
  cases hs : s (slotKey (UInt32.ofNat i)) with
  | none => exact .inl ⟨rfl, by rw [storedMessage, hs]; rfl⟩
  | some data =>
    obtain ⟨x, hx, rfl⟩ := h _ _ hs
    exact .inr ⟨x, hx, rfl, storedMessage_eq hx hs⟩

theorem recoveredIndex_succ (s : BlobStore) (n : Nat) : recoveredIndex s (n + 1) =
    recoveredIndex s n ++
      ((storedMessage s n).map fun x => (⟨x.toEntryMeta, UInt32.ofNat n⟩ : NvsIndexEntry)).toList := by
  rw [recoveredIndex, List.range_succ, List.filterMap_append, List.filterMap_cons]
  cases storedMessage s n <;> rfl

theorem length_recoveredIndex_le (s : BlobStore) (n : Nat) : (recoveredIndex s n).length ≤ n := by
  have h := List.length_filterMap_le (fun i =>
    (storedMessage s i).map fun x => (⟨x.toEntryMeta, UInt32.ofNat i⟩ : NvsIndexEntry))
    (List.range n)
  rwa [List.length_range] at h

/-- An entry that was recovered. -/
theorem mem_recoveredIndex {n : Nat} {e : NvsIndexEntry} :
    e ∈ recoveredIndex s n ↔
      ∃ i x, i < n ∧ storedMessage s i = some x ∧ e = ⟨x.toEntryMeta, UInt32.ofNat i⟩ := by
  simp only [recoveredIndex, List.mem_filterMap, List.mem_range, Option.map_eq_some_iff]
  constructor
  · rintro ⟨i, hi, x, hx, rfl⟩
    exact ⟨i, x, hi, hx, rfl⟩
  · rintro ⟨i, x, hi, hx, rfl⟩
    exact ⟨i, hi, x, hx, rfl⟩

end Stored

/-! ## The first loop -/

variable (cfg) in
/-- The first `n` slots were looked at; a slot whose size could not be read is passed
over. -/
structure Opening (env : Env BlobCall BlobStore BlobEvent) (ctx : NvsCtx) (s : BlobStore) (n : Nat) :
    Prop where
  found : ctx.index.Sublist (recoveredIndex s n)
  complete : ¬ NvsFails env .getBlob → ctx.index = recoveredIndex s n
  slots : ctx.slotUsed.length = cfg.maxMessages.toNat
  used : ∀ i, ctx.slotUsed[i]? = some true ↔ i ∈ ctx.index.map fun e => e.slot.toNat

section Programs

variable {usage : BlobStore → UInt32 × UInt32} {env : Env BlobCall BlobStore BlobEvent}
  {ctx : NvsCtx} {s : BlobStore}

/-- The index is empty at first, and no slot in use. -/
theorem Opening.start : Opening cfg env
    { ctx with index := [], slotUsed := List.replicate cfg.maxMessages.toNat false } s 0 := by
  refine ⟨List.nil_sublist _, fun _ => rfl, List.length_replicate, fun i => ?_⟩
  simp only [List.map_nil, List.not_mem_nil, iff_false]
  intro h
  obtain ⟨_, hget⟩ := List.getElem?_eq_some_iff.mp h
  simp at hget

theorem wp_recoverSlot {P : Post NvsCtx BlobStore EspErr Unit} {n : Nat} (hs : Recorded cfg s)
    (ho : Opening cfg env ctx s n) (hn : n < cfg.maxMessages.toNat)
    (hok : ∀ ctx', Opening cfg env ctx' s (n + 1) → P.ok () ctx' s)
    (herr : ∀ err, NvsFails env .getBlob → P.error err ctx s)
    (hcut : P.cut s) : wp (blobDevice usage) env (recoverSlot cfg (UInt32.ofNat n)) P ctx s := by
  unfold recoverSlot
  simp only [Prog.bind_eq, wp_bind, wp_attempt]
  have hnext : (recoveredIndex s n).Sublist (recoveredIndex s (n + 1)) := by
    rw [recoveredIndex_succ]
    exact List.sublist_append_left _ _
  rcases hs.cases n with ⟨hnone, hm⟩ | ⟨x, hx, hsome, hm⟩
  · refine wp_readAndVerify_none hnone ?_ fun _ _ _ => hcut
    refine wp_ret.mpr (hok _ ⟨ho.found.trans hnext, fun hno => ?_, ho.slots, ho.used⟩)
    rw [recoveredIndex_succ, hm, ho.complete hno]
    exact (List.append_nil _).symm
  · have hheld : Holds cfg s (UInt32.ofNat n) x := ⟨hsome, hx⟩
    refine hheld.wp_read ?_ (fun hget => ⟨wp_ret.mpr (hok _ ⟨ho.found.trans hnext,
      fun hno => absurd hget hno, ho.slots, ho.used⟩), wp_fail.mpr (herr _ hget)⟩) hcut
    have hlen : ctx.index.length < cfg.indexCapacity := by
      have := length_recoveredIndex_le s n
      have := ho.found.length_le
      rw [NvsConfig.indexCapacity]
      omega
    simp only [wp_read, if_neg (Nat.not_le.mpr hlen), wp_modify]
    have hto := @slot_toNat cfg n hn
    rw [hx.nvsEntry_hdr]
    refine hok _ ⟨?_, fun hno => ?_, ?_, ?_⟩
    · rw [recoveredIndex_succ, hm]
      exact ho.found.append_right _
    · simp only [recoveredIndex_succ, hm, ho.complete hno]
      rfl
    · simp only [List.length_set]
      exact ho.slots
    · intro i
      simp only [List.getElem?_set, List.map_append, List.map_singleton, List.mem_append,
        List.mem_singleton, hto]
      by_cases hi : n = i
      · rw [if_pos hi, if_pos (by rw [ho.slots]; exact hn)]
        exact ⟨fun _ => .inr hi.symm, fun _ => rfl⟩
      · rw [if_neg hi, ho.used i]
        exact ⟨.inl, fun h => h.resolve_right (Ne.symm hi)⟩

theorem wp_recoverSlots {P : Post NvsCtx BlobStore EspErr Unit} (hs : Recorded cfg s)
    (hok : ∀ ctx', Opening cfg env ctx' s cfg.maxMessages.toNat → P.ok () ctx' s)
    (herr : ∀ err ctx', NvsFails env .getBlob → P.error err ctx' s)
    (hcut : P.cut s) (n slot : Nat) (ctx : NvsCtx) (hn : slot + n = cfg.maxMessages.toNat)
    (ho : Opening cfg env ctx s slot) :
    wp (blobDevice usage) env (recoverSlots cfg n slot) P ctx s := by
  induction n generalizing slot ctx with
  | zero =>
    rw [Nat.add_zero] at hn
    rw [hn] at ho
    exact wp_ret.mpr (hok ctx ho)
  | succ n ih =>
    unfold recoverSlots
    simp only [Prog.bind_eq, wp_bind]
    refine wp_recoverSlot hs ho (by omega) (fun ctx' ho' => ?_) (fun err => herr err ctx) hcut
    exact ih (slot + 1) ctx' (by omega) ho'

end Programs

/-! ## What the first loop found -/

section Opened

variable {env : Env BlobCall BlobStore BlobEvent} {ctx : NvsCtx} {s : BlobStore}

/-- The messages behind the recovered index. -/
theorem queue_recoveredIndex (hs : Recorded cfg s) (n : Nat) :
    (recoveredIndex s n).map (slotContent s) = storedQueue s n := by
  rw [recoveredIndex, storedQueue, List.map_filterMap]
  refine List.filterMap_congr fun i _ => ?_
  rcases hs.cases i with ⟨_, hm⟩ | ⟨x, hx, hsome, hm⟩
  · rw [hm]
    rfl
  · rw [hm]
    have hheld : Holds cfg s (⟨x.toEntryMeta, UInt32.ofNat i⟩ : NvsIndexEntry).slot x := ⟨hsome, hx⟩
    exact congrArg some (hheld.content rfl)

theorem nodup_recoveredIndex (hk : DistinctKeys cfg s) (n : Nat)
    (hn : n ≤ cfg.maxMessages.toNat) :
    ((recoveredIndex s n).map fun e => slotKey e.slot).Nodup := by
  induction n with
  | zero => exact List.nodup_nil
  | succ n ih =>
    rw [recoveredIndex_succ, List.map_append]
    refine (ih (by omega)).append ?_ fun k hold hnew => ?_
    · cases storedMessage s n with
      | none => exact List.nodup_nil
      | some x => exact List.nodup_singleton _
    · obtain ⟨e, he, rfl⟩ := List.mem_map.mp hold
      obtain ⟨i, x, hi, hm, rfl⟩ := mem_recoveredIndex.mp he
      have hkey : slotKey (UInt32.ofNat i) = slotKey (UInt32.ofNat n) := by
        cases hn' : storedMessage s n with
        | none => simp [hn'] at hnew
        | some y => simpa [hn'] using hnew
      -- the earlier slot would hold nothing
      have hnone := hk i n hi (by omega) hkey
      rw [storedMessage, hnone] at hm
      exact absurd hm (by simp)

/-- Distinct keys make a base. -/
theorem Opening.base (ho : Opening cfg env ctx s cfg.maxMessages.toNat) (hs : Recorded cfg s)
    (hk : DistinctKeys cfg s) : NvsBase cfg ctx s := by
  refine ⟨fun e he => ?_, ?_, ho.slots, ho.used⟩
  · obtain ⟨i, x, hi, hm, rfl⟩ := mem_recoveredIndex.mp (ho.found.subset he)
    rcases hs.cases i with ⟨_, hnone⟩ | ⟨y, hy, hsome, hy'⟩
    · rw [hm] at hnone
      exact absurd hnone (by simp)
    · obtain rfl := Option.some.inj (hm.symm.trans hy')
      have hheld : Holds cfg s (⟨x.toEntryMeta, UInt32.ofNat i⟩ : NvsIndexEntry).slot x :=
        ⟨hsome, hy⟩
      rw [hheld.content rfl]
      exact hheld
  · exact (nodup_recoveredIndex hk cfg.maxMessages.toNat (Nat.le_refl _)).sublist (ho.found.map _)

/-- The entries have the slots of all records. -/
theorem InSlots.only (hin : InSlots cfg s) (hs : Recorded cfg s)
    (hslots : ctx.index.map (·.slot) = (recoveredIndex s cfg.maxMessages.toNat).map (·.slot)) :
    NvsOnly ctx s := by
  intro k data hk
  obtain ⟨i, hi, rfl⟩ := hin k data hk
  have hkeys : ctx.index.map (fun e => slotKey e.slot) =
      (recoveredIndex s cfg.maxMessages.toNat).map fun e => slotKey e.slot := by
    have := congrArg (List.map slotKey) hslots
    simpa [List.map_map, Function.comp_def] using this
  rcases hs.cases i with ⟨hnone, _⟩ | ⟨x, _, _, hm⟩
  · rw [hk] at hnone
    exact absurd hnone (by simp)
  · rw [hkeys]
    exact List.mem_map.mpr ⟨_, mem_recoveredIndex.mpr ⟨i, x, hi, hm, rfl⟩, rfl⟩

end Opened

/-! ## The requeue loop -/

/-- What a restart makes of a message. -/
def StoredMessage.restarted (x : StoredMessage) : StoredMessage :=
  if x.state = FlashqState.inFlight.code then x.rewritten Progress.requeued else x

theorem StoredMessage.restarted_toEntryMeta (x : StoredMessage) :
    x.restarted.toEntryMeta = x.toEntryMeta.settle := by
  unfold StoredMessage.restarted
  split
  · rfl
  · rename_i h
    exact (EntryMeta.settle_of_ne h).symm

theorem StoredMessage.Sized.restarted {x : StoredMessage} (h : x.Sized cfg) :
    x.restarted.Sized cfg := by
  unfold StoredMessage.restarted
  split
  · exact (h.change _).cleared
  · exact h

variable (cfg) in
/-- Some messages that were in flight are settled in `s'`; all else is as in `s`. -/
def Requeued (s s' : BlobStore) : Prop :=
  ∀ k, s' k = s k ∨ ∃ x : StoredMessage, x.Sized cfg ∧ s k = some x.blob ∧
    s' k = some x.restarted.blob

theorem Requeued.refl (s : BlobStore) : Requeued cfg s s := fun _ => .inl rfl

theorem StoredMessage.restarted_restarted (x : StoredMessage) :
    x.restarted.restarted = x.restarted := by
  have h : x.restarted.state ≠ FlashqState.inFlight.code := by
    rw [x.restarted_toEntryMeta]
    exact Progress.requeued_state_ne _
  rw [StoredMessage.restarted, if_neg h]

theorem Requeued.trans {s s1 s2 : BlobStore} (h1 : Requeued cfg s s1) (h2 : Requeued cfg s1 s2) :
    Requeued cfg s s2 := by
  intro k
  rcases h2 k with h2 | ⟨y, hy, hold, hnew⟩
  · rcases h1 k with h1 | ⟨x, hx, hs, hs1⟩
    · exact .inl (h2.trans h1)
    · exact .inr ⟨x, hx, hs, h2.trans hs1⟩
  · rcases h1 k with h1 | ⟨x, hx, hs, hs1⟩
    · exact .inr ⟨y, hy, h1.symm.trans hold, hnew⟩
    · have hxy := blob_inj hx.restarted hy (Option.some.inj (hs1.symm.trans hold))
      refine .inr ⟨x, hx, hs, ?_⟩
      rw [hnew, ← hxy, x.restarted_restarted]

section Programs

variable {usage : BlobStore → UInt32 × UInt32} {env : Env BlobCall BlobStore BlobEvent}

/-- One turn for an entry in flight. -/
theorem wp_requeueSlot {P : Post NvsCtx BlobStore EspErr Unit} {ctx : NvsCtx} {s : BlobStore}
    {pos : Nat} {e : NvsIndexEntry} (b : NvsBase cfg ctx s)
    (he : ctx.index[pos]? = some e) (hfly : e.state = FlashqState.inFlight.code)
    (hok : ∀ ctx' : NvsCtx, ctx'.index = ctx.index.modify pos (·.change Progress.requeued) →
      ctx'.slotUsed = ctx.slotUsed →
      P.ok () ctx' (s.set (slotKey e.slot) (slotContent s e).restarted.blob))
    (herr : ∀ err ctx' f, NvsFails env f → P.error err ctx' s)
    (herr' : ∀ err ctx' f, NvsFails env f →
      P.error err ctx' (s.set (slotKey e.slot) (slotContent s e).restarted.blob))
    (hcut : P.cut s) (hcut' : P.cut (s.set (slotKey e.slot) (slotContent s e).restarted.blob)) :
    wp (blobDevice usage) env (requeueSlot cfg pos) P ctx s := by
  have hheld := b.held e (List.mem_of_getElem? he)
  generalize hx : slotContent s e = x at hheld hok herr' hcut'
  have hmeta : e.toEntryMeta = x.toEntryMeta := by rw [← hx]; rfl
  have hstate : x.state = FlashqState.inFlight.code := by rwa [hmeta] at hfly
  have hrestarted : x.restarted = x.rewritten Progress.requeued := if_pos hstate
  have hrequeued : e.change Progress.requeued =
      { e with state := FlashqState.pending.code, nextRetryAtUs := 0 } := by
    have hp : e.toEntryMeta.progress.requeued =
        { e.toEntryMeta.progress with
          state := FlashqState.pending.code
          nextRetryAtUs := 0 } := if_pos hfly
    rw [NvsIndexEntry.change, EntryMeta.change, hp]
    rfl
  unfold requeueSlot nvsAssignEntry
  simp only [Prog.bind_eq, wp_bind]
  refine wp_nvsEntryAt he (hheld.wp_read ?_ (fun hget => ⟨herr _ _ _ hget, herr _ _ _ hget⟩) hcut)
  simp only [wp_read, wp_modify]
  have hmod : (ctx.index.modify pos fun e =>
      { e with state := FlashqState.pending.code, nextRetryAtUs := 0 }) =
      ctx.index.modify pos (·.change Progress.requeued) := by
    rw [modify_of_getElem? he, modify_of_getElem? he, hrequeued]
  rw [hmod]
  refine wp_nvsEntryAt (nvs_getElem?_modify he) ?_
  rw [hheld.sized.hdr_destinationLen, hheld.sized.destinationLen_toNat]
  have hrec := @encode_slice cfg (e.change Progress.requeued) (x.change Progress.requeued)
    (destinationOf (x.blob ++ ctx.scratch.drop x.blob.length) hdrSize x.destination.length)
    (hheld.sized.change _) (by rw [NvsIndexEntry.change, hmeta]; rfl)
    (x.blob ++ ctx.scratch.drop x.blob.length)
    (cString_destinationOf hheld.sized (StoredMessage.Sized.slice_destination _))
  rw [hrestarted] at hok herr' hcut'
  exact wp_writeRecord hrec (hok _ rfl rfl) (herr _ _ _) (herr' _ _ _) hcut hcut'

/-- The loop, from position `i` on. -/
theorem wp_nvsRequeueLoop {P : Post NvsCtx BlobStore EspErr Unit} {s0 : BlobStore}
    {goal : List StoredMessage} {slots : List UInt32}
    (hok : ∀ ctx' s', NvsBase cfg ctx' s' → ctx'.queue s' = goal →
      ctx'.index.map (·.slot) = slots → Requeued cfg s0 s' → P.ok () ctx' s')
    (herr : ∀ err ctx' s' f, NvsFails env f → Requeued cfg s0 s' → P.error err ctx' s')
    (hcut : ∀ s', Requeued cfg s0 s' → P.cut s') (n i : Nat) (ctx : NvsCtx) (s : BlobStore)
    (hn : i + n = ctx.index.length) (b : NvsBase cfg ctx s) (hs : Requeued cfg s0 s)
    (hslots : ctx.index.map (·.slot) = slots)
    (hgoal : (ctx.queue s).take i ++ ((ctx.queue s).drop i).map StoredMessage.restarted = goal) :
    wp (blobDevice usage) env (nvsRequeueLoop cfg n i) P ctx s := by
  induction n generalizing i ctx s with
  | zero =>
    refine wp_ret.mpr (hok ctx s b ?_ hslots hs)
    have hlen : i = (ctx.queue s).length := by
      rw [length_nvsQueue]
      omega
    rw [← hgoal, hlen, List.take_length, List.drop_length]
    simp
  | succ n ih =>
    have hi : i < ctx.index.length := by omega
    have he := List.getElem?_eq_getElem hi
    have hget : (ctx.queue s)[i]? = some (slotContent s ctx.index[i]) := by
      rw [NvsCtx.queue, List.getElem?_map, he]
      rfl
    unfold nvsRequeueLoop
    simp only [Prog.bind_eq, wp_bind]
    refine wp_nvsEntryAt he (wp_ite.mpr ⟨fun hfly => wp_bind.mpr ?_, fun hother => ?_⟩)
    · have hheld := b.held _ (List.mem_of_getElem? he)
      have hstep : Requeued cfg s (s.set (slotKey ctx.index[i].slot)
          (slotContent s ctx.index[i]).restarted.blob) := by
        intro k
        by_cases hk : k = slotKey ctx.index[i].slot
        · rw [hk]
          exact .inr ⟨_, hheld.sized, hheld.stored, BlobStore.set_self ..⟩
        · exact .inl (BlobStore.set_other hk)
      refine wp_requeueSlot b he hfly ?_ (fun err ctx' f hf => herr err ctx' _ f hf hs)
        (fun err ctx' f hf => herr err ctx' _ f hf (hs.trans hstep)) (hcut _ hs)
        (hcut _ (hs.trans hstep))
      intro ctx' hindex hused
      have hmeta : (slotContent s ctx.index[i]).restarted.toEntryMeta =
          ctx.index[i].toEntryMeta.change Progress.requeued :=
        StoredMessage.restarted_toEntryMeta _
      obtain ⟨b', hq⟩ := b.assign he hheld.sized.restarted hmeta hindex hused
      refine ih (i + 1) ctx' _ ?_ b' (hs.trans hstep) ?_ ?_
      · rw [hindex, List.length_modify]
        omega
      · rw [hindex, ← hslots]
        exact map_modify_of_eq fun _ _ => rfl
      · rw [take_append_map_drop hget hq]
        exact hgoal
    · refine ih (i + 1) ctx s (by omega) b hs hslots ?_
      rw [take_append_map_drop (g := StoredMessage.restarted) hget ?_]
      · exact hgoal
      · have hsame : (slotContent s ctx.index[i]).restarted = slotContent s ctx.index[i] :=
          if_neg hother
        rw [hsame, set_of_getElem? hget]

/-- `op_recover`: the messages in the slots, settled. -/
theorem wp_nvsOpRecover {P : Post NvsCtx BlobStore EspErr Unit} {ctx : NvsCtx} {s : BlobStore}
    (hs : Recorded cfg s) (hk : DistinctKeys cfg s)
    (hok : ∀ ctx' s', NvsBase cfg ctx' s' →
      (¬ NvsFails env .getBlob →
        ctx'.queue s' = (storedQueue s cfg.maxMessages.toNat).map StoredMessage.restarted ∧
        ctx'.index.map (·.slot) = (recoveredIndex s cfg.maxMessages.toNat).map (·.slot)) →
      Requeued cfg s s' → P.ok () ctx' s')
    (herr : ∀ err ctx' s' f, NvsFails env f → Requeued cfg s s' → P.error err ctx' s')
    (hcut : ∀ s', Requeued cfg s s' → P.cut s') :
    wp (blobDevice usage) env (nvsOpRecover cfg) P ctx s := by
  unfold nvsOpRecover
  simp only [Prog.bind_eq, wp_bind, wp_modify]
  refine wp_recoverSlots hs (fun ctx1 ho => ?_) (fun err ctx' hf => ?_) ?_ _ _ _ (Nat.zero_add _)
    Opening.start
  rotate_left
  · exact herr err ctx' s _ hf (Requeued.refl s)
  · exact hcut s (Requeued.refl s)
  simp only [wp_read]
  refine wp_nvsRequeueLoop (fun ctx' s' b (hq : _ = (ctx1.queue s).map StoredMessage.restarted)
      hslots hr => hok ctx' s' b (fun hno => ⟨?_, ?_⟩) hr) herr hcut _ _ _ _
    (Nat.zero_add _) (ho.base hs hk) (Requeued.refl s) rfl
    (by rw [List.take_zero, List.drop_zero, List.nil_append])
  · rw [hq, NvsCtx.queue, ho.complete hno, queue_recoveredIndex hs]
  · rw [hslots, ho.complete hno]

end Programs

end EdgeSync
