/-
  Nvs/Misread.lean --- `op_recover` of the NVS backend when `nvs_get_blob` fails.

  `read_and_verify` reads a slot twice, first for the size of the blob.  Where that first
  read fails the slot counts as free; every other failure ends `op_recover` with an error.
-/
import EdgeSync.Format.Accepted
import EdgeSync.Nvs.Ownership

set_option autoImplicit false

namespace EdgeSync

open Foundation

variable {cfg : NvsConfig}

/-! ## Records that are accepted -/

variable (cfg) in
/-- `read_and_verify` accepts the blob, as the record of a message with this id. -/
def ReadsAs (data : Bytes) (id : UInt64) : Prop :=
  data.length ≤ cfg.scratchSize ∧ ∃ hdr, decodeHeader data data.length = some hdr ∧
    verifyBody hdr (data.drop hdrSize) (data.length - hdrSize) = true ∧ hdr.messageId = id

variable (cfg) in
/-- The slot holds a message. -/
def Stores (s : BlobStore) (slot : UInt32) (id : UInt64) : Prop :=
  ∃ data, s (slotKey slot) = some data ∧ ReadsAs cfg data id

/-- A record that was encoded for an id is accepted under this id. -/
theorem encodeMessageFull_readsAs {buf buf' : Bytes} {outLen : Nat} {id : UInt64}
    {destination : Bytes} {priority state : UInt8} {attemptCount : UInt32}
    {createdAtUs lastAttemptAtUs nextRetryAtUs : Int64} {lastError : Int32} {payload : Body}
    {payloadLen seq : UInt32}
    (h : encodeMessageFull buf cfg.scratchSize id destination priority state attemptCount
      createdAtUs lastAttemptAtUs nextRetryAtUs lastError payload payloadLen seq =
        some (buf', outLen)) : ReadsAs cfg (buf'.take outLen) id := by
  rw [encodeMessageFull, encodeMessageFullInto] at h
  simp only [] at h
  split at h
  case isTrue => cases h
  case isFalse =>
    obtain ⟨hlen, hcap, hdec, hver⟩ := encodeCommon_accepted h
    exact ⟨hlen.le.trans hcap, _, (congrArg (decodeHeader _) hlen).trans hdec,
      (congrArg (fun n => verifyBody _ _ (n - hdrSize)) hlen).trans hver, rfl⟩

theorem ReadsAs.unique {data : Bytes} {id id' : UInt64} (h : ReadsAs cfg data id)
    (h' : ReadsAs cfg data id') : id = id' := by
  obtain ⟨_, hdr, hdec, _, rfl⟩ := h
  obtain ⟨_, hdr', hdec', _, rfl⟩ := h'
  rw [Option.some.inj (hdec.symm.trans hdec')]

/-- The decoders look at the blob only, not at what was in the buffer before. -/
theorem decodeHeader_scratch {data rest : Bytes} :
    decodeHeader (data ++ rest) data.length = decodeHeader data data.length := by
  unfold decodeHeader
  by_cases h : data.length < hdrSize
  · rw [if_pos h, if_pos h]
  · rw [List.take_append_of_le_length (Nat.not_lt.mp h)]

theorem verifyBody_scratch {hdr : RecordHdr} {data rest : Bytes} (h : hdrSize ≤ data.length) :
    verifyBody hdr ((data ++ rest).drop hdrSize) (data.length - hdrSize) =
      verifyBody hdr (data.drop hdrSize) (data.length - hdrSize) := by
  unfold verifyBody
  rw [List.drop_append_of_le_length h]
  by_cases hfit : data.length - hdrSize < hdr.bodyBytes + 4
  · rw [if_pos hfit, if_pos hfit]
  · have hlen : (data.drop hdrSize).length = data.length - hdrSize := List.length_drop
    rw [slice_append_left (by omega), List.take_append_of_le_length (by omega)]

/-! ## Reading a slot -/

section Programs

variable {usage : BlobStore → UInt32 × UInt32} {env : Env BlobCall BlobStore BlobEvent}
  {ctx : NvsCtx} {s s0 : BlobStore}

/-- `read_and_verify`, whatever is in the slot. -/
theorem wp_readSlot {P : Post NvsCtx BlobStore EspErr RecordHdr} {slot : UInt32}
    (hmissing : s (slotKey slot) = none ∨ env s (.size (slotKey slot)) .fail →
      P.error .notFound ctx s)
    (hcorrupt : ∀ data, s (slotKey slot) = some data → (∀ id, ¬ ReadsAs cfg data id) →
      ∀ scratch, P.error .storageCorrupt { ctx with scratch := scratch } s)
    (hlost : env s (.get (slotKey slot)) .fail → P.error .storage ctx s)
    (hok : ∀ data hdr, s (slotKey slot) = some data → ReadsAs cfg data hdr.messageId →
      ∀ scratch, P.ok hdr { ctx with scratch := scratch } s)
    (hcut : ∀ c done, env s c (.cut done) → P.cut s) :
    wp (blobDevice usage) env (readAndVerify cfg slot) P ctx s := by
  unfold readAndVerify
  simp only [Prog.bind_eq, wp_bind]
  refine wp_nvsGetBlobSize ?_ (fun hev => wp_fail.mpr (hmissing (.inr hev))) hcut
  cases hs : s (slotKey slot) with
  | none => exact wp_fail.mpr (hmissing (.inl hs))
  | some data =>
    have hbad := hcorrupt data hs
    simp only [Option.map_some, wp_ite, wp_fail]
    refine ⟨fun hbig => ?_, fun hfits => wp_bind.mpr ?_⟩
    · exact hbad (fun id h => Nat.not_le.mpr hbig h.1) ctx.scratch
    refine wp_nvsGetBlob ?_ (fun hev => wp_fail.mpr (hlost hev)) hcut
    rw [hs]
    simp only [wp_bind, wp_modify, wp_read]
    have hscratch : overlay ctx.scratch 0 data = data ++ ctx.scratch.drop data.length := by
      simp [overlay]
    rw [hscratch, decodeHeader_scratch]
    cases hdec : decodeHeader data data.length with
    | none =>
      refine wp_fail.mpr (hbad (fun id h => ?_) _)
      obtain ⟨_, hdr, hsome, _⟩ := h
      rw [hdec] at hsome
      cases hsome
    | some hdr =>
      simp only [verifyBody_scratch (decodeHeader_eq_some.mp hdec).1, wp_ite, Prog.pure_eq, wp_ret, wp_fail]
      refine ⟨fun hver => ?_, fun hver => hbad (fun id h => ?_) _⟩
      · exact hok data hdr hs ⟨Nat.not_lt.mp hfits, hdr, hdec, hver, rfl⟩ _
      · obtain ⟨_, hdr', hsome, hver', _⟩ := h
        rw [Option.some.inj (hdec.symm.trans hsome)] at hver
        exact hver hver'

/-! ## The first loop -/

variable (cfg) in
/-- The messages of `s0` are still in the store. -/
def Kept (s0 s : BlobStore) : Prop :=
  ∀ k data id, s0 k = some data → ReadsAs cfg data id → s k = some data

variable (cfg) in
/-- The first `n` slots were looked at. -/
structure Looking (s0 : BlobStore) (ctx : NvsCtx) (s : BlobStore) (n : Nat) : Prop where
  kept : Kept cfg s0 s
  found : ∀ i < n, ∀ id, Stores cfg s0 (UInt32.ofNat i) id →
    ∃ e ∈ ctx.index, e.slot = UInt32.ofNat i ∧ e.id = id
  holds : ∀ e ∈ ctx.index, Stores cfg s e.slot e.id
  count : ctx.index.length ≤ n

/-- A slot that holds nothing readable is passed over. -/
theorem Looking.pass {n : Nat} {s' : BlobStore} {scratch : Bytes} (h : Looking cfg s0 ctx s n)
    (hnone : ∀ id, ¬ Stores cfg s0 (UInt32.ofNat n) id) (hkept : Kept cfg s s') :
    Looking cfg s0 { ctx with scratch := scratch } s' (n + 1) where
  kept k data id hk hid := hkept k data id (h.kept k data id hk hid) hid
  found i hi id hstores := by
    rcases Nat.lt_succ_iff_lt_or_eq.mp hi with hi | rfl
    · exact h.found i hi id hstores
    · exact absurd hstores (hnone id)
  holds e he := by
    obtain ⟨data, hk, hid⟩ := h.holds e he
    exact ⟨data, hkept _ data _ hk hid, hid⟩
  count := Nat.le_succ_of_le h.count

/-- Erasing a blob that no message is in keeps the messages. -/
theorem wp_discardSlot_kept {slot : UInt32} {data : Bytes} (hs : s (slotKey slot) = some data)
    (hbad : ∀ id, ¬ ReadsAs cfg data id) :
    wp (blobDevice usage) env (discardSlot slot) (.always (Kept cfg s)) ctx s := by
  have hspares : ∀ k, k ≠ slotKey slot →
      Only (BlobCall.Spares k) (discardSlot slot : NvsM Unit) := fun k hk =>
    Only.bind (Only.ask (Ne.symm hk)) fun _ => Only.bind (Only.ask trivial) fun _ => Only.ret _
  refine wp_iff_runs.mpr fun o run => Outcome.meets_always.mpr fun k data' id hk hid => ?_
  have hne : k ≠ slotKey slot := by
    rintro rfl
    rw [hs] at hk
    exact hbad id (Option.some.inj hk ▸ hid)
  have hsame := Outcome.meets_always.mp (wp_sound run ((hspares k hne).keeps
    (I := fun s' => s' k = s k) (fun s' c ev hc hs' => (hc.respond s' ev).trans hs') rfl))
  exact hsame.trans hk

/-- One slot, if the size of a message in it can be read. -/
theorem looking_recoverSlot {n : Nat} (h : Looking cfg s0 ctx s n)
    (hn : n < cfg.maxMessages.toNat)
    (hsize : ∀ id, Stores cfg s0 (UInt32.ofNat n) id →
      ∀ s, ¬ env s (.size (slotKey (UInt32.ofNat n))) .fail) :
    wp (blobDevice usage) env (recoverSlot cfg (UInt32.ofNat n))
      ⟨fun _ c s' => Looking cfg s0 c s' (n + 1), fun _ _ s' => Kept cfg s0 s', fun _ => True⟩
      ctx s := by
  have hnone : (∀ data id, s (slotKey (UInt32.ofNat n)) = some data → ¬ ReadsAs cfg data id) →
      ∀ id, ¬ Stores cfg s0 (UInt32.ofNat n) id := by
    rintro hbad id ⟨data, hk, hid⟩
    exact hbad data id (h.kept _ data id hk hid) hid
  unfold recoverSlot
  simp only [Prog.bind_eq, wp_bind, wp_attempt]
  refine wp_readSlot (fun hmiss => wp_ret.mpr ?_) (fun data hs hbad scratch => ?_)
    (fun _ => wp_fail.mpr h.kept) (fun data hdr hs hreads scratch => ?_) fun _ _ _ => trivial
  · refine h.pass (fun id hstores => ?_) fun _ _ _ hk _ => hk
    rcases hmiss with hs | hfail
    · obtain ⟨data, hk, hid⟩ := hstores
      exact absurd ((h.kept _ data id hk hid).symm.trans hs) (by simp)
    · exact hsize id hstores s hfail
  · have hpass : ∀ id, ¬ Stores cfg s0 (UInt32.ofNat n) id := hnone fun data' id hs' hid =>
      hbad id (Option.some.inj (hs'.symm.trans hs) ▸ hid)
    have hram : leaves (discardSlot (UInt32.ofNat n)) (fun _ c => c = { ctx with scratch := scratch })
        (fun _ _ => False) { ctx with scratch := scratch } := leaves_discardSlot rfl
    refine wp_mono (wp_and (wp_discardSlot_kept hs hbad) (leaves_wp hram))
      (fun _ c s' hc => ?_) (fun _ _ _ hc => hc.2.elim) fun _ _ => trivial
    rw [hc.2]
    exact h.pass hpass hc.1
  · have hroom : ctx.index.length < cfg.indexCapacity := by
      have := h.count
      rw [NvsConfig.indexCapacity]
      omega
    simp only [wp_read, if_neg (Nat.not_le.mpr hroom), wp_modify]
    refine ⟨h.kept, fun i hi id hstores => ?_, fun e he => ?_, ?_⟩
    · rcases Nat.lt_succ_iff_lt_or_eq.mp hi with hi | rfl
      · obtain ⟨e, he, heq⟩ := h.found i hi id hstores
        exact ⟨e, List.mem_append_left _ he, heq⟩
      · refine ⟨hdr.nvsEntry (UInt32.ofNat i), List.mem_append_right _ (List.mem_singleton_self _),
          rfl, ?_⟩
        obtain ⟨data', hk, hid⟩ := hstores
        have hsame := Option.some.inj ((h.kept _ data' id hk hid).symm.trans hs)
        exact hreads.unique (hsame ▸ hid)
    · rcases List.mem_append.mp he with he | he
      · exact h.holds e he
      · rw [List.mem_singleton.mp he]
        exact ⟨data, hs, hreads⟩
    · simp only [List.length_append, List.length_singleton]
      exact Nat.succ_le_succ h.count

theorem looking_recoverSlots (n : Nat) {slot : Nat} (h : Looking cfg s0 ctx s slot)
    (hslot : slot + n = cfg.maxMessages.toNat)
    (hsize : ∀ i < cfg.maxMessages.toNat, ∀ id, Stores cfg s0 (UInt32.ofNat i) id →
      ∀ s, ¬ env s (.size (slotKey (UInt32.ofNat i))) .fail) :
    wp (blobDevice usage) env (recoverSlots cfg n slot)
      ⟨fun _ c s' => Looking cfg s0 c s' cfg.maxMessages.toNat, fun _ _ s' => Kept cfg s0 s',
        fun _ => True⟩ ctx s := by
  induction n generalizing slot ctx s with
  | zero => exact wp_ret.mpr (hslot ▸ h)
  | succ n ih =>
    refine wp_seq (looking_recoverSlot h (by omega) (hsize slot (by omega)))
      (fun _ c s' hc => ih hc (by omega)) (fun _ _ _ hc => hc) fun _ hc => hc

/-! ## The requeue loop -/

variable (cfg) in
/-- Every message of `s0` has its entry, and every entry its message. -/
structure Rescued (s0 : BlobStore) (ctx : NvsCtx) (s : BlobStore) : Prop where
  found : ∀ i < cfg.maxMessages.toNat, ∀ id, Stores cfg s0 (UInt32.ofNat i) id →
    ∃ e ∈ ctx.index, e.slot = UInt32.ofNat i ∧ e.id = id
  holds : ∀ e ∈ ctx.index, Stores cfg s e.slot e.id

variable (cfg) in
/-- The messages of `s0` are still in their slots. -/
def StillStored (s0 s : BlobStore) : Prop :=
  ∀ i < cfg.maxMessages.toNat, ∀ id, Stores cfg s0 (UInt32.ofNat i) id →
    Stores cfg s (UInt32.ofNat i) id

theorem Rescued.stillStored (h : Rescued cfg s0 ctx s) : StillStored cfg s0 s := by
  intro i hi id hstores
  obtain ⟨e, he, hslot, hid⟩ := h.found i hi id hstores
  rw [← hslot, ← hid]
  exact h.holds e he

/-- Assigning other fields of an entry. -/
theorem Rescued.assign (h : Rescued cfg s0 ctx s) {ctx' : NvsCtx} {pos : Nat}
    {f : NvsIndexEntry → NvsIndexEntry} (hf : ∀ e, (f e).slot = e.slot ∧ (f e).id = e.id)
    (hindex : ctx'.index = ctx.index.modify pos f) : Rescued cfg s0 ctx' s := by
  have hpairs : ctx'.index.map (fun e => (e.slot, e.id)) = ctx.index.map fun e => (e.slot, e.id) := by
    rw [hindex]
    exact map_modify_of_eq fun e _ => Prod.ext (hf e).1 (hf e).2
  have hmem : ∀ slot id, (∃ e ∈ ctx'.index, e.slot = slot ∧ e.id = id) ↔
      ∃ e ∈ ctx.index, e.slot = slot ∧ e.id = id := by
    intro slot id
    have hiff : (slot, id) ∈ ctx'.index.map (fun e => (e.slot, e.id)) ↔
        (slot, id) ∈ ctx.index.map fun e => (e.slot, e.id) := by rw [hpairs]
    simpa only [List.mem_map, Prod.mk.injEq] using hiff
  refine ⟨fun i hi id hstores => (hmem _ _).mpr (h.found i hi id hstores), fun e he => ?_⟩
  obtain ⟨e', he', hslot, hid⟩ := (hmem e.slot e.id).mp ⟨e, he, rfl, rfl⟩
  rw [← hslot, ← hid]
  exact h.holds e' he'

/-- Writing the record of an entry. -/
theorem Rescued.write (h : Rescued cfg s0 ctx s) {e : NvsIndexEntry} (he : e ∈ ctx.index)
    {data : Bytes} (hdata : ReadsAs cfg data e.id) :
    Rescued cfg s0 ctx (s.set (slotKey e.slot) data) := by
  refine ⟨h.found, fun f hf => ?_⟩
  obtain ⟨blob, hblob, hid⟩ := h.holds f hf
  by_cases hk : slotKey f.slot = slotKey e.slot
  · obtain ⟨blob', hblob', hid'⟩ := h.holds e he
    rw [hk, hblob'] at hblob
    cases hblob
    exact ⟨data, by rw [hk, BlobStore.set_self], hid.unique hid' ▸ hdata⟩
  · exact ⟨blob, by rw [BlobStore.set_other hk, hblob], hid⟩

theorem rescued_writeEntry {e : NvsIndexEntry} {destination : Bytes} {payload : Body}
    (h : Rescued cfg s0 ctx s) (he : e ∈ ctx.index) :
    wp (blobDevice usage) env (writeEntry cfg e destination payload)
      ⟨fun _ c s' => Rescued cfg s0 c s', fun _ _ s' => StillStored cfg s0 s', fun _ => True⟩
      ctx s := by
  unfold writeEntry
  simp only [Prog.bind_eq, wp_bind, wp_read]
  split
  · exact wp_fail.mpr h.stillStored
  · rename_i buf encLen henc
    simp only [wp_bind, wp_modify]
    have hwritten := h.write he (encodeMessageFull_readsAs henc)
    refine wp_call.mpr fun ev _ => ?_
    cases ev with
    | run =>
      refine wp_ret.mpr (wp_ite.mpr ⟨fun _ => wp_bind.mpr (wp_call.mpr fun ev _ => ?_), fun hno => ?_⟩)
      · cases ev with
        | run =>
          refine wp_ret.mpr (wp_ite.mpr ⟨fun _ => wp_ret.mpr ?_, fun _ => wp_fail.mpr ?_⟩)
          · exact ⟨hwritten.found, hwritten.holds⟩
          · exact hwritten.stillStored
        | fail =>
          exact wp_ret.mpr (wp_ite.mpr ⟨fun hno => absurd hno (by decide),
            fun _ => wp_fail.mpr hwritten.stillStored⟩)
        | cut done => trivial
      · exact absurd rfl hno
    | fail =>
      exact wp_ret.mpr (wp_ite.mpr ⟨fun hno => absurd hno (by decide),
        fun _ => wp_fail.mpr h.stillStored⟩)
    | cut done => trivial

theorem wp_nvsEntryAt_any {P : Post NvsCtx BlobStore EspErr NvsIndexEntry} {pos : Nat}
    (hsome : ∀ e, ctx.index[pos]? = some e → P.ok e ctx s) (hnone : P.error .notFound ctx s) :
    wp (blobDevice usage) env (nvsEntryAt pos) P ctx s := by
  cases he : ctx.index[pos]? with
  | some e => exact wp_nvsEntryAt he (hsome e he)
  | none =>
    unfold nvsEntryAt
    simp only [Prog.bind_eq, wp_bind, wp_read, he]
    exact wp_fail.mpr hnone

theorem rescued_requeueSlot {pos : Nat} (h : Rescued cfg s0 ctx s) :
    wp (blobDevice usage) env (requeueSlot cfg pos)
      ⟨fun _ c s' => Rescued cfg s0 c s', fun _ _ s' => StillStored cfg s0 s', fun _ => True⟩
      ctx s := by
  unfold requeueSlot nvsAssignEntry
  simp only [Prog.bind_eq, wp_bind]
  refine wp_nvsEntryAt_any (fun e _ => ?_) h.stillStored
  refine wp_readSlot (fun _ => h.stillStored) (fun _ _ _ _ => h.stillStored)
    (fun _ => h.stillStored) (fun data hdr _ _ scratch => ?_) fun _ _ _ => trivial
  simp only [wp_read, wp_modify]
  have hassigned : Rescued cfg s0 { ctx with
      index := ctx.index.modify pos fun e =>
        { e with state := FlashqState.pending.code, nextRetryAtUs := 0 }
      scratch := scratch } s := by
    refine h.assign ?_ rfl
    exact fun _ => ⟨rfl, rfl⟩
  refine wp_nvsEntryAt_any (fun e' he' => ?_) hassigned.stillStored
  exact rescued_writeEntry hassigned (List.mem_of_getElem? he')

theorem rescued_requeueLoop (n i : Nat) (h : Rescued cfg s0 ctx s) :
    wp (blobDevice usage) env (nvsRequeueLoop cfg n i)
      ⟨fun _ c s' => Rescued cfg s0 c s', fun _ _ s' => StillStored cfg s0 s', fun _ => True⟩
      ctx s := by
  induction n generalizing i ctx s with
  | zero => exact wp_ret.mpr h
  | succ n ih =>
    unfold nvsRequeueLoop
    simp only [Prog.bind_eq, wp_bind]
    refine wp_nvsEntryAt_any (fun e _ => wp_ite.mpr ⟨fun _ => ?_, fun _ => ih (i + 1) h⟩)
      h.stillStored
    exact wp_seq (rescued_requeueSlot h) (fun _ c s' hc => ih (i + 1) hc) (fun _ _ _ hc => hc)
      fun _ hc => hc

/-- `op_recover`, if the size of every message can be read. -/
theorem rescued_nvsOpRecover (hsize : ∀ i < cfg.maxMessages.toNat, ∀ id,
      Stores cfg s (UInt32.ofNat i) id → ∀ s', ¬ env s' (.size (slotKey (UInt32.ofNat i))) .fail) :
    wp (blobDevice usage) env (nvsOpRecover cfg)
      ⟨fun _ c s' => Rescued cfg s c s', fun _ _ s' => StillStored cfg s s', fun _ => True⟩
      ctx s := by
  have hkept : ∀ {s'}, Kept cfg s s' → StillStored cfg s s' := by
    rintro s' h i _ id ⟨data, hk, hid⟩
    exact ⟨data, h _ data id hk hid, hid⟩
  unfold nvsOpRecover
  simp only [Prog.bind_eq, wp_bind, wp_modify]
  refine wp_mono (@looking_recoverSlots cfg usage env
    { ctx with index := [], slotUsed := List.replicate cfg.maxMessages.toNat false } s s
    cfg.maxMessages.toNat 0 ?_ (Nat.zero_add _) hsize) (fun _ c s' hc => ?_)
    (fun _ _ _ hc => hkept hc) fun _ hc => hc
  · exact ⟨fun _ _ _ hk _ => hk, fun i hi => absurd hi (Nat.not_lt_zero i),
      fun e he => absurd he List.not_mem_nil, Nat.le_refl 0⟩
  · exact wp_read.mpr (rescued_requeueLoop _ 0 ⟨hc.found, hc.holds⟩)

end Programs

/-! ## Recovery with failing reads -/

/-- `nvs_get_blob` may fail for the size of the blobs at the keys in `sizes`, and for the
blobs at the keys in `gets`; all else works. -/
def readFaults (sizes gets : Nat → Prop) : Env BlobCall BlobStore BlobEvent := fun _ c ev =>
  ev = .run ∨ ev = .fail ∧ ((∃ k, c = .size k ∧ sizes k) ∨ ∃ k, c = .get k ∧ gets k)

variable (cfg) in
/-- Either every message is indexed, in a slot that is in use and still holds it, or
`op_recover` ended with an error and the messages are still stored. -/
def Spares (s : BlobStore) : Outcome NvsCtx BlobStore EspErr Unit → Prop
  | .ok _ ctx s' => ∀ i < cfg.maxMessages.toNat, ∀ id, Stores cfg s (UInt32.ofNat i) id →
      (∃ e ∈ ctx.index, e.slot = UInt32.ofNat i ∧ e.id = id) ∧ ctx.slotUsed[i]? = some true ∧
      Stores cfg s' (UInt32.ofNat i) id
  | .error _ _ s' => StillStored cfg s s'
  | .cut _ => True

variable (cfg) in
/-- No run of `op_recover` loses a message. -/
def RecoverySpares (usage : BlobStore → UInt32 × UInt32) (sizes gets : Nat → Prop) (ctx : NvsCtx)
    (s : BlobStore) : Prop :=
  ∀ o, Runs (blobDevice usage) (readFaults sizes gets) (nvsOpRecover cfg) ctx s o → Spares cfg s o

variable (cfg) in
/-- The size of every message can be read. -/
def SizesRead (sizes : Nat → Prop) (s : BlobStore) : Prop :=
  ∀ i < cfg.maxMessages.toNat, ∀ id, Stores cfg s (UInt32.ofNat i) id →
    ¬ sizes (slotKey (UInt32.ofNat i))

section Faults

variable {usage : BlobStore → UInt32 × UInt32} {sizes gets : Nat → Prop} {ctx : NvsCtx}
  {s : BlobStore}

theorem recovery_spares_of_sizes (h : SizesRead cfg sizes s) :
    RecoverySpares cfg usage sizes gets ctx s := by
  intro o run
  have hmeets := wp_sound run (rescued_nvsOpRecover fun i hi id hstores s' hfail => ?_)
  · have howned := leaves_sound run (owned_nvsOpRecover ctx)
    cases o with
    | ok _ c s' =>
      intro i hi id hstores
      obtain ⟨e, he, hslot, hid⟩ := Rescued.found hmeets i hi id hstores
      refine ⟨⟨e, he, hslot, hid⟩, (SlotsOwned.used howned i).mpr ?_,
        Rescued.stillStored hmeets i hi id hstores⟩
      exact List.mem_map.mpr ⟨e, he, by rw [hslot]; exact slot_toNat hi⟩
    | error err c s' => exact hmeets
    | cut s' => trivial
  · rcases hfail with hrun | ⟨_, ⟨k, hc, hk⟩ | ⟨k, hc, _⟩⟩
    · cases hrun
    · cases hc
      exact h i hi id hstores hk
    · cases hc

/-- The size of one blob cannot be read. -/
def oneMisread (key : Nat) : Env BlobCall BlobStore BlobEvent := fun _ c ev =>
  if c = .size key then ev = .fail else ev = .run

/-- A slot with this key is passed over. -/
theorem misread_recoverSlot {key : Nat} {slot : UInt32}
    (h : ∀ e ∈ ctx.index, slotKey e.slot ≠ key) :
    wp (blobDevice usage) (oneMisread key) (recoverSlot cfg slot)
      ⟨fun _ c _ => ∀ e ∈ c.index, slotKey e.slot ≠ key, fun _ _ _ => False, fun _ => True⟩
      ctx s := by
  unfold recoverSlot
  simp only [Prog.bind_eq, wp_bind, wp_attempt]
  by_cases hkey : slotKey slot = key
  · unfold readAndVerify
    simp only [Prog.bind_eq, wp_bind]
    refine wp_call.mpr fun ev hev => ?_
    have hfail : ev = .fail := by
      rwa [oneMisread, if_pos (by rw [hkey])] at hev
    subst hfail
    exact wp_ret.mpr (wp_fail.mpr (wp_ret.mpr h))
  · refine wp_readSlot (fun _ => wp_ret.mpr h) (fun data hs hbad scratch => ?_) (fun hev => ?_)
      (fun data hdr _ _ scratch => ?_) fun _ _ _ => trivial
    · have hram : leaves (discardSlot slot) (fun _ c => c = { ctx with scratch := scratch })
          (fun _ _ => False) { ctx with scratch := scratch } := leaves_discardSlot rfl
      refine wp_mono (leaves_wp hram) (fun _ c _ hc => ?_) (fun _ _ _ hc => hc) fun _ _ => trivial
      rw [hc]
      exact h
    · rw [oneMisread, if_neg (by simp)] at hev
      cases hev
    · refine wp_read.mpr (wp_ite.mpr ⟨fun _ => wp_ret.mpr h, fun _ => wp_modify.mpr fun e he => ?_⟩)
      rcases List.mem_append.mp he with he | he
      · exact h e he
      · rw [List.mem_singleton.mp he]
        exact hkey

/-- The slots with this key are passed over. -/
theorem misread_recoverSlots {key : Nat} (n : Nat) {slot : Nat}
    (h : ∀ e ∈ ctx.index, slotKey e.slot ≠ key) :
    wp (blobDevice usage) (oneMisread key) (recoverSlots cfg n slot)
      ⟨fun _ c _ => ∀ e ∈ c.index, slotKey e.slot ≠ key, fun _ _ _ => False, fun _ => True⟩
      ctx s := by
  induction n generalizing slot ctx s with
  | zero => exact wp_ret.mpr h
  | succ n ih =>
    exact wp_seq (misread_recoverSlot h) (fun _ c s' hc => ih hc) (fun _ _ _ hc => hc)
      fun _ hc => hc

/-- Without failures the first loop makes an entry of every slot that is not passed over. -/
theorem misread_firstLoop {key : Nat} (hs : Recorded cfg s) : ∃ c : NvsCtx,
    (∀ e ∈ c.index, slotKey e.slot ≠ key) ∧ c.index.Sublist (recoveredIndex s cfg.maxMessages.toNat) ∧
    Runs (blobDevice usage) (oneMisread key) (recoverSlots cfg cfg.maxMessages.toNat 0)
      { ctx with index := [], slotUsed := List.replicate cfg.maxMessages.toNat false } s
      (.ok () c s) := by
  have hcalm : ∀ (d : BlobStore) c, ∃ ev, oneMisread key d c ev := by
    intro d c
    by_cases hc : c = .size key
    · exact ⟨.fail, by rw [oneMisread, if_pos hc]⟩
    · exact ⟨.run, by rw [oneMisread, if_neg hc]⟩
  obtain ⟨o, run⟩ := @exists_run _ _ _ _ EspErr _ _ (blobDevice usage) _ hcalm
    (recoverSlots cfg cfg.maxMessages.toNat 0)
    { ctx with index := [], slotUsed := List.replicate cfg.maxMessages.toNat false } s
  have hskip := wp_sound run (misread_recoverSlots _ fun e he => absurd he List.not_mem_nil)
  have hopen := wp_sound run (wp_recoverSlots
    (P := ⟨fun _ c s' => s' = s ∧ Opening cfg (oneMisread key) c s cfg.maxMessages.toNat,
      fun _ _ _ => True, fun _ => True⟩)
    hs (fun _ ho => ⟨rfl, ho⟩) (fun _ _ _ => trivial) trivial _ _ _ (Nat.zero_add _) Opening.start)
  cases o with
  | ok u c s' =>
    obtain ⟨rfl, ho⟩ := hopen
    exact ⟨c, hskip, ho.found, run⟩
  | error err c s' => exact hskip.elim
  | cut s' =>
    refine absurd run (Runs.not_cut fun d c ev d' hev h => ?_)
    by_cases hc : c = .size key
    · rw [oneMisread, if_pos hc] at hev
      subst hc hev
      simp [blobDevice] at h
    · rw [oneMisread, if_neg hc] at hev
      subst hev
      cases c <;> simp [blobDevice] at h

variable (cfg) in
/-- The slot of the entry holds a record with the lengths of the entry. -/
def Fits (s : BlobStore) (e : NvsIndexEntry) : Prop :=
  ∃ x, Holds cfg s e.slot x ∧ e.destinationLen = x.destinationLen ∧ e.payloadLen = x.payloadLen

/-- Writing a record of the same lengths. -/
theorem Fits.set {e f : NvsIndexEntry} {y : StoredMessage} (he : Fits cfg s e) (hf : Fits cfg s f)
    (hy : y.Sized cfg) (hdl : y.destinationLen = e.destinationLen)
    (hpl : y.payloadLen = e.payloadLen) : Fits cfg (s.set (slotKey e.slot) y.blob) f := by
  obtain ⟨x, hx, hxd, hxp⟩ := hf
  by_cases hk : slotKey f.slot = slotKey e.slot
  · obtain ⟨x', hx', hxd', hxp'⟩ := he
    have hsame := hx.stored
    rw [hk, hx'.stored] at hsame
    obtain rfl := blob_inj hx'.sized hx.sized (Option.some.inj hsame)
    refine ⟨y, ⟨?_, hy⟩, ?_, ?_⟩
    · rw [hk, BlobStore.set_self]
    · rw [hdl, hxd, hxd']
    · rw [hpl, hxp, hxp']
  · exact ⟨x, hx.congr (BlobStore.set_other hk), hxd, hxp⟩

/-- A turn of the requeue loop for an entry in flight, without failures. -/
theorem quiet_requeueSlot {pos : Nat} {e : NvsIndexEntry} (he : ctx.index[pos]? = some e)
    (hfits : ∀ f ∈ ctx.index, Fits cfg s f) :
    wp (blobDevice usage) quietStore (requeueSlot cfg pos)
      ⟨fun _ c s' => c.index.map (·.slot) = ctx.index.map (·.slot) ∧ ∀ f ∈ c.index, Fits cfg s' f,
        fun _ _ _ => False, fun _ => True⟩ ctx s := by
  have hno : ∀ f, ¬ NvsFails quietStore f := fun f hf =>
    quietStore_no_fail _ _ hf.choose_spec.choose_spec.2
  have hfit := hfits e (List.mem_of_getElem? he)
  obtain ⟨x, hx, hxd, hxp⟩ := hfit
  unfold requeueSlot nvsAssignEntry
  simp only [Prog.bind_eq, wp_bind]
  refine wp_nvsEntryAt he (hx.wp_read ?_ (fun hget => absurd hget (hno _)) trivial)
  simp only [wp_read, wp_modify]
  refine wp_nvsEntryAt (nvs_getElem?_modify he) ?_
  rw [hx.sized.hdr_destinationLen, hx.sized.destinationLen_toNat]
  -- the record that is written: the entry, with the destination and the length of the old one
  have hsized : StoredMessage.Sized cfg ⟨{ e.toEntryMeta with
      state := FlashqState.pending.code, nextRetryAtUs := 0 }, x.destination, x.payload⟩ :=
    ⟨hx.sized.destination_ne, hx.sized.destination_le, hxd.trans hx.sized.destinationLen,
      (congrArg UInt32.toNat hxp).trans hx.sized.payloadLen,
      (congrArg₂ recordTotalSize hxd hxp).trans_le hx.sized.record_le⟩
  have henc := @encode_slice cfg
    { e with state := FlashqState.pending.code, nextRetryAtUs := 0 } _
    (destinationOf (x.blob ++ ctx.scratch.drop x.blob.length) hdrSize x.destination.length)
    hsized rfl (x.blob ++ ctx.scratch.drop x.blob.length)
    (cString_destinationOf hx.sized (StoredMessage.Sized.slice_destination _))
  refine wp_writeRecord henc ⟨?_, fun f hf => ?_⟩ (fun hset => absurd hset (hno _))
    (fun hcommit => absurd hcommit (hno _)) trivial trivial
  · exact map_modify_of_eq fun _ _ => rfl
  · have hsame : (ctx.index.modify pos fun e =>
        { e with state := FlashqState.pending.code, nextRetryAtUs := 0 }).map
          (fun f => (f.slot, f.destinationLen, f.payloadLen)) =
        ctx.index.map fun f => (f.slot, f.destinationLen, f.payloadLen) :=
      map_modify_of_eq fun _ _ => rfl
    have hmem := List.mem_map_of_mem (f := fun f : NvsIndexEntry =>
      (f.slot, f.destinationLen, f.payloadLen)) hf
    rw [hsame] at hmem
    obtain ⟨f', hf', heq⟩ := List.mem_map.mp hmem
    simp only [Prod.mk.injEq] at heq
    have hnext := Fits.set ⟨x, hx, hxd, hxp⟩ (hfits f' hf') hsized.cleared rfl rfl
    rw [Fits, heq.1, heq.2.1, heq.2.2] at hnext
    exact hnext

/-- The requeue loop, without failures. -/
theorem quiet_requeueLoop (n i : Nat) (hn : i + n = ctx.index.length)
    (hfits : ∀ f ∈ ctx.index, Fits cfg s f) :
    wp (blobDevice usage) quietStore (nvsRequeueLoop cfg n i)
      ⟨fun _ c _ => c.index.map (·.slot) = ctx.index.map (·.slot), fun _ _ _ => False,
        fun _ => True⟩ ctx s := by
  induction n generalizing i ctx s with
  | zero => exact wp_ret.mpr rfl
  | succ n ih =>
    have he := List.getElem?_eq_getElem (show i < ctx.index.length by omega)
    unfold nvsRequeueLoop
    simp only [Prog.bind_eq, wp_bind]
    refine wp_nvsEntryAt he (wp_ite.mpr ⟨fun _ => wp_bind.mpr ?_,
      fun _ => ih (i + 1) (by omega) hfits⟩)
    refine wp_mono (quiet_requeueSlot he hfits) (fun _ c s' hc => ?_) (fun _ _ _ hc => hc)
      fun _ hc => hc
    have hlen : c.index.length = ctx.index.length := by
      have := congrArg List.length hc.1
      rwa [List.length_map, List.length_map] at this
    exact wp_mono (ih (i + 1) (by omega) hc.2) (fun _ c' _ hc' => hc'.trans hc.1)
      (fun _ _ _ hc' => hc') fun _ hc' => hc'

/-- A message whose size cannot be read is not indexed, and `op_recover` returns `ESP_OK`. -/
theorem misread_unindexed {key : Nat} (hs : Recorded cfg s) :
    ∃ ctx' s', Runs (blobDevice usage) (readFaults (· = key) gets) (nvsOpRecover cfg) ctx s
        (.ok () ctx' s') ∧ ∀ e ∈ ctx'.index, slotKey e.slot ≠ key := by
  have hfaults : ∀ (d : BlobStore) c ev, oneMisread key d c ev →
      readFaults (· = key) gets d c ev := by
    intro d c ev hev
    by_cases hc : c = .size key
    · rw [oneMisread, if_pos hc] at hev
      exact .inr ⟨hev, .inl ⟨key, hc, rfl⟩⟩
    · rw [oneMisread, if_neg hc] at hev
      exact .inl hev
  have hquiet : ∀ (d : BlobStore) c ev, quietStore d c ev → readFaults (· = key) gets d c ev :=
    fun _ _ _ => .inl
  obtain ⟨c, hskip, hfound, run⟩ := @misread_firstLoop cfg usage ctx s key hs
  have hfits : ∀ f ∈ c.index, Fits cfg s f := by
    intro f hf
    obtain ⟨i, x, _, hm, rfl⟩ := mem_recoveredIndex.mp (hfound.subset hf)
    rcases hs.cases i with ⟨_, hnone⟩ | ⟨y, hy, hsome, hy'⟩
    · rw [hm] at hnone
      cases hnone
    · obtain rfl := Option.some.inj (hm.symm.trans hy')
      exact ⟨x, ⟨hsome, hy⟩, rfl, rfl⟩
  obtain ⟨res, ctx', s', run'⟩ := @quietStore_returns usage _
    (nvsRequeueLoop cfg c.index.length 0) c s
  have hloop := wp_sound run' (quiet_requeueLoop _ 0 (Nat.zero_add _) hfits)
  cases res with
  | error err => exact hloop.elim
  | ok u =>
    refine ⟨ctx', s', ?_, fun e he => ?_⟩
    · exact .look (.put ((run.mono_env hfaults).bind_ok (.look (run'.mono_env hquiet))))
    · have hmem := List.mem_map_of_mem (f := fun e : NvsIndexEntry => e.slot) he
      have hslots : ctx'.index.map (·.slot) = c.index.map (·.slot) := hloop
      rw [hslots] at hmem
      obtain ⟨e', he', hslot⟩ := List.mem_map.mp hmem
      rw [← hslot]
      exact hskip e' he'

/-- `op_recover` loses no message if the size of every message can be read; and on a store
the backend wrote, only then. -/
theorem recovery_spares (cfg : NvsConfig) (usage : BlobStore → UInt32 × UInt32)
    (sizes gets : Nat → Prop) (ctx : NvsCtx) (s : BlobStore) :
    (SizesRead cfg sizes s → RecoverySpares cfg usage sizes gets ctx s) ∧
    (Recorded cfg s → RecoverySpares cfg usage sizes gets ctx s → SizesRead cfg sizes s) := by
  refine ⟨recovery_spares_of_sizes, fun hs hspares i hi id hstores hfail => ?_⟩
  obtain ⟨ctx', s', run, hskip⟩ := @misread_unindexed cfg usage gets ctx s
    (slotKey (UInt32.ofNat i)) hs
  have hmore : ∀ (d : BlobStore) c ev, readFaults (· = slotKey (UInt32.ofNat i)) gets d c ev →
      readFaults sizes gets d c ev := by
    intro d c ev hev
    refine hev.imp_right fun hev => hev.imp_right fun hc => hc.imp_left ?_
    rintro ⟨k, rfl, rfl⟩
    exact ⟨_, rfl, hfail⟩
  obtain ⟨⟨e, he, hslot, _⟩, _⟩ := hspares _ (run.mono_env hmore) i hi id hstores
  exact hskip e he (congrArg slotKey hslot)

end Faults

/-! ## A message in the first slot -/

instance (data : Bytes) (id : UInt64) : Decidable (ReadsAs cfg data id) :=
  inferInstanceAs (Decidable (data.length ≤ cfg.scratchSize ∧
    ∃ hdr ∈ decodeHeader data data.length,
      verifyBody hdr (data.drop hdrSize) (data.length - hdrSize) = true ∧ hdr.messageId = id))

instance (s : BlobStore) (slot : UInt32) (id : UInt64) : Decidable (Stores cfg s slot id) :=
  inferInstanceAs (Decidable (∃ data ∈ s (slotKey slot), ReadsAs cfg data id))

/-- Message 7 is accepted, and the device stopped. -/
def storedScript : NvsScript := [(.boot, []), (.call (.enqueue slotMessage), []), (.stop, [])]

/-- Message 7 is in the first slot, and the second one is free. -/
def firstSlotHolds (s : BlobStore) : Bool := decide (Stores slotConfig s 0 7) && (s 1).isNone

theorem firstSlotHolds_iff {s : BlobStore} :
    firstSlotHolds s = true ↔ Stores slotConfig s 0 7 ∧ s 1 = none := by
  rw [firstSlotHolds, Bool.and_eq_true_iff, decide_eq_true_iff, Option.isNone_iff_eq_none]

/-- Message 7 was accepted. -/
def firstSlotShows : List FlashqStepLabel × NvsSystem noUsage slotConfig → Bool
  | (labels, .off s) =>
    decide (labels = [.booted, .call (.enqueue slotMessage) (.ok .done), .stopped]) &&
      firstSlotHolds s
  | (_, .on _ _) => false

/-- The message is spared if the size query of the second slot fails and the second read of the
first one, but not the other way round. -/
theorem recovery_spares_stored : ∃ s,
    StorageRun (nvsBackend noUsage slotConfig) (nvsWorld noUsage slotConfig quietStore)
      (.off emptyStore) [.booted, .call (.enqueue slotMessage) (.ok .done), .stopped] (.off s) ∧
    Stores slotConfig s 0 7 ∧
    RecoverySpares slotConfig noUsage (· = 1) (· = 0) (NvsCtx.fresh slotConfig) s ∧
    ¬ RecoverySpares slotConfig noUsage (· = 0) (· = 1) (NvsCtx.fresh slotConfig) s := by
  have hcheck : (nvsPlay slotConfig (.off emptyStore) storedScript []).any firstSlotShows = true := by
    decide +kernel
  obtain ⟨⟨labels, sys⟩, hplay, hshows⟩ := (Option.any_eq_true _ _).mp hcheck
  have run := nvsPlay_quiet (by decide) hplay
  cases sys with
  | on ctx s => cases hshows
  | off s =>
    obtain ⟨hlabels, hfirst⟩ := Bool.and_eq_true_iff.mp hshows
    obtain rfl := of_decide_eq_true hlabels
    obtain ⟨hstores, hnone⟩ := firstSlotHolds_iff.mp hfirst
    have hcounted : ∀ op ∈ callsOf [.booted, .call (.enqueue slotMessage) (.ok .done), .stopped],
        op.Counted := by
      intro op hop
      rw [List.mem_singleton.mp hop]
      exact rfl
    have hrecorded : Recorded slotConfig s := (NvsSound.run (by decide) run hcounted).1
    have hsizes : SizesRead slotConfig (· = 1) s := by
      rintro i hi id ⟨data, hdata, _⟩ hkey
      rw [hkey, hnone] at hdata
      cases hdata
    refine ⟨s, run, hstores, (recovery_spares slotConfig noUsage _ _ _ s).1 hsizes, fun hspares => ?_⟩
    exact (recovery_spares slotConfig noUsage _ _ _ s).2 hrecorded hspares 0 (by decide) 7 hstores rfl

/-! ## A message that is lost -/

/-- The message that is accepted after the restart. -/
def followingMessage : EdgesyncMessage := { slotMessage with id := 8 }

/-- Only the size query of the first slot fails. -/
def firstSizeAllow (c : BlobCall) (ev : BlobEvent) : Bool :=
  decide (ev = .run ∨ ev = .fail ∧ c = .size 0)

/-- Message 8 takes the slot of message 7. -/
def overwrittenShows (ctx : NvsCtx) (s : BlobStore) : Bool :=
  match exec (blobDevice noUsage) (nvsCall slotConfig (.enqueue followingMessage)) ctx s [] with
  | .ok .done _ s' => decide (¬ Stores slotConfig s' 0 7)
  | _ => false

/-- Message 7 is in the first slot; with its size query failing `op_recover` indexes
nothing. -/
def misreadShowsFrom (s : BlobStore) : Bool :=
  decide (Stores slotConfig s 0 7) &&
  admits (blobDevice noUsage) firstSizeAllow (nvsOpRecover slotConfig) (NvsCtx.fresh slotConfig) s
    [.fail] &&
  match exec (blobDevice noUsage) (nvsOpRecover slotConfig) (NvsCtx.fresh slotConfig) s [.fail] with
  | .ok _ ctx s' => ctx.index.isEmpty && overwrittenShows ctx s'
  | _ => false

/-- What `misreadShowsFrom` says. -/
theorem misread_from {s : BlobStore} (h : misreadShowsFrom s = true) :
    Stores slotConfig s 0 7 ∧ ∃ ctx s1 ctx' s2,
    Runs (blobDevice noUsage) (readFaults (· = 0) fun _ => False) (nvsOpRecover slotConfig)
      (NvsCtx.fresh slotConfig) s (.ok () ctx s1) ∧
    ctx.index = [] ∧
    Runs (blobDevice noUsage) quietStore (nvsCall slotConfig (.enqueue followingMessage)) ctx s1
      (.ok .done ctx' s2) ∧
    ¬ Stores slotConfig s2 0 7 := by
  unfold misreadShowsFrom at h
  obtain ⟨hfirst, hrecovered⟩ := Bool.and_eq_true_iff.mp h
  obtain ⟨hstores, hadmits⟩ := Bool.and_eq_true_iff.mp hfirst
  have hrecover : Runs (blobDevice noUsage) (readFaults (· = 0) fun _ => False) _ _ _ _ :=
    runs_of_admits (fun _ _ _ h => (of_decide_eq_true h).imp_right fun h =>
      ⟨h.1, .inl ⟨0, h.2, rfl⟩⟩) _ hadmits
  split at hrecovered
  case h_2 => cases hrecovered
  rename_i ctx s1 hexec
  rw [hexec] at hrecover
  obtain ⟨hempty, hover⟩ := Bool.and_eq_true_iff.mp hrecovered
  unfold overwrittenShows at hover
  split at hover
  case h_2 => cases hover
  rename_i ctx' s2 hexec'
  have henqueue : Runs (blobDevice noUsage) quietStore (nvsCall slotConfig (.enqueue followingMessage))
      ctx s1 (.ok .done ctx' s2) :=
    hexec' ▸ @exec_runs _ _ _ _ _ _ _ (blobDevice noUsage) quietStore (fun _ _ => rfl) _ ctx s1 []
      fun ev hev => absurd hev List.not_mem_nil
  exact ⟨of_decide_eq_true hstores, ctx, s1, ctx', s2, hrecover, List.isEmpty_iff.mp hempty,
    henqueue, of_decide_eq_true hover⟩

/-- Message 7 was accepted. -/
def misreadShows : List FlashqStepLabel × NvsSystem noUsage slotConfig → Bool
  | ([.booted, .call op (.ok .done), .stopped], .off s) =>
    decide (op = .enqueue slotMessage) && misreadShowsFrom s
  | _ => false

/-- The size query of an occupied slot fails once during `op_recover`, which returns
`ESP_OK`; the next message is stored over the one in the slot. -/
theorem misread_message_overwritten : ∃ s ctx s1 ctx' s2,
    StorageRun (nvsBackend noUsage slotConfig) (nvsWorld noUsage slotConfig quietStore)
      (.off emptyStore) [.booted, .call (.enqueue slotMessage) (.ok .done), .stopped] (.off s) ∧
    Stores slotConfig s 0 7 ∧
    Runs (blobDevice noUsage) (readFaults (· = 0) fun _ => False) (nvsOpRecover slotConfig)
      (NvsCtx.fresh slotConfig) s (.ok () ctx s1) ∧
    ctx.index = [] ∧
    Runs (blobDevice noUsage) quietStore (nvsCall slotConfig (.enqueue followingMessage)) ctx s1
      (.ok .done ctx' s2) ∧
    ¬ Stores slotConfig s2 0 7 ∧
    ¬ RecoverySpares slotConfig noUsage (· = 0) (fun _ => False) (NvsCtx.fresh slotConfig) s := by
  have hcheck : (nvsPlay slotConfig (.off emptyStore) storedScript []).any misreadShows = true := by
    decide +kernel
  obtain ⟨played, hplay, hshows⟩ := (Option.any_eq_true _ _).mp hcheck
  unfold misreadShows at hshows
  split at hshows
  case h_2 => cases hshows
  rename_i op s
  obtain ⟨hop, hfrom⟩ := Bool.and_eq_true_iff.mp hshows
  obtain rfl := of_decide_eq_true hop
  obtain ⟨hstores, ctx, s1, ctx', s2, hrecover, hnil, henqueue, hover⟩ := misread_from hfrom
  refine ⟨s, ctx, s1, ctx', s2, nvsPlay_quiet (by decide) hplay, hstores, hrecover, hnil, henqueue,
    hover, fun hspares => ?_⟩
  obtain ⟨⟨e, he, _⟩, _⟩ := hspares _ hrecover 0 (by decide) 7 hstores
  rw [hnil] at he
  exact absurd he List.not_mem_nil

end EdgeSync
