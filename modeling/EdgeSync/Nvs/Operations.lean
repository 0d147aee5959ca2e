/-
  Nvs/Operations.lean --- what a call of the NVS backend does, in one place.

  `NvsEffect` lists every way a call can end on a store whose calls work, as
  `Effect` does for the flash queue.  A power cut during the call leaves the store
  as it was, or as one of the effects leaves it.  `wp_nvsCall` is the one theorem
  about the programs.
-/
import EdgeSync.Nvs.Slots

set_option autoImplicit false

namespace EdgeSync

open Foundation

variable {cfg : NvsConfig}

/-! ## The messages behind the index -/

/-- What the slot of an entry holds, read by the lengths of the entry. -/
def slotContent (s : BlobStore) (e : NvsIndexEntry) : StoredMessage where
  toEntryMeta := e.toEntryMeta
  destination := slice ((s (slotKey e.slot)).getD []) hdrSize e.destinationLen.toNat
  payload := slice ((s (slotKey e.slot)).getD []) (hdrSize + e.destinationLen.toNat)
    e.payloadLen.toNat

/-- The messages behind the index. -/
def NvsCtx.queue (ctx : NvsCtx) (s : BlobStore) : List StoredMessage := ctx.index.map (slotContent s)

variable (cfg) in
/-- The slot holds the record of the message. -/
structure Holds (s : BlobStore) (slot : UInt32) (x : StoredMessage) : Prop where
  stored : s (slotKey slot) = some x.blob
  sized : x.Sized cfg

section Content

variable {s : BlobStore} {e : NvsIndexEntry} {x : StoredMessage} {slot : UInt32}

@[simp] theorem slotContent_toEntryMeta (s : BlobStore) (e : NvsIndexEntry) :
    (slotContent s e).toEntryMeta = e.toEntryMeta := rfl

/-- A record is read back. -/
theorem Holds.content (h : Holds cfg s e.slot x) (he : e.toEntryMeta = x.toEntryMeta) :
    slotContent s e = x := by
  have hbody := @StoredMessage.Sized.slice_body x []
  have hdest := @StoredMessage.Sized.slice_destination x []
  rw [List.append_nil] at hbody hdest
  have hdl := h.sized.destinationLen_toNat
  have hpl := h.sized.payloadLen
  have hpay : slice x.blob (hdrSize + x.destination.length) x.payload.length = x.payload := by
    rw [← slice_append_slice, hdest] at hbody
    exact List.append_cancel_left hbody
  rw [slotContent, h.stored, he]
  simp only [Option.getD_some, hdl, hpl, hdest, hpay]

/-- Only the blob of the slot matters. -/
theorem slotContent_congr {s' : BlobStore} (h : s' (slotKey e.slot) = s (slotKey e.slot)) :
    slotContent s' e = slotContent s e := by
  simp only [slotContent, h]

theorem Holds.congr {s' : BlobStore} (h : Holds cfg s slot x)
    (hs : s' (slotKey slot) = s (slotKey slot)) : Holds cfg s' slot x :=
  ⟨hs.trans h.stored, h.sized⟩

theorem holds_set (hx : x.Sized cfg) : Holds cfg (s.set (slotKey slot) x.blob) slot x :=
  ⟨BlobStore.set_self .., hx⟩

end Content

variable (cfg) in
/-- Between two calls every entry has its record in a slot of its own. -/
structure NvsBase (ctx : NvsCtx) (s : BlobStore) : Prop where
  held : ∀ e ∈ ctx.index, Holds cfg s e.slot (slotContent s e)
  keys : (ctx.index.map fun e => slotKey e.slot).Nodup
  slots : ctx.slotUsed.length = cfg.maxMessages.toNat
  used : ∀ i, ctx.slotUsed[i]? = some true ↔ i ∈ ctx.index.map fun e => e.slot.toNat

/-- Nothing else is stored. -/
def NvsOnly (ctx : NvsCtx) (s : BlobStore) : Prop :=
  ∀ k data, s k = some data → k ∈ ctx.index.map fun e => slotKey e.slot

section Slots

variable {ctx : NvsCtx} {s : BlobStore} {slot : UInt32}

theorem metas_nvsQueue (ctx : NvsCtx) (s : BlobStore) : metas (ctx.queue s) = ctx.metas := by
  rw [metas, NvsCtx.queue, List.map_map]
  rfl

theorem length_nvsQueue (ctx : NvsCtx) (s : BlobStore) :
    (ctx.queue s).length = ctx.index.length := List.length_map _

theorem findMessage_nvsQueue (ctx : NvsCtx) (s : BlobStore) (id : UInt64) :
    findMessage (ctx.queue s) id = nvsFindEntry ctx.index id :=
  findPos_map (slotContent s) (fun x => x.id == id) ctx.index

/-- Two entries with one key are one entry. -/
theorem NvsBase.eq_of_key (b : NvsBase cfg ctx s) {i j : Nat} {e f : NvsIndexEntry}
    (he : ctx.index[i]? = some e) (hf : ctx.index[j]? = some f)
    (hk : slotKey e.slot = slotKey f.slot) : i = j := by
  have hi : (ctx.index.map fun e => slotKey e.slot)[i]? = some (slotKey e.slot) := by
    rw [List.getElem?_map, he]
    rfl
  have hj : (ctx.index.map fun e => slotKey e.slot)[j]? = some (slotKey e.slot) := by
    rw [List.getElem?_map, hf, hk]
    rfl
  obtain ⟨hi', hi⟩ := List.getElem?_eq_some_iff.mp hi
  obtain ⟨hj', hj⟩ := List.getElem?_eq_some_iff.mp hj
  exact (List.Nodup.getElem_inj_iff b.keys).mp (hi.trans hj.symm)

theorem slot_lt (b : NvsBase cfg ctx s) {e : NvsIndexEntry} (he : e ∈ ctx.index) :
    e.slot.toNat < cfg.maxMessages.toNat := by
  have h := (b.used e.slot.toNat).mpr (List.mem_map_of_mem he)
  rw [← b.slots]
  exact (List.getElem?_eq_some_iff.mp h).1

/-- There are no more messages than slots. -/
theorem NvsBase.length_le (b : NvsBase cfg ctx s) : ctx.index.length ≤ cfg.indexCapacity := by
  have hnodup : (ctx.index.map fun e => e.slot.toNat).Nodup := by
    have hkeys := b.keys
    rw [show (fun e : NvsIndexEntry => slotKey e.slot) = (· % 100000) ∘ fun e => e.slot.toNat from rfl,
      ← List.map_map] at hkeys
    exact hkeys.of_map _
  have hsub : (ctx.index.map fun e => e.slot.toNat) ⊆ List.range cfg.maxMessages.toNat := by
    intro i hi
    obtain ⟨e, he, rfl⟩ := List.mem_map.mp hi
    exact List.mem_range.mpr (slot_lt b he)
  have hlen := (List.subperm_of_subset hnodup hsub).length_le
  rwa [List.length_map, List.length_range] at hlen

/-- `find_free_slot` finds an unused slot. -/
theorem findFreeSlot_some (b : NvsBase cfg ctx s) (h : findFreeSlot ctx.slotUsed = some slot) :
    slot.toNat < cfg.maxMessages.toNat ∧ ∀ e ∈ ctx.index, e.slot ≠ slot := by
  obtain ⟨i, hi, rfl⟩ := Option.map_eq_some_iff.mp h
  obtain ⟨used, hget, hfree⟩ := findPos_some hi
  obtain ⟨hlt, hget'⟩ := List.getElem?_eq_some_iff.mp hget
  rw [b.slots] at hlt
  have hto : (UInt32.ofNat i).toNat = i :=
    UInt32.toNat_ofNat_of_lt' (by have := cfg.maxMessages.toNat_lt; simp only [UInt32.size]; omega)
  refine ⟨by rw [hto]; exact hlt, fun e he hslot => ?_⟩
  have hused := (b.used i).mpr (List.mem_map.mpr ⟨e, he, by rw [hslot, hto]⟩)
  rw [hget] at hused
  rw [Option.some.inj hused] at hfree
  exact absurd hfree (by decide)

/-- A table that is not full has an unused slot. -/
theorem findFreeSlot_ne_none (b : NvsBase cfg ctx s)
    (h : ctx.index.length < cfg.indexCapacity) : findFreeSlot ctx.slotUsed ≠ none := by
  intro hnone
  have hfull := findPos_none (Option.map_eq_none_iff.mp hnone)
  have hsub : List.range cfg.maxMessages.toNat ⊆ ctx.index.map (·.slot.toNat) := by
    intro i hi
    have hlt : i < ctx.slotUsed.length := by
      rw [b.slots]
      exact List.mem_range.mp hi
    have hused := hfull _ (List.getElem_mem hlt)
    refine (b.used i).mp ?_
    rw [List.getElem?_eq_getElem hlt]
    simpa using hused
  have hlen := (List.subperm_of_subset List.nodup_range hsub).length_le
  rw [List.length_range, List.length_map] at hlen
  simp only [NvsConfig.indexCapacity] at h
  omega

end Slots

/-- Change the changing part of an entry. -/
def NvsIndexEntry.change (f : Progress → Progress) (e : NvsIndexEntry) : NvsIndexEntry :=
  { e with toEntryMeta := e.toEntryMeta.change f }

/-! ## The effect of a call -/

/-- The encoder takes the message. -/
def EdgesyncMessage.EncodesNvs (cfg : NvsConfig) (message : EdgesyncMessage) : Prop :=
  strlen message.destination ≤ maxDestinationLen ∧
    recordTotalSize (UInt16.ofNat (strlen message.destination)) message.payloadLen ≤ cfg.scratchSize

instance (cfg : NvsConfig) (message : EdgesyncMessage) : Decidable (message.EncodesNvs cfg) :=
  inferInstanceAs (Decidable (_ ∧ _))

/-- `payload_len` is the length of the payload: it is a 32-bit field. -/
def StorageOp.Counted : StorageOp → Prop
  | .enqueue message => message.payloadLen.toNat = message.payload.length
  | _ => True

/-- A message that is encoded fits its record. -/
theorem sized_ofMessage {message : EdgesyncMessage} (henc : message.EncodesNvs cfg)
    (hlen : message.payloadLen.toNat = message.payload.length) :
    (StoredMessage.ofMessage message).Sized cfg where
  destination_ne _ hb := ne_zero_of_mem_cString hb
  destination_le := henc.1
  destinationLen := rfl
  payloadLen := hlen
  record_le := henc.2

/-- What a claim at `nowUs` hands out; the payload lies behind the destination in
the claim buffer. -/
def StoredMessage.nvsClaimedMessage (nowUs : Int64) (x : StoredMessage) : ClaimedMessage :=
  { x.claimedMessage nowUs with payloadOff := x.destinationLen.toNat }

/-- Why a call is refused. -/
inductive NvsRefused (cfg : NvsConfig) (q : List EntryMeta) : StorageOp → EspErr → Prop where
  | full {message : EdgesyncMessage} (full : cfg.indexCapacity ≤ q.length) :
      NvsRefused cfg q (.enqueue message) .queueFull
  | encoding {message : EdgesyncMessage} (room : q.length < cfg.indexCapacity)
      (encodes : ¬ message.EncodesNvs cfg) : NvsRefused cfg q (.enqueue message) .serialization
  | idle {nowUs : Int64} (none : selectClaim nowUs q = none) :
      NvsRefused cfg q (.claimNext nowUs) .notFound
  | retire {op : StorageOp} {id : UInt64} {newState : FlashqState} (retires : Retires op id newState)
      (none : findMeta q id = none) : NvsRefused cfg q op .notFound
  | retry {id : UInt64} {nextRetryTimeUs : Int64} {deadLetter : Bool} {lastError : Int32}
      (none : findMeta q id = none) :
      NvsRefused cfg q (.scheduleRetry id nextRetryTimeUs deadLetter lastError) .notFound
  | candidate {policy : OverflowPolicy} (none : selectDrop policy q = none) :
      NvsRefused cfg q (.findDropCandidate policy) .notFound

/-- The counters of a reply come from the index; the usage from the store. -/
def NvsCounted (cfg : NvsConfig) (q : List EntryMeta) (stats stats' : EdgesyncStats) : Prop :=
  ∃ total used, stats' =
    { q.foldl EdgesyncStats.count stats with
      queueCapacity := UInt32.ofNat cfg.indexCapacity
      storageBytesCapacity := total
      storageBytesUsed := used }

variable (cfg) in
/-- Every way a call can end with the power on. -/
inductive NvsEffect (ctx : NvsCtx) (s : BlobStore) :
    StorageOp → Except EspErr StorageReply → NvsCtx → BlobStore → Prop where
  | refused {op : StorageOp} {err : EspErr} {ctx' : NvsCtx} (why : NvsRefused cfg ctx.metas op err)
      (index : ctx'.index = ctx.index) (slotUsed : ctx'.slotUsed = ctx.slotUsed) :
      NvsEffect ctx s op (.error err) ctx' s
  | candidate {policy : OverflowPolicy} {pos : Nat} {e : NvsIndexEntry}
      (selected : selectDrop policy ctx.metas = some pos) (entry : ctx.index[pos]? = some e) :
      NvsEffect ctx s (.findDropCandidate policy) (.ok (.candidate e.id)) ctx s
  | stats {stats stats' : EdgesyncStats} (counted : NvsCounted cfg ctx.metas stats stats') :
      NvsEffect ctx s (.getStats stats) (.ok (.stats stats')) ctx s
  | enqueued {message : EdgesyncMessage} {slot : UInt32} {ctx' : NvsCtx}
      (room : ctx.metas.length < cfg.indexCapacity) (encodes : message.EncodesNvs cfg)
      (free : findFreeSlot ctx.slotUsed = some slot)
      (index : ctx'.index = ctx.index ++ [message.nvsEntry slot])
      (slotUsed : ctx'.slotUsed = ctx.slotUsed.set slot.toNat true) :
      NvsEffect ctx s (.enqueue message) (.ok .done) ctx'
        (s.set (slotKey slot) (StoredMessage.ofMessage message).blob)
  | claimed {nowUs : Int64} {pos : Nat} {e : NvsIndexEntry} {ctx' : NvsCtx}
      (selected : selectClaim nowUs ctx.metas = some pos) (entry : ctx.index[pos]? = some e)
      (index : ctx'.index = ctx.index.modify pos (·.change (Progress.claimed nowUs)))
      (slotUsed : ctx'.slotUsed = ctx.slotUsed)
      (borrowed : slice ctx'.claimScratch e.destinationLen.toNat e.payloadLen.toNat =
        (slotContent s e).payload) :
      NvsEffect ctx s (.claimNext nowUs)
        (.ok (.claim (.claimed ((slotContent s e).nvsClaimedMessage nowUs)))) ctx'
        (s.set (slotKey e.slot) ((slotContent s e).change (Progress.claimed nowUs)).blob)
  | retired {op : StorageOp} {id : UInt64} {newState : FlashqState} {pos : Nat} {e : NvsIndexEntry}
      {ctx' : NvsCtx} (retires : Retires op id newState) (found : nvsFindEntry ctx.index id = some pos)
      (entry : ctx.index[pos]? = some e) (index : ctx'.index = swapRemove ctx.index pos)
      (slotUsed : ctx'.slotUsed = ctx.slotUsed.set e.slot.toNat false) :
      NvsEffect ctx s op (.ok .done) ctx' (s.erase (slotKey e.slot))
  | retried {id : UInt64} {nextRetryTimeUs : Int64} {deadLetter : Bool} {lastError : Int32}
      {pos : Nat} {e : NvsIndexEntry} {ctx' : NvsCtx}
      (found : nvsFindEntry ctx.index id = some pos) (entry : ctx.index[pos]? = some e)
      (index : ctx'.index = ctx.index.modify pos
        (·.change (Progress.retried nextRetryTimeUs deadLetter lastError)))
      (slotUsed : ctx'.slotUsed = ctx.slotUsed) :
      NvsEffect ctx s (.scheduleRetry id nextRetryTimeUs deadLetter lastError) (.ok .done) ctx'
        (s.set (slotKey e.slot) (((slotContent s e).change
          (Progress.retried nextRetryTimeUs deadLetter lastError)).cleared).blob)

/-! ## Failing store calls -/

/-- The NVS functions that may fail. -/
inductive NvsFunction where
  | getBlob
  | setBlob
  | eraseKey
  | commit
  | getStats
  deriving DecidableEq, Repr

/-- The function behind a call. -/
def nvsFunction : BlobCall → NvsFunction
  | .size _ => .getBlob
  | .get _ => .getBlob
  | .set _ _ => .setBlob
  | .erase _ => .eraseKey
  | .commit => .commit
  | .usage => .getStats

/-- Some call of the function may fail. -/
def NvsFails (env : Env BlobCall BlobStore BlobEvent) (f : NvsFunction) : Prop :=
  ∃ s c, nvsFunction c = f ∧ env s c .fail

/-- The calls that assign an index entry and write its record back. -/
def StorageOp.Rewrites : StorageOp → Prop
  | .claimNext _ => True
  | .scheduleRetry _ _ _ _ => True
  | _ => False

variable (cfg) in
/-- Every way a call can end when a store call failed in it: `effect` is what the
call would have done. -/
inductive NvsFault (env : Env BlobCall BlobStore BlobEvent) (ctx : NvsCtx) (s : BlobStore)
    (op : StorageOp) : EspErr → NvsCtx → BlobStore → Prop where
  /-- the failure came before any change -/
  | untouched {err : EspErr} {ctx' : NvsCtx} {f : NvsFunction} (failed : NvsFails env f)
      (index : ctx'.index = ctx.index) (slotUsed : ctx'.slotUsed = ctx.slotUsed) :
      NvsFault env ctx s op err ctx' s
  /-- the entry was assigned, its record was not written -/
  | unwritten {reply : StorageReply} {ctx1 ctx' : NvsCtx} {s1 : BlobStore}
      (effect : NvsEffect cfg ctx s op (.ok reply) ctx1 s1) (rewrites : op.Rewrites)
      (failed : NvsFails env .setBlob) (index : ctx'.index = ctx1.index)
      (slotUsed : ctx'.slotUsed = ctx1.slotUsed) : NvsFault env ctx s op .storage ctx' s
  /-- the entry was assigned and its record written, the commit failed -/
  | uncommitted {reply : StorageReply} {ctx1 ctx' : NvsCtx} {s1 : BlobStore}
      (effect : NvsEffect cfg ctx s op (.ok reply) ctx1 s1) (rewrites : op.Rewrites)
      (failed : NvsFails env .commit) (index : ctx'.index = ctx1.index)
      (slotUsed : ctx'.slotUsed = ctx1.slotUsed) : NvsFault env ctx s op .storage ctx' s1
  /-- the store was changed, the commit failed, the index does not follow -/
  | unindexed {reply : StorageReply} {ctx1 ctx' : NvsCtx} {s1 : BlobStore}
      (effect : NvsEffect cfg ctx s op (.ok reply) ctx1 s1) (rewrites : ¬ op.Rewrites)
      (failed : NvsFails env .commit) (index : ctx'.index = ctx.index)
      (slotUsed : ctx'.slotUsed = ctx.slotUsed) : NvsFault env ctx s op .storage ctx' s1

/-- Without failing store calls there is no fault. -/
theorem NvsFault.fails {env : Env BlobCall BlobStore BlobEvent} {ctx ctx' : NvsCtx}
    {s s' : BlobStore} {op : StorageOp} {err : EspErr}
    (h : NvsFault cfg env ctx s op err ctx' s') : ∃ s c, env s c .fail := by
  cases h with
  | untouched failed => exact ⟨_, _, failed.choose_spec.choose_spec.2⟩
  | unwritten effect rewrites failed => exact ⟨_, _, failed.choose_spec.choose_spec.2⟩
  | uncommitted effect rewrites failed => exact ⟨_, _, failed.choose_spec.choose_spec.2⟩
  | unindexed effect rewrites failed => exact ⟨_, _, failed.choose_spec.choose_spec.2⟩

/-! ## Calls -/

section Programs

variable {usage : BlobStore → UInt32 × UInt32} {env : Env BlobCall BlobStore BlobEvent}
  {ctx : NvsCtx} {s : BlobStore} {e : NvsIndexEntry} {x : StoredMessage} {destination : Bytes}

/-- Reading the slot of a message. -/
theorem Holds.wp_read {P : Post NvsCtx BlobStore EspErr RecordHdr} {slot : UInt32}
    (h : Holds cfg s slot x)
    (hok : P.ok x.hdr { ctx with scratch := x.blob ++ ctx.scratch.drop x.blob.length } s)
    (hfail : NvsFails env .getBlob → P.error .notFound ctx s ∧ P.error .storage ctx s)
    (hcut : P.cut s) : wp (blobDevice usage) env (readAndVerify cfg slot) P ctx s :=
  wp_readAndVerify h.sized h.stored hok (fun hev => (hfail ⟨_, _, rfl, hev⟩).1)
    (fun hev => (hfail ⟨_, _, rfl, hev⟩).2) fun _ _ _ => hcut

/-- Writing the record of a message. -/
theorem wp_writeRecord {P : Post NvsCtx BlobStore EspErr Unit} {payload : Body} {rest : Bytes}
    (henc : encodeMessageFull ctx.scratch cfg.scratchSize e.id destination e.priority e.state
      e.attemptCount e.createdAtUs e.lastAttemptAtUs e.nextRetryAtUs e.lastError payload
      e.payloadLen 0 = some (x.blob ++ rest, x.blob.length))
    (hok : P.ok () { ctx with scratch := x.blob ++ rest } (s.set (slotKey e.slot) x.blob))
    (hset : NvsFails env .setBlob → P.error .storage { ctx with scratch := x.blob ++ rest } s)
    (hcommit : NvsFails env .commit →
      P.error .storage { ctx with scratch := x.blob ++ rest } (s.set (slotKey e.slot) x.blob))
    (hcut : P.cut s) (hcut' : P.cut (s.set (slotKey e.slot) x.blob)) :
    wp (blobDevice usage) env (writeEntry cfg e destination payload) P ctx s :=
  wp_writeEntry henc rfl hok (fun hev => hset ⟨_, _, rfl, hev⟩) (fun hev => hcommit ⟨_, _, rfl, hev⟩)
    (fun _ _ => ⟨hcut, hcut'⟩) fun _ _ => hcut'

theorem wp_nvsEntryAt {P : Post NvsCtx BlobStore EspErr NvsIndexEntry} {pos : Nat}
    (he : ctx.index[pos]? = some e) (h : P.ok e ctx s) :
    wp (blobDevice usage) env (nvsEntryAt pos) P ctx s := by
  unfold nvsEntryAt
  simp only [Prog.bind_eq, wp_bind, wp_read, he]
  exact wp_ret.mpr h

/-- `op_enqueue`. -/
theorem wp_nvsOpEnqueue {P : Post NvsCtx BlobStore EspErr Unit} {message : EdgesyncMessage}
    (b : NvsBase cfg ctx s) (hlen : message.payloadLen.toNat = message.payload.length)
    (hok : ∀ ctx' s', NvsEffect cfg ctx s (.enqueue message) (.ok .done) ctx' s' → P.ok () ctx' s')
    (herr : ∀ err ctx', NvsEffect cfg ctx s (.enqueue message) (.error err) ctx' s →
      P.error err ctx' s)
    (hfault : ∀ err ctx' s', NvsFault cfg env ctx s (.enqueue message) err ctx' s' →
      P.error err ctx' s')
    (hcut : P.cut s)
    (hcut' : ∀ ctx' s', NvsEffect cfg ctx s (.enqueue message) (.ok .done) ctx' s' → P.cut s') :
    wp (blobDevice usage) env (nvsOpEnqueue cfg message) P ctx s := by
  have hlength : ctx.metas.length = ctx.index.length := List.length_map _
  unfold nvsOpEnqueue
  simp only [Prog.bind_eq, wp_bind, wp_read, wp_ite, wp_fail]
  refine ⟨fun hfull => herr _ _ (.refused (.full (by rw [hlength]; exact hfull)) rfl rfl),
    fun hroom => ?_⟩
  have hroom := Nat.lt_of_not_le hroom
  cases hfree : findFreeSlot ctx.slotUsed with
  | none => exact absurd hfree (findFreeSlot_ne_none b hroom)
  | some slot =>
    simp only [wp_bind]
    by_cases henc : message.EncodesNvs cfg
    · have hx := sized_ofMessage henc hlen
      have heff : ∀ ctx' : NvsCtx, ctx'.index = ctx.index ++ [message.nvsEntry slot] →
          ctx'.slotUsed = ctx.slotUsed.set slot.toNat true →
          NvsEffect cfg ctx s (.enqueue message) (.ok .done) ctx'
            (s.set (slotKey slot) (StoredMessage.ofMessage message).blob) :=
        fun ctx' h1 h2 => .enqueued (by rw [hlength]; exact hroom) henc hfree h1 h2
      have hbytes := @encode_bytes cfg (message.nvsEntry slot) _ message.destination hx rfl
        ctx.scratch message.payload rfl List.take_length
      have hdone := heff
        { ctx with
          index := ctx.index ++ [message.nvsEntry slot]
          slotUsed := ctx.slotUsed.set slot.toNat true } rfl rfl
      refine wp_writeRecord hbytes ?_ (fun hset => hfault _ _ _ (.untouched hset rfl rfl))
        (fun hcommit => hfault _ _ _ (.unindexed hdone not_false hcommit rfl rfl)) hcut
        (hcut' _ _ hdone)
      simp only [wp_modify]
      exact hok _ _ (heff _ rfl rfl)
    · refine wp_writeEntry_none ?_ (herr _ _ (.refused (.encoding (by rw [hlength]; exact hroom)
        henc) rfl rfl))
      by_cases hd : strlen message.destination ≤ maxDestinationLen
      · exact encodeMessageFull_none_of_cap (Nat.lt_of_not_le fun hcap => henc ⟨hd, hcap⟩)
      · exact encodeMessageFull_none_of_dest (Nat.lt_of_not_le hd)

/-- `op_mark_delivered` and `op_remove`. -/
theorem wp_nvsOpMarkDelivered {P : Post NvsCtx BlobStore EspErr Unit} {op : StorageOp} {id : UInt64}
    {newState : FlashqState} (b : NvsBase cfg ctx s) (retires : Retires op id newState)
    (hok : ∀ ctx' s', NvsEffect cfg ctx s op (.ok .done) ctx' s' → P.ok () ctx' s')
    (herr : ∀ err ctx', NvsEffect cfg ctx s op (.error err) ctx' s → P.error err ctx' s)
    (hfault : ∀ err ctx' s', NvsFault cfg env ctx s op err ctx' s' → P.error err ctx' s')
    (hcut : P.cut s)
    (hcut' : ∀ ctx' s', NvsEffect cfg ctx s op (.ok .done) ctx' s' → P.cut s') :
    wp (blobDevice usage) env (nvsOpMarkDelivered id) P ctx s := by
  unfold nvsOpMarkDelivered
  simp only [Prog.bind_eq, wp_bind, wp_read]
  cases hpos : nvsFindEntry ctx.index id with
  | none =>
    exact wp_fail.mpr (herr _ _ (.refused (.retire retires ((findMeta_nvsMetas ctx id).trans hpos))
      rfl rfl))
  | some pos =>
    obtain ⟨e, he, _⟩ := findPos_some hpos
    have hstored := (b.held e (List.mem_of_getElem? he)).stored
    have heff : ∀ ctx' : NvsCtx, ctx'.index = swapRemove ctx.index pos →
        ctx'.slotUsed = ctx.slotUsed.set e.slot.toNat false →
        NvsEffect cfg ctx s op (.ok .done) ctx' (s.erase (slotKey e.slot)) :=
      fun ctx' h1 h2 => .retired retires hpos he h1 h2
    have hdone := heff
      { ctx with
        index := swapRemove ctx.index pos
        slotUsed := ctx.slotUsed.set e.slot.toNat false } rfl rfl
    have hgone := hcut' _ _ hdone
    have hkeeps : ¬ op.Rewrites := by
      cases retires <;> exact not_false
    simp only [wp_bind]
    refine wp_nvsEntryAt he ?_
    refine wp_nvsEraseKey ?_ (fun hev => ?_) fun _ _ => ⟨hcut, hgone⟩
    · simp only [hstored, Option.isSome_some, if_true, wp_bind]
      refine wp_nvsCommit ?_ (fun hev => ?_) fun _ _ => hgone
      · unfold nvsRemoveEntryAt
        simp only [if_true, wp_modify, he]
        exact hok _ _ (heff _ rfl rfl)
      · simp only [Bool.false_eq_true, if_false, wp_fail]
        exact hfault _ _ _ (.unindexed hdone hkeeps ⟨_, _, rfl, hev⟩ rfl rfl)
    · simp only [Bool.false_eq_true, if_false, wp_fail]
      exact hfault _ _ _ (.untouched ⟨_, _, rfl, hev⟩ rfl rfl)

/-- The context with the entry in its new state. -/
theorem nvs_getElem?_modify {index : List NvsIndexEntry} {pos : Nat} {f : NvsIndexEntry → NvsIndexEntry}
    (he : index[pos]? = some e) : (index.modify pos f)[pos]? = some (f e) := by
  simp only [List.getElem?_modify, if_true, he]
  rfl

/-- `op_claim_next`. -/
theorem wp_nvsOpClaimNext {P : Post NvsCtx BlobStore EspErr ClaimReply} {nowUs : Int64}
    (b : NvsBase cfg ctx s)
    (hok : ∀ reply ctx' s', NvsEffect cfg ctx s (.claimNext nowUs) (.ok (.claim reply)) ctx' s' →
      P.ok reply ctx' s')
    (herr : ∀ err ctx', NvsEffect cfg ctx s (.claimNext nowUs) (.error err) ctx' s →
      P.error err ctx' s)
    (hfault : ∀ err ctx' s', NvsFault cfg env ctx s (.claimNext nowUs) err ctx' s' →
      P.error err ctx' s')
    (hcut : P.cut s)
    (hcut' : ∀ reply ctx' s', NvsEffect cfg ctx s (.claimNext nowUs) (.ok reply) ctx' s' →
      P.cut s') :
    wp (blobDevice usage) env (nvsOpClaimNext cfg nowUs) P ctx s := by
  unfold nvsOpClaimNext
  simp only [Prog.bind_eq, wp_bind, wp_read]
  cases hsel : selectClaim nowUs (ctx.index.map (·.toEntryMeta)) with
  | none => exact wp_fail.mpr (herr _ _ (.refused (.idle hsel) rfl rfl))
  | some pos =>
    obtain ⟨a, ha, _⟩ := pick_some hsel
    obtain ⟨e, he, rfl⟩ := NvsCtx.getElem?_metas ha
    have hheld := b.held e (List.mem_of_getElem? he)
    generalize hx : slotContent s e = x at hheld
    have hmeta : e.toEntryMeta = x.toEntryMeta := by rw [← hx]; rfl
    have hdl : e.destinationLen.toNat = x.destination.length := by
      rw [hmeta]
      exact hheld.sized.destinationLen_toNat
    have hpl : e.payloadLen.toNat = x.payload.length := by
      rw [hmeta]
      exact hheld.sized.payloadLen
    have heff : ∀ ctx' : NvsCtx, ctx'.index = ctx.index.modify pos (·.change (Progress.claimed nowUs)) →
        ctx'.slotUsed = ctx.slotUsed →
        slice ctx'.claimScratch e.destinationLen.toNat e.payloadLen.toNat = x.payload →
        NvsEffect cfg ctx s (.claimNext nowUs)
          (.ok (.claim (.claimed (x.nvsClaimedMessage nowUs)))) ctx'
          (s.set (slotKey e.slot) (x.change (Progress.claimed nowUs)).blob) := by
      intro ctx' h1 h2 h3
      rw [← hx] at h3 ⊢
      exact .claimed hsel he h1 h2 h3
    simp only [wp_bind]
    refine wp_nvsEntryAt he ?_
    simp only [wp_attempt]
    refine hheld.wp_read ?_ (fun hget => ⟨wp_fail.mpr (hfault _ _ _ (.untouched hget rfl rfl)),
      wp_fail.mpr (hfault _ _ _ (.untouched hget rfl rfl))⟩) hcut
    -- what the buffers hold once the record was read and the body was copied
    have hbytes : slice (x.blob ++ ctx.scratch.drop x.blob.length) hdrSize
        (x.hdr.destinationLen.toNat + x.hdr.bodyLen.toNat) = x.destination ++ x.payload := by
      rw [hheld.sized.hdr_destinationLen, hheld.sized.destinationLen_toNat]
      show slice _ hdrSize (x.destination.length + x.payloadLen.toNat) = _
      rw [hheld.sized.payloadLen]
      exact StoredMessage.Sized.slice_body _
    unfold nvsClaimIntact nvsAssignEntry
    simp only [Prog.bind_eq, Prog.pure_eq, wp_bind, wp_modify, hbytes]
    have hclaim : overlay ctx.claimScratch 0 (x.destination ++ x.payload) =
        x.destination ++ (x.payload ++
          ctx.claimScratch.drop (x.destination ++ x.payload).length) := by
      rw [overlay, List.take_zero, List.nil_append, Nat.zero_add, List.append_assoc]
    have hslice : slice (overlay ctx.claimScratch 0 (x.destination ++ x.payload)) 0
        x.destination.length = x.destination := by
      rw [hclaim, slice_append_self rfl]
    have hdrop : (overlay ctx.claimScratch 0 (x.destination ++ x.payload)).drop
        x.destination.length = x.payload ++
          ctx.claimScratch.drop (x.destination ++ x.payload).length := by
      rw [hclaim, List.drop_left' rfl]
    have hpay : slice (overlay ctx.claimScratch 0 (x.destination ++ x.payload))
        x.destination.length x.payload.length = x.payload := by
      rw [hclaim, slice_append_right (Nat.le_refl _), Nat.sub_self, slice_append_self rfl]
    refine wp_nvsEntryAt (nvs_getElem?_modify he) ?_
    simp only [wp_read]
    have hrec := @encode_bytes cfg
      (e.change (Progress.claimed nowUs)) (x.change (Progress.claimed nowUs))
      (destinationOf (overlay ctx.claimScratch 0 (x.destination ++ x.payload)) 0
        x.destination.length) (hheld.sized.change _) (by rw [NvsIndexEntry.change, hmeta]; rfl)
      (x.blob ++ ctx.scratch.drop x.blob.length)
      (x.payload ++ ctx.claimScratch.drop (x.destination ++ x.payload).length)
      (cString_destinationOf hheld.sized hslice) (List.take_left' rfl)
    rw [hdl, hdrop]
    have hdone := heff
      { ctx with
        index := ctx.index.modify pos (·.change (Progress.claimed nowUs))
        claimScratch := overlay ctx.claimScratch 0 (x.destination ++ x.payload) } rfl rfl
      (by rw [hdl, hpl]; exact hpay)
    refine wp_writeRecord hrec ?_
      (fun hset => hfault _ _ _ (.unwritten hdone trivial hset rfl rfl))
      (fun hcommit => hfault _ _ _ (.uncommitted hdone trivial hcommit rfl rfl)) hcut
      (hcut' _ _ _ hdone)
    simp only [wp_ret, hslice]
    have hreply := hok (.claimed (x.nvsClaimedMessage nowUs))
    have hmsg : x.nvsClaimedMessage nowUs =
        { id := e.id, destination := x.destination, priority := e.priority
          state := .inFlight, attemptCount := e.attemptCount + 1, createdAtUs := e.createdAtUs
          lastAttemptAtUs := nowUs, nextRetryAtUs := e.nextRetryAtUs, lastError := e.lastError
          payloadLen := e.payloadLen, payloadOff := x.destination.length } := by
      rw [StoredMessage.nvsClaimedMessage, StoredMessage.claimedMessage,
        hheld.sized.destinationLen_toNat, hmeta]
    rw [hmsg] at hreply
    refine hreply _ _ ?_
    rw [← hmsg]
    exact heff _ rfl rfl (by rw [hdl, hpl]; exact hpay)

/-- `op_schedule_retry`. -/
theorem wp_nvsOpScheduleRetry {P : Post NvsCtx BlobStore EspErr Unit} {id : UInt64}
    {nextRetryTimeUs : Int64} {deadLetter : Bool} {lastError : Int32} (b : NvsBase cfg ctx s)
    (hok : ∀ ctx' s', NvsEffect cfg ctx s (.scheduleRetry id nextRetryTimeUs deadLetter lastError)
      (.ok .done) ctx' s' → P.ok () ctx' s')
    (herr : ∀ err ctx', NvsEffect cfg ctx s
      (.scheduleRetry id nextRetryTimeUs deadLetter lastError) (.error err) ctx' s →
      P.error err ctx' s)
    (hfault : ∀ err ctx' s', NvsFault cfg env ctx s
      (.scheduleRetry id nextRetryTimeUs deadLetter lastError) err ctx' s' → P.error err ctx' s')
    (hcut : P.cut s)
    (hcut' : ∀ ctx' s', NvsEffect cfg ctx s
      (.scheduleRetry id nextRetryTimeUs deadLetter lastError) (.ok .done) ctx' s' → P.cut s') :
    wp (blobDevice usage) env (nvsOpScheduleRetry cfg id nextRetryTimeUs deadLetter lastError) P
      ctx s := by
  unfold nvsOpScheduleRetry
  simp only [Prog.bind_eq, wp_bind, wp_read]
  cases hpos : nvsFindEntry ctx.index id with
  | none =>
    exact wp_fail.mpr (herr _ _ (.refused (.retry ((findMeta_nvsMetas ctx id).trans hpos)) rfl rfl))
  | some pos =>
    obtain ⟨e, he, _⟩ := findPos_some hpos
    have hheld := b.held e (List.mem_of_getElem? he)
    generalize hx : slotContent s e = x at hheld
    have hmeta : e.toEntryMeta = x.toEntryMeta := by rw [← hx]; rfl
    have heff : ∀ ctx' : NvsCtx, ctx'.index = ctx.index.modify pos
          (·.change (Progress.retried nextRetryTimeUs deadLetter lastError)) →
        ctx'.slotUsed = ctx.slotUsed →
        NvsEffect cfg ctx s (.scheduleRetry id nextRetryTimeUs deadLetter lastError) (.ok .done)
          ctx' (s.set (slotKey e.slot) ((x.change
            (Progress.retried nextRetryTimeUs deadLetter lastError)).cleared).blob) := by
      intro ctx' h1 h2
      rw [← hx]
      exact .retried hpos he h1 h2
    have hdone := heff
      { ctx with
        index := ctx.index.modify pos
          (·.change (Progress.retried nextRetryTimeUs deadLetter lastError)) }
      rfl rfl
    simp only [wp_bind]
    refine wp_nvsEntryAt he (hheld.wp_read ?_ (fun hget => ⟨hfault _ _ _ (.untouched hget rfl rfl),
      hfault _ _ _ (.untouched hget rfl rfl)⟩) hcut)
    unfold nvsAssignEntry
    simp only [wp_read, wp_modify]
    refine wp_nvsEntryAt (nvs_getElem?_modify he) ?_
    rw [hheld.sized.hdr_destinationLen, hheld.sized.destinationLen_toNat]
    have hrec := @encode_slice cfg
      (e.change (Progress.retried nextRetryTimeUs deadLetter lastError))
      (x.change (Progress.retried nextRetryTimeUs deadLetter lastError))
      (destinationOf (x.blob ++ ctx.scratch.drop x.blob.length) hdrSize x.destination.length)
      (hheld.sized.change _) (by rw [NvsIndexEntry.change, hmeta]; rfl) (x.blob ++ ctx.scratch.drop x.blob.length)
      (cString_destinationOf hheld.sized (StoredMessage.Sized.slice_destination _))
    exact wp_writeRecord hrec (hok _ _ (heff _ rfl rfl))
      (fun hset => hfault _ _ _ (.unwritten hdone trivial hset rfl rfl))
      (fun hcommit => hfault _ _ _ (.uncommitted hdone trivial hcommit rfl rfl)) hcut
      (hcut' _ _ hdone)

/-- Every run of a call has one of the effects, or a fault; a cut leaves the store as
before, or as one of the effects leaves it. -/
theorem wp_nvsCall {P : Post NvsCtx BlobStore EspErr StorageReply} {op : StorageOp}
    (b : NvsBase cfg ctx s) (hlen : op.Counted)
    (hok : ∀ reply ctx' s', NvsEffect cfg ctx s op (.ok reply) ctx' s' → P.ok reply ctx' s')
    (herr : ∀ err ctx', NvsEffect cfg ctx s op (.error err) ctx' s → P.error err ctx' s)
    (hfault : ∀ err ctx' s', NvsFault cfg env ctx s op err ctx' s' → P.error err ctx' s')
    (hcut : P.cut s)
    (hcut' : ∀ reply ctx' s', NvsEffect cfg ctx s op (.ok reply) ctx' s' → P.cut s') :
    wp (blobDevice usage) env (nvsCall cfg op) P ctx s := by
  unfold nvsCall
  cases op with
  | enqueue message =>
    simp only [StorageOps.call, sNvsOps, Prog.bind_eq, Prog.pure_eq, wp_bind, wp_ret]
    exact wp_nvsOpEnqueue b hlen (fun _ _ ef => hok _ _ _ ef) herr hfault hcut
      fun _ _ ef => hcut' _ _ _ ef
  | claimNext nowUs =>
    simp only [StorageOps.call, sNvsOps, Prog.bind_eq, Prog.pure_eq, wp_bind, wp_ret]
    exact wp_nvsOpClaimNext b (fun _ _ _ ef => hok _ _ _ ef) herr hfault hcut hcut'
  | markDelivered id =>
    simp only [StorageOps.call, sNvsOps, Prog.bind_eq, Prog.pure_eq, wp_bind, wp_ret]
    exact wp_nvsOpMarkDelivered b (.delivered id) (fun _ _ ef => hok _ _ _ ef) herr hfault hcut
      fun _ _ ef => hcut' _ _ _ ef
  | remove id =>
    simp only [StorageOps.call, sNvsOps, nvsOpRemove, Prog.bind_eq, Prog.pure_eq, wp_bind, wp_ret]
    exact wp_nvsOpMarkDelivered b (.removed id) (fun _ _ ef => hok _ _ _ ef) herr hfault hcut
      fun _ _ ef => hcut' _ _ _ ef
  | scheduleRetry id nextRetryTimeUs deadLetter lastError =>
    simp only [StorageOps.call, sNvsOps, Prog.bind_eq, Prog.pure_eq, wp_bind, wp_ret]
    exact wp_nvsOpScheduleRetry b (fun _ _ ef => hok _ _ _ ef) herr hfault hcut
      fun _ _ ef => hcut' _ _ _ ef
  | findDropCandidate policy =>
    simp only [StorageOps.call, sNvsOps, nvsOpFindDropCandidate, Prog.bind_eq, Prog.pure_eq,
      wp_bind, wp_read]
    cases hsel : selectDrop policy (ctx.index.map (·.toEntryMeta)) with
    | none => exact wp_fail.mpr (herr _ _ (.refused (.candidate hsel) rfl rfl))
    | some pos =>
      obtain ⟨a, ha, _⟩ := pick_some hsel
      obtain ⟨e, he, rfl⟩ := NvsCtx.getElem?_metas ha
      simp only [wp_bind]
      refine wp_nvsEntryAt he ?_
      simp only [wp_ret]
      exact hok _ _ _ (.candidate hsel he)
  | getStats stats =>
    simp only [StorageOps.call, sNvsOps, nvsOpGetStats, Prog.bind_eq, Prog.pure_eq, wp_bind,
      wp_read]
    refine wp_nvsGetStats ?_ (fun _ => ?_) fun _ _ => hcut
    · simp only [wp_ret]
      exact hok _ _ _ (.stats ⟨_, _, rfl⟩)
    · -- the usage that was there is kept
      simp only [wp_ret]
      exact hok _ _ _ (.stats ⟨_, _, rfl⟩)

end Programs

end EdgeSync
