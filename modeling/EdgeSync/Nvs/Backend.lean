/-
  Nvs/Backend.lean --- the NVS backend (`edgesync_storage_nvs.c`).

  Every function of the source is a program over a blob store, in the order of
  the source.  `ctx->scratch` is one buffer: `read_and_verify` reads into it,
  `write_entry` encodes into it, and the payload a caller passes to `write_entry`
  may be a slice of it.
-/
import EdgeSync.Foundation.Blobs
import EdgeSync.Storage
import EdgeSync.Format.Codec

set_option autoImplicit false

namespace EdgeSync

open Foundation

/-! ## Configuration and context -/

/-- An `edgesync_nvs_storage_config_t` that `edgesync_nvs_storage_create`
accepts; the namespace does not matter. -/
structure NvsConfig where
  maxMessages : UInt32
  maxMessageSize : UInt32
  maxMessages_ne : maxMessages ≠ 0
  deriving Repr

/-- The check of `edgesync_nvs_storage_create`. -/
def edgesyncNvsStorageCreate (maxMessages maxMessageSize : UInt32) : Option NvsConfig :=
  if h : maxMessages ≠ 0 then some ⟨maxMessages, maxMessageSize, h⟩ else none

namespace NvsConfig

variable (cfg : NvsConfig)

/-- `index_capacity`. -/
def indexCapacity : Nat := cfg.maxMessages.toNat

/-- `scratch_size`. -/
def scratchSize : Nat := recordTotalSize (UInt16.ofNat maxDestinationLen) cfg.maxMessageSize

end NvsConfig

/-- `nvs_index_entry_t`. -/
structure NvsIndexEntry extends EntryMeta where
  slot : UInt32
  deriving DecidableEq, Repr

/-- The changing part of `edgesync_nvs_ctx_t`.  `index` is the used part of the
array; its length is `index_count`. -/
structure NvsCtx where
  slotUsed : List Bool
  index : List NvsIndexEntry
  scratch : Bytes
  claimScratch : Bytes
  deriving DecidableEq, Repr

/-- The context after `edgesync_nvs_storage_create`: `slot_used` is `calloc`ed,
the scratch buffers are written before they are read. -/
def NvsCtx.fresh (cfg : NvsConfig) : NvsCtx where
  slotUsed := List.replicate cfg.maxMessages.toNat false
  index := []
  scratch := List.replicate cfg.scratchSize 0
  claimScratch := List.replicate cfg.scratchSize 0

/-- Programs of the backend. -/
abbrev NvsM (α : Type) : Type := Prog BlobCall BlobReply NvsCtx EspErr α

/-! ## The NVS calls -/

/-- `slot_key`: the number in the key, `slot % 100000`; `%05u` gives different
keys to different numbers. -/
def slotKey (slot : UInt32) : Nat := slot.toNat % 100000

/-- `nvs_get_blob` with a `NULL` buffer: the size, or nothing when it did not
return `ESP_OK`. -/
def nvsGetBlobSize (key : Nat) : NvsM (Option Nat) := Prog.ask (BlobCall.size key)

/-- `nvs_get_blob`. -/
def nvsGetBlob (key : Nat) : NvsM (Option Bytes) := Prog.ask (BlobCall.get key)

/-- `nvs_set_blob` returned `ESP_OK`. -/
def nvsSetBlob (key : Nat) (data : Bytes) : NvsM Bool := Prog.ask (BlobCall.set key data)

/-- `nvs_erase_key` returned `ESP_OK`. -/
def nvsEraseKey (key : Nat) : NvsM Bool := Prog.ask (BlobCall.erase key)

/-- `nvs_commit` returned `ESP_OK`. -/
def nvsCommit : NvsM Bool := Prog.ask BlobCall.commit

/-- `nvs_get_stats`: total and used entries. -/
def nvsGetStats : NvsM (Option (UInt32 × UInt32)) := Prog.ask BlobCall.usage

variable (cfg : NvsConfig)

/-! ## Small helpers -/

/-- `find_entry`: the position of the entry. -/
def nvsFindEntry (index : List NvsIndexEntry) (id : UInt64) : Option Nat :=
  findPos (fun e => e.id == id) index

/-- `remove_entry_at`. -/
def nvsRemoveEntryAt (pos : Nat) : NvsM Unit :=
  Prog.modify fun ctx =>
    { ctx with
      slotUsed := match ctx.index[pos]? with
        | some e => ctx.slotUsed.set e.slot.toNat false
        | none => ctx.slotUsed
      index := swapRemove ctx.index pos }

/-- `find_free_slot`. -/
def findFreeSlot (slotUsed : List Bool) : Option UInt32 :=
  (findPos (fun used => !used) slotUsed).map UInt32.ofNat

/-- `*e`, for `e = &ctx->index[pos]`; the source never goes past `index_count`. -/
def nvsEntryAt (pos : Nat) : NvsM NvsIndexEntry := do
  let ctx ← Prog.read
  match ctx.index[pos]? with
  | some e => pure e
  | none => .fail .notFound

/-- Assignments through `e = &ctx->index[pos]`. -/
def nvsAssignEntry (pos : Nat) (f : NvsIndexEntry → NvsIndexEntry) : NvsM Unit :=
  Prog.modify fun ctx => { ctx with index := ctx.index.modify pos f }

/-- `write_entry`. -/
def writeEntry (e : NvsIndexEntry) (destination : Bytes) (payload : Body) : NvsM Unit := do
  let ctx ← Prog.read
  match encodeMessageFull ctx.scratch cfg.scratchSize e.id destination e.priority e.state
      e.attemptCount e.createdAtUs e.lastAttemptAtUs e.nextRetryAtUs e.lastError payload
      e.payloadLen 0 with
  | none => .fail .serialization
  | some (buf, encLen) =>
      Prog.modify fun ctx => { ctx with scratch := buf }
      if ← nvsSetBlob (slotKey e.slot) (buf.take encLen) then
        if ← nvsCommit then pure () else .fail .storage
      else .fail .storage

/-- `read_and_verify`. -/
def readAndVerify (slot : UInt32) : NvsM RecordHdr := do
  match ← nvsGetBlobSize (slotKey slot) with
  | none => .fail .notFound
  | some len =>
      if cfg.scratchSize < len then .fail .storageCorrupt
      else
        match ← nvsGetBlob (slotKey slot) with
        | none => .fail .storage
        | some blob =>
            Prog.modify fun ctx => { ctx with scratch := overlay ctx.scratch 0 blob }
            let ctx ← Prog.read
            match decodeHeader ctx.scratch len with
            | none => .fail .storageCorrupt
            | some hdr =>
                if verifyBody hdr (ctx.scratch.drop hdrSize) (len - hdrSize) then pure hdr
                else .fail .storageCorrupt

/-- The destination of the record in `scratch`, as a C string in a zeroed array. -/
def destinationOf (scratch : Bytes) (off len : Nat) : Bytes :=
  overlay (List.replicate (maxDestinationLen + 1) 0) 0 (slice scratch off len)

/-- Erase a slot that cannot be read any more; the results are not looked at. -/
def discardSlot (slot : UInt32) : NvsM Unit := do
  let _ ← nvsEraseKey (slotKey slot)
  let _ ← nvsCommit

/-! ## Recovery -/

/-- The index entry `op_recover` makes of a record. -/
def RecordHdr.nvsEntry (hdr : RecordHdr) (slot : UInt32) : NvsIndexEntry where
  id := hdr.messageId
  state := hdr.state
  priority := hdr.priority
  destinationLen := hdr.destinationLen
  attemptCount := hdr.attemptCount
  payloadLen := hdr.bodyLen
  slot := slot
  createdAtUs := hdr.createdAtUs
  lastAttemptAtUs := hdr.lastAttemptAtUs
  nextRetryAtUs := hdr.nextRetryAtUs
  lastError := hdr.lastError

/-- One turn of the first loop of `op_recover`. -/
def recoverSlot (slot : UInt32) : NvsM Unit := do
  match ← (readAndVerify cfg slot).attempt with
  | .error .notFound => pure ()
  | .error .storageCorrupt => discardSlot slot
  | .error err => .fail err
  | .ok hdr =>
      let ctx ← Prog.read
      if cfg.indexCapacity ≤ ctx.index.length then pure ()
      else
        Prog.modify fun ctx =>
          { ctx with
            index := ctx.index ++ [hdr.nvsEntry slot]
            slotUsed := ctx.slotUsed.set slot.toNat true }

/-- The first loop of `op_recover`: the next `n` slots from `slot` on. -/
def recoverSlots : Nat → Nat → NvsM Unit
  | 0, _ => pure ()
  | n + 1, slot => do
      recoverSlot cfg (UInt32.ofNat slot)
      recoverSlots n (slot + 1)

/-- One turn of the requeue loop of `op_recover`, for an entry in flight. -/
def requeueSlot (pos : Nat) : NvsM Unit := do
  let e ← nvsEntryAt pos
  let hdr ← readAndVerify cfg e.slot
  let ctx ← Prog.read
  let destination := destinationOf ctx.scratch hdrSize hdr.destinationLen.toNat
  nvsAssignEntry pos fun e => { e with state := FlashqState.pending.code, nextRetryAtUs := 0 }
  let e ← nvsEntryAt pos
  writeEntry cfg e destination (.slice (hdrSize + hdr.destinationLen.toNat))

/-- The requeue loop of `op_recover`: the next `n` positions from `i` on. -/
def nvsRequeueLoop : Nat → Nat → NvsM Unit
  | 0, _ => pure ()
  | n + 1, i => do
      let e ← nvsEntryAt i
      if e.state = FlashqState.inFlight.code then requeueSlot cfg i
      nvsRequeueLoop n (i + 1)

/-- `op_recover`. -/
def nvsOpRecover : NvsM Unit := do
  Prog.modify fun ctx =>
    { ctx with index := [], slotUsed := List.replicate cfg.maxMessages.toNat false }
  recoverSlots cfg cfg.maxMessages.toNat 0
  let ctx ← Prog.read
  nvsRequeueLoop cfg ctx.index.length 0

/-! ## Storage operations -/

/-- The entry of a new message. -/
def EdgesyncMessage.nvsEntry (message : EdgesyncMessage) (slot : UInt32) : NvsIndexEntry where
  id := message.id
  state := FlashqState.pending.code
  priority := message.priority
  destinationLen := UInt16.ofNat (strlen message.destination)
  attemptCount := 0
  payloadLen := message.payloadLen
  slot := slot
  createdAtUs := message.createdAtUs
  lastAttemptAtUs := 0
  nextRetryAtUs := 0
  lastError := 0

/-- `op_enqueue`. -/
def nvsOpEnqueue (message : EdgesyncMessage) : NvsM Unit := do
  let ctx ← Prog.read
  if cfg.indexCapacity ≤ ctx.index.length then .fail .queueFull
  else
    match findFreeSlot ctx.slotUsed with
    | none => .fail .queueFull
    | some slot =>
        writeEntry cfg (message.nvsEntry slot) message.destination (.bytes message.payload)
        Prog.modify fun ctx =>
          { ctx with
            index := ctx.index ++ [message.nvsEntry slot]
            slotUsed := ctx.slotUsed.set slot.toNat true }

/-- `op_claim_next` once the record is in `scratch`. -/
def nvsClaimIntact (nowUs : Int64) (best : Nat) (hdr : RecordHdr) : NvsM ClaimReply := do
  Prog.modify fun ctx =>
    { ctx with
      claimScratch := overlay ctx.claimScratch 0
        (slice ctx.scratch hdrSize (hdr.destinationLen.toNat + hdr.bodyLen.toNat)) }
  nvsAssignEntry best fun e =>
    { e with
      attemptCount := e.attemptCount + 1
      state := FlashqState.inFlight.code
      lastAttemptAtUs := nowUs }
  let e ← nvsEntryAt best
  let ctx ← Prog.read
  writeEntry cfg e (destinationOf ctx.claimScratch 0 e.destinationLen.toNat)
    (.bytes (ctx.claimScratch.drop e.destinationLen.toNat))
  let ctx ← Prog.read
  pure (.claimed
    { id := e.id
      destination := slice ctx.claimScratch 0 e.destinationLen.toNat
      priority := e.priority
      state := .inFlight
      attemptCount := e.attemptCount
      createdAtUs := e.createdAtUs
      lastAttemptAtUs := nowUs
      nextRetryAtUs := e.nextRetryAtUs
      lastError := e.lastError
      payloadLen := e.payloadLen
      payloadOff := e.destinationLen.toNat })

/-- `op_claim_next`. -/
def nvsOpClaimNext (nowUs : Int64) : NvsM ClaimReply := do
  let ctx ← Prog.read
  match selectClaim nowUs (ctx.index.map (·.toEntryMeta)) with
  | none => .fail .notFound
  | some best => do
      let e ← nvsEntryAt best
      match ← (readAndVerify cfg e.slot).attempt with
      | .error .storageCorrupt =>
          nvsAssignEntry best fun e =>
            { e with
              lastError := EspErr.storageCorrupt.code
              state := FlashqState.deadLetter.code }
          discardSlot e.slot
          pure (.corrupt e.id)
      | .error err => .fail err
      | .ok hdr => nvsClaimIntact cfg nowUs best hdr

/-- `op_mark_delivered`. -/
def nvsOpMarkDelivered (id : UInt64) : NvsM Unit := do
  let ctx ← Prog.read
  match nvsFindEntry ctx.index id with
  | none => .fail .notFound
  | some pos => do
      let e ← nvsEntryAt pos
      if ← nvsEraseKey (slotKey e.slot) then
        if ← nvsCommit then nvsRemoveEntryAt pos else .fail .storage
      else .fail .storage

/-- `op_schedule_retry`. -/
def nvsOpScheduleRetry (id : UInt64) (nextRetryTimeUs : Int64) (deadLetter : Bool)
    (lastError : Int32) : NvsM Unit := do
  let ctx ← Prog.read
  match nvsFindEntry ctx.index id with
  | none => .fail .notFound
  | some pos => do
      let e ← nvsEntryAt pos
      let hdr ← readAndVerify cfg e.slot
      let ctx ← Prog.read
      let destination := destinationOf ctx.scratch hdrSize hdr.destinationLen.toNat
      nvsAssignEntry pos fun e =>
        { e with
          state := (if deadLetter then FlashqState.deadLetter else FlashqState.pending).code
          nextRetryAtUs := if deadLetter then 0 else nextRetryTimeUs
          lastError := lastError }
      let e ← nvsEntryAt pos
      writeEntry cfg e destination (.slice (hdrSize + hdr.destinationLen.toNat))

/-- `op_remove`. -/
def nvsOpRemove (id : UInt64) : NvsM Unit := nvsOpMarkDelivered id

/-- `op_find_drop_candidate`. -/
def nvsOpFindDropCandidate (policy : OverflowPolicy) : NvsM UInt64 := do
  let ctx ← Prog.read
  match selectDrop policy (ctx.index.map (·.toEntryMeta)) with
  | none => .fail .notFound
  | some best => do
      let e ← nvsEntryAt best
      pure e.id

/-- `op_get_stats`, added to `stats`. -/
def nvsOpGetStats (stats : EdgesyncStats) : NvsM EdgesyncStats := do
  let ctx ← Prog.read
  let stats := (ctx.index.map (·.toEntryMeta)).foldl EdgesyncStats.count stats
  let stats := { stats with queueCapacity := UInt32.ofNat cfg.indexCapacity }
  match ← nvsGetStats with
  | none => pure stats
  | some (total, used) =>
      pure { stats with storageBytesCapacity := total * 32, storageBytesUsed := used * 32 }

/-- `s_nvs_ops`. -/
def sNvsOps : StorageOps NvsM where
  recover := nvsOpRecover cfg
  enqueue := nvsOpEnqueue cfg
  claimNext := nvsOpClaimNext cfg
  markDelivered := nvsOpMarkDelivered
  scheduleRetry := nvsOpScheduleRetry cfg
  remove := nvsOpRemove
  findDropCandidate := nvsOpFindDropCandidate
  getStats := nvsOpGetStats cfg

end EdgeSync
