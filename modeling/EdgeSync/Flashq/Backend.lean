/-
  Flashq/Backend.lean --- the flash-queue backend (`edgesync_storage_flashq.c`).

  Every function of the source is a program over the partition, in the order of
  the source.  The volatile state is `FlashqCtx`; a pointer to an index entry is
  its position.  A function that returns an error code is a program that fails,
  and leaves behind whatever it had written to the context and to flash.
-/
import EdgeSync.Flashq.Context
import EdgeSync.Format.Codec

set_option autoImplicit false

namespace EdgeSync

open Foundation

variable (cfg : FlashqConfig)

/-! ## Small helpers -/

/-- `bytes_all_ff`. -/
def bytesAllFf (buf : Bytes) : Bool := buf.all (· == 0xFF)

/-- `region_header_read`: the header, and whether it is blank. -/
def regionHeaderRead (region : Fin 2) : FlashqM (RegionHdr × Bool) := do
  match ← espPartitionRead (cfg.regionOffset region) regionHdrSize with
  | none => .fail .storage
  | some raw => pure (RegionHdr.ofBytes raw, bytesAllFf raw)

/-- `partition_write_verify`. -/
def partitionWriteVerify (absOffset : Nat) (data : Bytes) : FlashqM Unit := do
  if ← espPartitionWrite absOffset data then
    match ← espPartitionRead absOffset data.length with
    | none => .fail .storage
    | some raw =>
        Prog.modify fun ctx => { ctx with verifyScratch := overlay ctx.verifyScratch 0 raw }
        let ctx ← Prog.read
        if ctx.verifyScratch.take data.length = data then pure () else .fail .storage
  else .fail .storage

/-- `erase_region`. -/
def eraseRegion (region : Fin 2) : FlashqM Unit := do
  if ← espPartitionEraseRange (cfg.regionOffset region) cfg.regionSize then pure ()
  else .fail .storage

/-- `ensure_region_erased`. -/
def ensureRegionErased (region : Fin 2) : FlashqM Unit := do
  match ← (regionHeaderRead cfg region).attempt with
  | .error _ => eraseRegion cfg region
  | .ok (_, blank) => if blank then pure () else eraseRegion cfg region

/-- `find_entry`: the position of the entry. -/
def findEntry (index : List FlashqIndexEntry) (id : UInt64) : Option Nat :=
  findPos (fun e => e.id == id) index

/-- `remove_entry_at`. -/
def removeEntryAt (pos : Nat) : FlashqM Unit :=
  Prog.modify fun ctx => { ctx with index := swapRemove ctx.index pos }

/-- `*e`, for `e = &ctx->index[pos]`; the source never goes past `index_count`. -/
def entryAt (pos : Nat) : FlashqM FlashqIndexEntry := do
  let ctx ← Prog.read
  match ctx.index[pos]? with
  | some e => pure e
  | none => .fail .notFound

/-- Assignments through `e = &ctx->index[pos]`. -/
def assignEntry (pos : Nat) (f : FlashqIndexEntry → FlashqIndexEntry) : FlashqM Unit :=
  Prog.modify fun ctx => { ctx with index := ctx.index.modify pos f }

/-- An encoder's result in `write_scratch`; the length is 0 when it refused. -/
def encodeToWriteScratch (encode : Bytes → Option (Bytes × Nat)) : FlashqM Nat := do
  let ctx ← Prog.read
  match encode ctx.writeScratch with
  | some (buf, len) =>
      Prog.modify fun ctx => { ctx with writeScratch := buf }
      pure len
  | none => pure 0

/-! ## Compaction -/

/-- One turn of the copy loop of `compact_locked`, for `e = &ctx->index[i]`: the
length of the copied record. -/
def copyEntry (source target : Fin 2) (newCursor : Nat) (seq : UInt32) (i : Nat)
    (e : FlashqIndexEntry) : FlashqM Nat := do
  let bodyLen := e.destinationLen.toNat + e.payloadLen.toNat
  match ← espPartitionRead (cfg.regionOffset source + e.messageOffset.toNat) (hdrSize + bodyLen) with
  | none => .fail .storage
  | some raw =>
      Prog.modify fun ctx => { ctx with verifyScratch := overlay ctx.verifyScratch 0 raw }
      let ctx ← Prog.read
      let destination := overlay (List.replicate (maxDestinationLen + 1) 0) 0
        (slice ctx.verifyScratch hdrSize e.destinationLen.toNat)
      let payload := slice ctx.verifyScratch (hdrSize + e.destinationLen.toNat) e.payloadLen.toNat
      match encodeMessageFull ctx.writeScratch cfg.scratchSize e.id destination e.priority e.state
          e.attemptCount e.createdAtUs e.lastAttemptAtUs e.nextRetryAtUs e.lastError
          (.bytes payload) e.payloadLen seq with
      | none => .fail .serialization
      | some (buf, encLen) =>
          Prog.modify fun ctx => { ctx with writeScratch := buf }
          partitionWriteVerify (cfg.regionOffset target + newCursor) (buf.take encLen)
          assignEntry i fun e => { e with messageOffset := UInt32.ofNat newCursor }
          pure encLen

/-- The copy loop of `compact_locked`, from index position `i` on; `entries` are
the entries from there on, which the loop has not touched yet. -/
def copyLoop (source target : Fin 2) : List FlashqIndexEntry → Nat → Nat → UInt32 →
    FlashqM (Nat × UInt32)
  | [], _, newCursor, seq => pure (newCursor, seq)
  | e :: entries, i, newCursor, seq => do
      let encLen ← copyEntry cfg source target newCursor seq i e
      copyLoop source target entries (i + 1) (newCursor + encLen) (seq + 1)

/-- `compact_locked` from the status flips to the erasure of the old region. -/
def commitTarget (source target : Fin 2) : FlashqM Unit := do
  partitionWriteVerify (cfg.regionOffset target + statusOffset) [statusActive]
  -- both are best effort: the old region is already superseded
  let _ ← (partitionWriteVerify (cfg.regionOffset source + statusOffset) [statusStale]).attempt
  let _ ← (ensureRegionErased cfg source).attempt

/-- `compact_locked`. -/
def compactLocked : FlashqM Unit := do
  let ctx ← Prog.read
  let target := 1 - ctx.activeRegion
  let source := ctx.activeRegion
  ensureRegionErased cfg target
  let newGeneration := ctx.activeGeneration + 1
  partitionWriteVerify (cfg.regionOffset target)
    (RegionHdr.toBytes ⟨hdrMagic, newGeneration, statusCompacting⟩)
  let (newCursor, seq) ← copyLoop cfg source target ctx.index 0 dataStart ctx.nextSeq
  let endLen ← encodeToWriteScratch fun buf => encodeEnd buf cfg.scratchSize seq
  let ctx ← Prog.read
  partitionWriteVerify (cfg.regionOffset target + newCursor) (ctx.writeScratch.take endLen)
  let newCursor := newCursor + endLen
  let seq := seq + 1
  commitTarget cfg source target
  Prog.modify fun ctx =>
    { ctx with
      activeRegion := target
      activeGeneration := newGeneration
      cursor := newCursor
      nextSeq := seq
      compactionsTotal := ctx.compactionsTotal + 1
      updatesSinceCompaction := 0
      awaitingGcCount := 0 }

/-! ## The append path -/

/-- `free_bytes`. -/
def FlashqCtx.freeBytes (ctx : FlashqCtx) : Nat := cfg.dataCapacity - (ctx.cursor - dataStart)

/-- `low_space || too_churned`. -/
def FlashqCtx.WantsCompaction (ctx : FlashqCtx) (neededLen : Nat) : Prop :=
  ctx.freeBytes cfg < neededLen + reserveBytes ∨
  UInt32.ofNat (cfg.indexCapacity * 4 + 16) < ctx.updatesSinceCompaction

instance (ctx : FlashqCtx) (neededLen : Nat) : Decidable (ctx.WantsCompaction cfg neededLen) :=
  inferInstanceAs (Decidable (_ ∨ _))

/-- `ensure_space_locked`. -/
def ensureSpaceLocked (neededLen : Nat) : FlashqM Unit := do
  let ctx ← Prog.read
  if ctx.WantsCompaction cfg neededLen then compactLocked cfg
  let ctx ← Prog.read
  if ctx.freeBytes cfg < neededLen then .fail .storage

/-- `append_locked`. -/
def appendLocked (buf : Bytes) (len : Nat) : FlashqM Unit := do
  let ctx ← Prog.read
  partitionWriteVerify (cfg.regionOffset ctx.activeRegion + ctx.cursor) (buf.take len)
  Prog.modify fun ctx => { ctx with cursor := ctx.cursor + len, nextSeq := ctx.nextSeq + 1 }

/-- `append_state_update_locked`, for `e = &ctx->index[pos]`. -/
def appendStateUpdateLocked (pos : Nat) (newState : FlashqState) : FlashqM Unit := do
  ensureSpaceLocked cfg updateSize
  let e ← entryAt pos
  let ctx ← Prog.read
  let len ← encodeToWriteScratch fun buf =>
    encodeUpdate buf cfg.scratchSize e.id newState.code e.attemptCount e.lastAttemptAtUs
      e.nextRetryAtUs e.lastError ctx.nextSeq
  let ctx ← Prog.read
  appendLocked cfg ctx.writeScratch len
  assignEntry pos fun e => { e with state := newState.code }
  Prog.modify fun ctx => { ctx with updatesSinceCompaction := ctx.updatesSinceCompaction + 1 }

/-! ## Recovery -/

/-- The index entry the scan makes of a MESSAGE record at `off`. -/
def RecordHdr.indexEntry (hdr : RecordHdr) (off : Nat) : FlashqIndexEntry where
  id := hdr.messageId
  state := hdr.state
  priority := hdr.priority
  destinationLen := hdr.destinationLen
  attemptCount := hdr.attemptCount
  payloadLen := hdr.bodyLen
  messageOffset := UInt32.ofNat off
  createdAtUs := hdr.createdAtUs
  lastAttemptAtUs := hdr.lastAttemptAtUs
  nextRetryAtUs := hdr.nextRetryAtUs
  lastError := hdr.lastError

/-- What the scan makes of an entry when it meets an UPDATE record for it. -/
def RecordHdr.updateEntry (hdr : RecordHdr) (e : FlashqIndexEntry) : FlashqIndexEntry :=
  { e with
    state := hdr.state
    attemptCount := hdr.attemptCount
    lastAttemptAtUs := hdr.lastAttemptAtUs
    nextRetryAtUs := hdr.nextRetryAtUs
    lastError := hdr.lastError }

/-- The state of the scan loop: what it builds in the context. -/
structure Replay where
  index : List FlashqIndexEntry
  awaitingGcCount : UInt32
  deriving DecidableEq, Repr

/-- One turn of the scan loop, for the record at `off`. -/
def Replay.apply (cfg : FlashqConfig) (r : Replay) (off : Nat) (hdr : RecordHdr) : Replay :=
  if hdr.type = RecordType.message.code then
    if cfg.indexCapacity ≤ r.index.length then r
    else { r with index := r.index ++ [hdr.indexEntry off] }
  else if hdr.type = RecordType.update.code then
    match findEntry r.index hdr.messageId with
    | none => r
    | some pos =>
        let index := r.index.modify pos hdr.updateEntry
        if hdr.state = FlashqState.delivered.code ∨ hdr.state = FlashqState.removed.code then
          ⟨swapRemove index pos, r.awaitingGcCount + 1⟩
        else { r with index }
  else r

/-- The scan loop of `scan_region`: where it stops, and `max_seq_seen`.  Every
turn advances by a record, so `fuel` is never used up before the region is. -/
def scanLoop (region : Fin 2) : Nat → Nat → UInt32 → FlashqM (Nat × UInt32)
  | 0, off, maxSeqSeen => pure (off, maxSeqSeen)
  | fuel + 1, off, maxSeqSeen =>
      if off + hdrSize ≤ cfg.regionSize then do
        match ← espPartitionRead (cfg.regionOffset region + off) hdrSize with
        | none => pure (off, maxSeqSeen)
        | some hdrBuf =>
            match decodeHeader hdrBuf hdrSize with
            | none => pure (off, maxSeqSeen)
            | some hdr =>
                if cfg.regionSize < off + (hdrSize + hdr.bodyBytes + 4) then
                  pure (off, maxSeqSeen)
                else
                  match ← espPartitionRead (cfg.regionOffset region + off + hdrSize)
                      (hdr.bodyBytes + 4) with
                  | none => pure (off, maxSeqSeen)
                  | some body => do
                      Prog.modify fun ctx =>
                        { ctx with verifyScratch := overlay ctx.verifyScratch 0 body }
                      let ctx ← Prog.read
                      if verifyBody hdr ctx.verifyScratch (hdr.bodyBytes + 4) then
                        Prog.modify fun ctx =>
                          let r := Replay.apply cfg ⟨ctx.index, ctx.awaitingGcCount⟩ off hdr
                          { ctx with index := r.index, awaitingGcCount := r.awaitingGcCount }
                        scanLoop region fuel (off + round4 (hdrSize + hdr.bodyBytes + 4))
                          (if maxSeqSeen < hdr.seq then hdr.seq else maxSeqSeen)
                      else pure (off, maxSeqSeen)
      else pure (off, maxSeqSeen)

/-- `scan_region` up to the requeue loop. -/
def scanLog (region : Fin 2) (generation : UInt32) : FlashqM Unit := do
  Prog.modify fun ctx =>
    { ctx with
      activeRegion := region
      activeGeneration := generation
      index := []
      awaitingGcCount := 0 }
  let (off, maxSeqSeen) ← scanLoop cfg region cfg.regionSize dataStart 0
  Prog.modify fun ctx => { ctx with cursor := off, nextSeq := maxSeqSeen + 1 }

/-- The requeue loop of `scan_region`: the next `n` positions from `i` on. -/
def requeueLoop : Nat → Nat → FlashqM Unit
  | 0, _ => pure ()
  | n + 1, i => do
      let e ← entryAt i
      if e.state = FlashqState.inFlight.code then
        assignEntry i fun e => { e with nextRetryAtUs := 0 }
        appendStateUpdateLocked cfg i .pending
      requeueLoop n (i + 1)

/-- `scan_region`. -/
def scanRegion (region : Fin 2) (generation : UInt32) : FlashqM Unit := do
  scanLog cfg region generation
  let ctx ← Prog.read
  requeueLoop cfg ctx.index.length 0

/-! ## Storage operations -/

/-- The statuses `op_recover` knows. -/
def knownStatus (status : UInt8) : Bool :=
  status == statusActive || status == statusCompacting || status == statusStale

/-- `hdrs[i]` and `valid[i]`. -/
def readRegionHeader (region : Fin 2) : FlashqM (RegionHdr × Bool) := do
  match ← (regionHeaderRead cfg region).attempt with
  | .error _ => pure (⟨0, 0, 0⟩, false)
  | .ok (hdr, blank) => pure (hdr, !blank && hdr.magic == hdrMagic && knownStatus hdr.status)

/-- `chosen`; nothing stands for `-1`. -/
def chooseRegion (h0 : RegionHdr) (valid0 : Bool) (h1 : RegionHdr) (valid1 : Bool) :
    Option (Fin 2) :=
  let active0 := valid0 && h0.status == statusActive
  let active1 := valid1 && h1.status == statusActive
  if active0 && active1 then if h1.generation ≤ h0.generation then some 0 else some 1
  else if active0 then some 0
  else if active1 then some 1
  else none

/-- The branch of `op_recover` that initializes the partition. -/
def reinitialize : FlashqM Unit := do
  eraseRegion cfg 0
  eraseRegion cfg 1
  partitionWriteVerify (cfg.regionOffset 0) (RegionHdr.toBytes ⟨hdrMagic, 1, statusActive⟩)
  Prog.modify fun ctx =>
    { ctx with
      index := []
      cursor := dataStart
      nextSeq := 1
      activeRegion := 0
      activeGeneration := 1
      awaitingGcCount := 0
      compactionsTotal := 0 }

/-- `op_recover`, with `scan` for `scan_region`. -/
def recoverWith (scan : Fin 2 → UInt32 → FlashqM Unit) : FlashqM Unit := do
  let (h0, valid0) ← readRegionHeader cfg 0
  let (h1, valid1) ← readRegionHeader cfg 1
  match chooseRegion h0 valid0 h1 valid1 with
  | none => reinitialize cfg
  | some chosen => do
      ensureRegionErased cfg (1 - chosen)
      scan chosen (if chosen = 0 then h0.generation else h1.generation)

/-- `op_recover`. -/
def opRecover : FlashqM Unit := recoverWith cfg (scanRegion cfg)

/-- `op_enqueue`. -/
def opEnqueue (message : EdgesyncMessage) : FlashqM Unit := do
  let ctx ← Prog.read
  if cfg.indexCapacity ≤ ctx.index.length then .fail .queueFull
  else
    match encodeMessage ctx.writeScratch cfg.scratchSize message ctx.nextSeq with
    | none => .fail .serialization
    | some (buf, encLen) =>
        Prog.modify fun ctx => { ctx with writeScratch := buf }
        ensureSpaceLocked cfg encLen
        -- the compaction may have moved `next_seq` on: encode again
        let ctx ← Prog.read
        match encodeMessage ctx.writeScratch cfg.scratchSize message ctx.nextSeq with
        | none => .fail .serialization
        | some (buf, encLen) =>
            Prog.modify fun ctx => { ctx with writeScratch := buf }
            let offset := ctx.cursor
            appendLocked cfg buf encLen
            Prog.modify fun ctx =>
              { ctx with
                index := ctx.index ++
                  [{ id := message.id
                     state := FlashqState.pending.code
                     priority := message.priority
                     destinationLen := UInt16.ofNat (strlen message.destination)
                     attemptCount := 0
                     payloadLen := message.payloadLen
                     messageOffset := UInt32.ofNat offset
                     createdAtUs := message.createdAtUs
                     lastAttemptAtUs := 0
                     nextRetryAtUs := 0
                     lastError := 0 }] }

/-- The checks of `op_claim_next` on the record in the claim buffer. -/
def recordIntact (claimScratch : Bytes) (readLen : Nat) : Bool :=
  match decodeHeader claimScratch readLen with
  | none => false
  | some hdr => verifyBody hdr (claimScratch.drop hdrSize) (readLen - hdrSize)

/-- `op_claim_next` once the message is known to be intact. -/
def claimIntact (nowUs : Int64) (best : Nat) : FlashqM ClaimReply := do
  let e ← entryAt best
  let newAttemptCount := e.attemptCount + 1
  ensureSpaceLocked cfg updateSize
  let e ← entryAt best
  let ctx ← Prog.read
  let updLen ← encodeToWriteScratch fun buf =>
    encodeUpdate buf cfg.scratchSize e.id FlashqState.inFlight.code newAttemptCount nowUs
      e.nextRetryAtUs e.lastError ctx.nextSeq
  let ctx ← Prog.read
  appendLocked cfg ctx.writeScratch updLen
  assignEntry best fun e =>
    { e with
      state := FlashqState.inFlight.code
      attemptCount := newAttemptCount
      lastAttemptAtUs := nowUs }
  Prog.modify fun ctx => { ctx with updatesSinceCompaction := ctx.updatesSinceCompaction + 1 }
  let ctx ← Prog.read
  pure (.claimed
    { id := e.id
      destination := slice ctx.claimScratch hdrSize e.destinationLen.toNat
      priority := e.priority
      state := .inFlight
      attemptCount := newAttemptCount
      createdAtUs := e.createdAtUs
      lastAttemptAtUs := nowUs
      nextRetryAtUs := e.nextRetryAtUs
      lastError := e.lastError
      payloadLen := e.payloadLen
      payloadOff := hdrSize + e.destinationLen.toNat })

/-- `op_claim_next`. -/
def opClaimNext (nowUs : Int64) : FlashqM ClaimReply := do
  let ctx ← Prog.read
  match selectClaim nowUs (ctx.index.map (·.toEntryMeta)) with
  | none => .fail .notFound
  | some best => do
      let e ← entryAt best
      let readLen := hdrSize + (e.destinationLen.toNat + e.payloadLen.toNat) + 4
      let absOff := cfg.regionOffset ctx.activeRegion + e.messageOffset.toNat
      let raw ← espPartitionRead absOff readLen
      Prog.modify fun ctx =>
        { ctx with claimScratch := overlay ctx.claimScratch 0 (raw.getD []) }
      let ctx ← Prog.read
      if raw.isNone || !recordIntact ctx.claimScratch readLen then
        assignEntry best fun e => { e with lastError := EspErr.storageCorrupt.code }
        appendStateUpdateLocked cfg best .deadLetter
        pure (.corrupt e.id)
      else claimIntact cfg nowUs best

/-- The common text of `op_mark_delivered` and `op_remove`. -/
def retireEntry (id : UInt64) (newState : FlashqState) : FlashqM Unit := do
  let ctx ← Prog.read
  match findEntry ctx.index id with
  | none => .fail .notFound
  | some pos => do
      appendStateUpdateLocked cfg pos newState
      removeEntryAt pos
      Prog.modify fun ctx => { ctx with awaitingGcCount := ctx.awaitingGcCount + 1 }

/-- `op_mark_delivered`. -/
def opMarkDelivered (id : UInt64) : FlashqM Unit := retireEntry cfg id .delivered

/-- `op_remove`. -/
def opRemove (id : UInt64) : FlashqM Unit := retireEntry cfg id .removed

/-- `op_schedule_retry`. -/
def opScheduleRetry (id : UInt64) (nextRetryTimeUs : Int64) (deadLetter : Bool)
    (lastError : Int32) : FlashqM Unit := do
  let ctx ← Prog.read
  match findEntry ctx.index id with
  | none => .fail .notFound
  | some pos => do
      assignEntry pos fun e =>
        { e with
          nextRetryAtUs := if deadLetter then 0 else nextRetryTimeUs
          lastError := lastError }
      appendStateUpdateLocked cfg pos (if deadLetter then .deadLetter else .pending)

/-- `op_find_drop_candidate`. -/
def opFindDropCandidate (policy : OverflowPolicy) : FlashqM UInt64 := do
  let ctx ← Prog.read
  match selectDrop policy (ctx.index.map (·.toEntryMeta)) with
  | none => .fail .notFound
  | some best => do
      let e ← entryAt best
      pure e.id

/-- `op_get_stats`, added to `stats`. -/
def opGetStats (stats : EdgesyncStats) : FlashqM EdgesyncStats := do
  let ctx ← Prog.read
  let stats := (ctx.index.map (·.toEntryMeta)).foldl EdgesyncStats.count stats
  pure
    { stats with
      deliveredAwaitingGc := ctx.awaitingGcCount
      queueCapacity := UInt32.ofNat cfg.indexCapacity
      storageBytesUsed := UInt32.ofNat (ctx.cursor - dataStart)
      storageBytesCapacity := UInt32.ofNat cfg.dataCapacity
      compactionsTotal := ctx.compactionsTotal }

/-- `s_flashq_ops`. -/
def sFlashqOps : StorageOps FlashqM where
  recover := opRecover cfg
  enqueue := opEnqueue cfg
  claimNext := opClaimNext cfg
  markDelivered := opMarkDelivered cfg
  scheduleRetry := opScheduleRetry cfg
  remove := opRemove cfg
  findDropCandidate := opFindDropCandidate
  getStats := opGetStats cfg

end EdgeSync
