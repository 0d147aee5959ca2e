/-
  Flashq/Scratch.lean --- what is read into the scratch buffers of the flash queue.

  The buffers have room for the largest record of the present configuration.  The scan reads
  a body into one of them by the length in the record header, and compaction and
  `op_claim_next` read by the lengths of the index entry the scan made of it.
-/
import EdgeSync.Backends
import EdgeSync.Flashq.Quiet
import EdgeSync.Flashq.Scan

set_option autoImplicit false

namespace EdgeSync

open Foundation

variable (cfg : FlashqConfig)

/-! ## What fits -/

/-- The record of the entry fits a scratch buffer, and its destination the array in
`compact_locked`. -/
structure EntryMeta.FitsScratch (x : EntryMeta) : Prop where
  destination : x.destinationLen.toNat ≤ maxDestinationLen + 1
  record : hdrSize + (x.destinationLen.toNat + x.payloadLen.toNat) + 4 ≤ cfg.scratchSize

/-- All entries of the index fit. -/
def Fitting (ctx : FlashqCtx) : Prop := ∀ e ∈ ctx.index, e.FitsScratch cfg

/-- A read is at most as long as a scratch buffer. -/
def ReadFits : FlashCall → Prop
  | .read _ len => len ≤ cfg.scratchSize
  | _ => True

variable {cfg}

theorem le_scratchSize {n : Nat} (h : n ≤ 129) : n ≤ cfg.scratchSize := by
  have := le_round4 (hdrSize + (UInt16.ofNat maxDestinationLen).toNat + cfg.maxMessageSize.toNat + 4)
  rw [← recordTotalSize] at this
  have hdest : (UInt16.ofNat maxDestinationLen).toNat = 63 := by decide
  rw [FlashqConfig.scratchSize]
  simp only [hdest, hdrSize] at this
  omega

/-- An encoder writes no more than the buffer holds. -/
theorem encodeCommon_le {buf : Bytes} {bufCap : Nat} {hdr : RecordHdr} {destination : Bytes}
    {dl : UInt16} {body : Body} {bl : UInt32} {out : Bytes × Nat}
    (h : encodeCommon buf bufCap hdr destination dl body bl = some out) :
    out.2 = recordTotalSize dl bl ∧ out.2 ≤ bufCap := by
  by_cases hcap : bufCap < recordTotalSize dl bl
  · rw [encodeCommon_none hcap] at h
    cases h
  · rw [encodeCommon, encodeCommonInto] at h
    simp only [if_neg hcap] at h
    rw [← Option.some.inj h]
    exact ⟨rfl, Nat.le_of_not_lt hcap⟩

theorem encodeMessageFull_le {buf : Bytes} {bufCap : Nat} {id : UInt64} {destination : Bytes}
    {priority state : UInt8} {attemptCount : UInt32}
    {createdAtUs lastAttemptAtUs nextRetryAtUs : Int64} {lastError : Int32} {payload : Body}
    {payloadLen seq : UInt32} {out : Bytes × Nat}
    (h : encodeMessageFull buf bufCap id destination priority state attemptCount createdAtUs
      lastAttemptAtUs nextRetryAtUs lastError payload payloadLen seq = some out) :
    strlen destination ≤ maxDestinationLen ∧
      out.2 = recordTotalSize (UInt16.ofNat (strlen destination)) payloadLen ∧ out.2 ≤ bufCap := by
  rw [encodeMessageFull, encodeMessageFullInto] at h
  simp only [] at h
  split at h
  case isTrue => cases h
  case isFalse hdest => exact ⟨Nat.le_of_not_lt hdest, encodeCommon_le h⟩

/-! ## The programs -/

variable (cfg) in
/-- A program that keeps the entries fitting, and whose reads fit. -/
abbrev Careful {α : Type} (Q : α → Prop) (x : FlashqM α) : Prop :=
  Audited (Fitting cfg) (ReadFits cfg) Q x

section Programs

variable {region source target : Fin 2} {pos : Nat}

theorem careful_espPartitionRead {addr len : Nat} (h : len ≤ cfg.scratchSize) :
    Careful cfg (fun _ => True) (espPartitionRead addr len) :=
  Audited.ask (c := FlashCall.read addr len) h

theorem careful_espPartitionWrite {addr : Nat} {data : Bytes} :
    Careful cfg (fun _ => True) (espPartitionWrite addr data) :=
  Audited.ask (c := FlashCall.write addr data) trivial

theorem careful_regionHeaderRead :
    Careful cfg (fun _ => True) (regionHeaderRead cfg region) := by
  have hlen : regionHdrSize ≤ cfg.scratchSize := le_scratchSize (by decide)
  refine Audited.bind (careful_espPartitionRead hlen) fun raw _ => ?_
  cases raw with
  | none => exact Audited.fail _
  | some raw => exact Audited.ret trivial

theorem careful_partitionWriteVerify {absOffset : Nat} {data : Bytes}
    (h : data.length ≤ cfg.scratchSize) :
    Careful cfg (fun _ => True) (partitionWriteVerify absOffset data) := by
  refine Audited.bind careful_espPartitionWrite fun ok _ => ?_
  refine Audited.ite (fun _ => ?_) fun _ => Audited.fail _
  refine Audited.bind (careful_espPartitionRead h) fun raw _ => ?_
  cases raw with
  | none => exact Audited.fail _
  | some raw =>
    refine Audited.bind (Audited.modify fun _ hc => hc) fun _ _ => ?_
    refine Audited.bind Audited.read fun ctx _ => ?_
    exact Audited.ite (fun _ => Audited.ret trivial) fun _ => Audited.fail _

theorem careful_eraseRegion : Careful cfg (fun _ => True) (eraseRegion cfg region) := by
  have hcall : Careful cfg (fun _ => True)
      (espPartitionEraseRange (cfg.regionOffset region) cfg.regionSize) :=
    Audited.ask (c := FlashCall.erase _ _) trivial
  exact Audited.bind hcall fun _ _ =>
    Audited.ite (fun _ => Audited.ret trivial) fun _ => Audited.fail _

theorem careful_ensureRegionErased :
    Careful cfg (fun _ => True) (ensureRegionErased cfg region) := by
  refine Audited.bind careful_regionHeaderRead.attempt fun res _ => ?_
  rcases res with err | ⟨hdr, blank⟩
  · exact careful_eraseRegion
  · exact Audited.ite (fun _ => Audited.ret trivial) fun _ => careful_eraseRegion

theorem careful_entryAt :
    Careful cfg (fun e => e.FitsScratch cfg) (entryAt pos) := by
  refine Audited.bind Audited.read fun ctx hctx => ?_
  split
  · rename_i e he
    exact Audited.ret (hctx e (List.mem_of_getElem? he))
  · exact Audited.fail _

/-- Assigning other fields of an entry. -/
theorem careful_assignEntry {f : FlashqIndexEntry → FlashqIndexEntry}
    (hf : ∀ e, (f e).destinationLen = e.destinationLen ∧ (f e).payloadLen = e.payloadLen) :
    Careful cfg (fun _ => True) (assignEntry pos f) := by
  refine Audited.modify fun ctx hctx e he => ?_
  rcases mem_of_mem_modify he with he | ⟨b, hb, rfl⟩
  · exact hctx e he
  · obtain ⟨hdest, hrec⟩ := hctx b (List.mem_of_getElem? hb)
    exact ⟨by rw [(hf b).1]; exact hdest, by rw [(hf b).1, (hf b).2]; exact hrec⟩

theorem careful_encodeToWriteScratch {encode : Bytes → Option (Bytes × Nat)}
    (h : ∀ buf out, encode buf = some out → out.2 ≤ cfg.scratchSize) :
    Careful cfg (fun len => len ≤ cfg.scratchSize) (encodeToWriteScratch encode) := by
  refine Audited.bind Audited.read fun ctx _ => ?_
  split
  · rename_i buf len henc
    exact Audited.bind (Audited.modify fun _ hc => hc) fun _ _ => Audited.ret (h _ _ henc)
  · exact Audited.ret (Nat.zero_le _)

theorem length_take_le {buf : Bytes} {n k : Nat} (h : n ≤ k) : (buf.take n).length ≤ k := by
  rw [List.length_take]
  omega

theorem careful_copyEntry {newCursor : Nat} {seq : UInt32} {i : Nat} {e : FlashqIndexEntry}
    (he : e.FitsScratch cfg) :
    Careful cfg (fun _ => True) (copyEntry cfg source target newCursor seq i e) := by
  have hread : hdrSize + (e.destinationLen.toNat + e.payloadLen.toNat) ≤ cfg.scratchSize :=
    Nat.le_of_add_right_le he.record
  refine Audited.bind (careful_espPartitionRead hread) fun raw _ => ?_
  cases raw with
  | none => exact Audited.fail _
  | some raw =>
    refine Audited.bind (Audited.modify fun _ hc => hc) fun _ _ => ?_
    refine Audited.bind Audited.read fun ctx _ => ?_
    simp only []
    split
    · exact Audited.fail _
    · rename_i buf encLen henc
      refine Audited.bind (Audited.modify fun _ hc => hc) fun _ _ => ?_
      refine Audited.bind (careful_partitionWriteVerify
        (length_take_le (encodeMessageFull_le henc).2.2)) fun _ _ => ?_
      refine Audited.bind (careful_assignEntry fun _ => ?_) fun _ _ => Audited.ret trivial
      exact ⟨rfl, rfl⟩

theorem careful_copyLoop {entries : List FlashqIndexEntry} (h : ∀ e ∈ entries, e.FitsScratch cfg)
    (i newCursor : Nat) (seq : UInt32) :
    Careful cfg (fun _ => True) (copyLoop cfg source target entries i newCursor seq) := by
  induction entries generalizing i newCursor seq with
  | nil => exact Audited.ret trivial
  | cons e entries ih =>
    refine Audited.bind (careful_copyEntry (h e List.mem_cons_self)) fun _ _ => ?_
    exact ih (fun f hf => h f (List.mem_cons_of_mem _ hf)) _ _ _

theorem careful_commitTarget :
    Careful cfg (fun _ => True) (commitTarget cfg source target) :=
  have hstatus : ∀ status : UInt8, [status].length ≤ cfg.scratchSize := fun _ =>
    le_scratchSize (Nat.le_add_left 1 128)
  Audited.bind (careful_partitionWriteVerify (hstatus _)) fun _ _ =>
    Audited.bind (careful_partitionWriteVerify (hstatus _)).attempt fun _ _ =>
      Audited.bind careful_ensureRegionErased.attempt fun _ _ => Audited.ret trivial

theorem encodeEnd_le {buf : Bytes} {bufCap : Nat} {seq : UInt32} {out : Bytes × Nat}
    (h : encodeEnd buf bufCap seq = some out) : out.2 ≤ bufCap := (encodeCommon_le h).2

theorem encodeUpdate_le {buf : Bytes} {bufCap : Nat} {id : UInt64} {state : UInt8}
    {attemptCount : UInt32} {lastAttemptAtUs nextRetryAtUs : Int64} {lastError : Int32}
    {seq : UInt32} {out : Bytes × Nat}
    (h : encodeUpdate buf bufCap id state attemptCount lastAttemptAtUs nextRetryAtUs lastError seq =
      some out) : out.2 ≤ bufCap := (encodeCommon_le h).2

theorem careful_compactLocked : Careful cfg (fun _ => True) (compactLocked cfg) := by
  refine Audited.bind Audited.read fun ctx hctx => ?_
  refine Audited.bind careful_ensureRegionErased fun _ _ => ?_
  refine Audited.bind (careful_partitionWriteVerify (le_scratchSize (by
    simp only [RegionHdr.toBytes, List.length_append, length_leBytes]; decide))) fun _ _ => ?_
  refine Audited.bind (careful_copyLoop hctx _ _ _) fun copied _ => ?_
  refine Audited.bind (careful_encodeToWriteScratch fun _ _ => encodeEnd_le) fun endLen hend => ?_
  refine Audited.bind Audited.read fun _ _ => ?_
  refine Audited.bind (careful_partitionWriteVerify (length_take_le hend)) fun _ _ => ?_
  exact Audited.bind careful_commitTarget fun _ _ => Audited.modify fun _ hc => hc

theorem careful_ensureSpaceLocked {neededLen : Nat} :
    Careful cfg (fun _ => True) (ensureSpaceLocked cfg neededLen) := by
  unfold ensureSpaceLocked
  simp only [Prog.bind_eq, Prog.pure_eq]
  have hlast : Careful cfg (fun _ => True) ((Prog.read : FlashqM FlashqCtx).bind fun ctx =>
      if ctx.freeBytes cfg < neededLen then (Prog.fail EspErr.storage : FlashqM Unit)
      else Prog.ret ()) :=
    Audited.bind Audited.read fun _ _ =>
      Audited.ite (fun _ => Audited.fail _) fun _ => Audited.ret trivial
  refine Audited.bind Audited.read fun ctx _ => ?_
  refine Audited.ite (fun _ => ?_) fun _ => hlast
  exact Audited.bind careful_compactLocked fun _ _ => hlast

theorem careful_appendLocked {buf : Bytes} {len : Nat} (h : len ≤ cfg.scratchSize) :
    Careful cfg (fun _ => True) (appendLocked cfg buf len) :=
  Audited.bind Audited.read fun _ _ =>
    Audited.bind (careful_partitionWriteVerify (length_take_le h)) fun _ _ =>
      Audited.modify fun _ hc => hc

theorem careful_appendStateUpdateLocked {newState : FlashqState} :
    Careful cfg (fun _ => True) (appendStateUpdateLocked cfg pos newState) := by
  unfold appendStateUpdateLocked
  simp only [Prog.bind_eq]
  refine Audited.bind careful_ensureSpaceLocked fun _ _ => ?_
  refine Audited.bind careful_entryAt fun e _ => Audited.bind Audited.read fun ctx _ => ?_
  refine Audited.bind (careful_encodeToWriteScratch fun _ _ => encodeUpdate_le) fun len hlen => ?_
  refine Audited.bind Audited.read fun _ _ => ?_
  refine Audited.bind (careful_appendLocked hlen) fun _ _ => ?_
  refine Audited.bind (careful_assignEntry fun _ => ?_) fun _ _ => Audited.modify fun _ hc => hc
  exact ⟨rfl, rfl⟩

/-! ## The operations -/

theorem careful_opEnqueue {message : EdgesyncMessage} :
    Careful cfg (fun _ => True) (opEnqueue cfg message) := by
  unfold opEnqueue
  simp only [Prog.bind_eq]
  refine Audited.bind Audited.read fun ctx _ => ?_
  refine Audited.ite (fun _ => Audited.fail _) fun _ => ?_
  split
  · exact Audited.fail _
  refine Audited.bind (Audited.modify fun _ hc => hc) fun _ _ => ?_
  refine Audited.bind careful_ensureSpaceLocked fun _ _ => Audited.bind Audited.read fun ctx _ => ?_
  split
  · exact Audited.fail _
  · rename_i buf encLen henc
    obtain ⟨hdest, hlen, hle⟩ := encodeMessageFull_le henc
    refine Audited.bind (Audited.modify fun _ hc => hc) fun _ _ => ?_
    refine Audited.bind (careful_appendLocked hle) fun _ _ => Audited.modify fun c hc e he => ?_
    rcases List.mem_append.mp he with he | he
    · exact hc e he
    · rw [List.mem_singleton.mp he]
      have hdl := strlen_toNat hdest
      have hused := le_round4 (hdrSize + (UInt16.ofNat (strlen message.destination)).toNat +
        message.payloadLen.toNat + 4)
      rw [← recordTotalSize, ← hlen] at hused
      refine ⟨?_, ?_⟩
      · simp only [hdl]
        omega
      · simp only []
        omega

theorem careful_claimIntact {nowUs : Int64} {best : Nat} :
    Careful cfg (fun _ => True) (claimIntact cfg nowUs best) := by
  unfold claimIntact
  simp only [Prog.bind_eq, Prog.pure_eq]
  refine Audited.bind careful_entryAt fun e _ => ?_
  refine Audited.bind careful_ensureSpaceLocked fun _ _ => ?_
  refine Audited.bind careful_entryAt fun e _ => Audited.bind Audited.read fun ctx _ => ?_
  refine Audited.bind (careful_encodeToWriteScratch fun _ _ => encodeUpdate_le) fun len hlen => ?_
  refine Audited.bind Audited.read fun _ _ => ?_
  refine Audited.bind (careful_appendLocked hlen) fun _ _ => ?_
  refine Audited.bind (careful_assignEntry fun _ => ⟨rfl, rfl⟩) fun _ _ => ?_
  refine Audited.bind (Audited.modify fun _ hc => hc) fun _ _ => ?_
  exact Audited.bind Audited.read fun _ _ => Audited.ret trivial

theorem careful_opClaimNext {nowUs : Int64} :
    Careful cfg (fun _ => True) (opClaimNext cfg nowUs) := by
  unfold opClaimNext
  simp only [Prog.bind_eq, Prog.pure_eq]
  refine Audited.bind Audited.read fun ctx _ => ?_
  split
  · exact Audited.fail _
  refine Audited.bind careful_entryAt fun e he => ?_
  refine Audited.bind (careful_espPartitionRead he.record) fun raw _ => ?_
  refine Audited.bind (Audited.modify fun _ hc => hc) fun _ _ => ?_
  refine Audited.bind Audited.read fun _ _ => Audited.ite (fun _ => ?_) fun _ => careful_claimIntact
  refine Audited.bind (careful_assignEntry fun _ => ⟨rfl, rfl⟩) fun _ _ => ?_
  exact Audited.bind careful_appendStateUpdateLocked fun _ _ => Audited.ret trivial

theorem careful_retireEntry {id : UInt64} {newState : FlashqState} :
    Careful cfg (fun _ => True) (retireEntry cfg id newState) := by
  unfold retireEntry
  simp only [Prog.bind_eq]
  refine Audited.bind Audited.read fun ctx _ => ?_
  split
  · exact Audited.fail _
  refine Audited.bind careful_appendStateUpdateLocked fun _ _ => ?_
  refine Audited.bind (Audited.modify fun c hc e he => ?_) fun _ _ => Audited.modify fun _ hc => hc
  exact hc e (mem_of_mem_swapRemove he)

theorem careful_opScheduleRetry {id : UInt64} {nextRetryTimeUs : Int64} {deadLetter : Bool}
    {lastError : Int32} : Careful cfg (fun _ => True)
      (opScheduleRetry cfg id nextRetryTimeUs deadLetter lastError) := by
  unfold opScheduleRetry
  simp only [Prog.bind_eq]
  refine Audited.bind Audited.read fun ctx _ => ?_
  split
  · exact Audited.fail _
  refine Audited.bind (careful_assignEntry fun _ => ⟨rfl, rfl⟩) fun _ _ => ?_
  exact careful_appendStateUpdateLocked

/-- Every call. -/
theorem careful_flashqCall (op : StorageOp) :
    Careful cfg (fun _ => True) (flashqCall cfg op) := by
  unfold flashqCall
  cases op with
  | enqueue message => exact Audited.bind careful_opEnqueue fun _ _ => Audited.ret trivial
  | claimNext nowUs => exact Audited.bind careful_opClaimNext fun _ _ => Audited.ret trivial
  | markDelivered id => exact Audited.bind careful_retireEntry fun _ _ => Audited.ret trivial
  | remove id => exact Audited.bind careful_retireEntry fun _ _ => Audited.ret trivial
  | scheduleRetry id nextRetryTimeUs deadLetter lastError =>
    exact Audited.bind careful_opScheduleRetry fun _ _ => Audited.ret trivial
  | findDropCandidate policy =>
    refine Audited.bind (M := fun _ => True) (Audited.bind Audited.read fun ctx _ => ?_) fun _ _ =>
      Audited.ret trivial
    split
    · exact Audited.fail _
    · exact Audited.bind careful_entryAt fun _ _ => Audited.ret trivial
  | getStats stats =>
    exact Audited.bind (M := fun _ => True)
      (Audited.bind Audited.read fun _ _ => Audited.ret trivial) fun _ _ => Audited.ret trivial

theorem careful_requeueLoop (n i : Nat) :
    Careful cfg (fun _ => True) (requeueLoop cfg n i) := by
  induction n generalizing i with
  | zero => exact Audited.ret trivial
  | succ n ih =>
    unfold requeueLoop
    simp only [Prog.bind_eq]
    refine Audited.bind careful_entryAt fun e _ => Audited.ite (fun _ => ?_) fun _ => ih (i + 1)
    refine Audited.bind (careful_assignEntry fun _ => ⟨rfl, rfl⟩) fun _ _ => ?_
    exact Audited.bind careful_appendStateUpdateLocked fun _ _ => ih (i + 1)

theorem careful_readRegionHeader :
    Careful cfg (fun _ => True) (readRegionHeader cfg region) := by
  refine Audited.bind careful_regionHeaderRead.attempt fun res _ => ?_
  cases res with
  | error err => exact Audited.ret trivial
  | ok x => exact Audited.ret trivial

theorem careful_reinitialize : Careful cfg (fun _ => True) ( reinitialize cfg) := by
  refine Audited.bind careful_eraseRegion fun _ _ => Audited.bind careful_eraseRegion fun _ _ => ?_
  refine Audited.bind (careful_partitionWriteVerify (le_scratchSize (by
    simp only [RegionHdr.toBytes, List.length_append, length_leBytes]; decide))) fun _ _ => ?_
  exact Audited.modify fun _ _ e he => absurd he List.not_mem_nil

end Programs

/-! ## The scan -/

/-- The calls may fail, and the power may go during any of them. -/
def anyFault : Env FlashCall Memory FlashEvent := fun _ _ _ => True

variable (cfg) in
/-- The scan gets to the offset. -/
def Reached (v : Memory) (off : Nat) : Prop := ∃ recs, Log cfg v dataStart recs off

variable (cfg) in
/-- The scan gets to the header and finds its record inside the region. -/
structure Met (v : Memory) (off : Nat) (h : RecordHdr) : Prop where
  reached : Reached cfg v off
  decoded : decodeHeader (v.bytesAt off hdrSize) hdrSize = some h
  inside : off + h.usedSize ≤ cfg.regionSize

variable (cfg) in
/-- The bodies that the scan reads fit a scratch buffer. -/
def BodiesFit (v : Memory) : Prop := ∀ off h, Met cfg v off h → h.bodyBytes + 4 ≤ cfg.scratchSize

variable (cfg) in
/-- The content fits: the bodies that the scan reads, and the entries that it makes of the
records, wherever it stops. -/
structure ContentFits (v : Memory) : Prop where
  bodies : BodiesFit cfg v
  entries : ∀ recs stop, Log cfg v dataStart recs stop →
    ∀ e ∈ (replay cfg recs).index, e.FitsScratch cfg

/-- The index that the scan makes fits. -/
theorem ContentFits.fitting {v : Memory} (hv : ContentFits cfg v) {recs : List (Nat × RecordHdr)}
    {stop : Nat} (log : Log cfg v dataStart recs stop) {ctx : FlashqCtx}
    (hindex : ctx.index = (replay cfg recs).index) : Fitting cfg ctx := by
  intro e he
  rw [hindex] at he
  exact hv.entries recs stop log e he

section Scan

variable {env : Env FlashCall Memory FlashEvent} {ctx ctx' : FlashqCtx} {m m' : Memory}
  {region : Fin 2}

/-- What a read returns. -/
theorem runs_espPartitionRead {addr len : Nat} {raw : Option Bytes}
    (run : Runs cfg.device env (espPartitionRead addr len) ctx m (.ok raw ctx' m')) :
    ctx' = ctx ∧ m' = m ∧ (raw = none ∨ raw = some (m.bytesAt addr len)) :=
  wp_sound run (wp_anyRead
    (P := ⟨fun raw ctx' m' => ctx' = ctx ∧ m' = m ∧ (raw = none ∨ raw = some (m.bytesAt addr len)),
      fun _ _ _ => True, fun _ => True⟩) ⟨rfl, rfl, .inr rfl⟩ ⟨rfl, rfl, .inl rfl⟩ trivial)

theorem requests_espPartitionRead {addr len : Nat} {c : FlashCall}
    (h : Requests cfg.device env (espPartitionRead addr len) ctx m ctx' c) :
    ctx' = ctx ∧ c = .read addr len := by
  cases h with
  | here => exact ⟨rfl, rfl⟩
  | later _ _ rest => cases rest

variable (cfg) in
/-- A call of the scan loop at `stop`: it reads a header, or the body of the record there. -/
inductive ScanCall (v : Memory) (stop : Nat) : FlashCall → Prop where
  | header (addr : Nat) : ScanCall v stop (.read addr hdrSize)
  | body (addr : Nat) {h : RecordHdr} (met : Met cfg v stop h) :
      ScanCall v stop (.read addr (h.bodyBytes + 4))

/-- The calls of the scan loop, and the index at each of them. -/
theorem requests_scanLoop {recs : List (Nat × RecordHdr)} {off fuel : Nat} {seq : UInt32}
    {c : FlashCall} (log : Log cfg (view cfg m region) dataStart recs off)
    (hindex : (⟨ctx.index, ctx.awaitingGcCount⟩ : Replay) = replay cfg recs)
    (h : Requests cfg.device env (scanLoop cfg region fuel off seq) ctx m ctx' c) :
    ∃ recs' stop, Log cfg (view cfg m region) dataStart recs' stop ∧
      ctx'.index = (replay cfg recs').index ∧ ScanCall cfg (view cfg m region) stop c := by
  induction fuel generalizing recs off seq ctx with
  | zero => cases h
  | succ fuel ih =>
    unfold scanLoop at h
    simp only [Prog.bind_eq, Prog.pure_eq] at h
    split at h
    case isFalse => exact absurd h requests_ret
    rcases requests_bind.mp h with h | ⟨raw, _, _, run, h⟩
    · obtain ⟨rfl, rfl⟩ := requests_espPartitionRead h
      exact ⟨recs, off, log, congrArg Replay.index hindex, .header _⟩
    obtain ⟨hctx, hm, rfl | rfl⟩ := runs_espPartitionRead run
    · exact absurd h requests_ret
    rw [hctx, hm, bytesAt_region] at h
    simp only [] at h
    split at h
    case h_1 => exact absurd h requests_ret
    rename_i hdr hdec
    split at h
    case isTrue => exact absurd h requests_ret
    rename_i hroom
    have hmet : Met cfg (view cfg m region) off hdr := ⟨⟨recs, log⟩, hdec, Nat.le_of_not_lt hroom⟩
    rcases requests_bind.mp h with h | ⟨raw, _, _, run, h⟩
    · obtain ⟨rfl, rfl⟩ := requests_espPartitionRead h
      exact ⟨recs, off, log, congrArg Replay.index hindex, .body _ hmet⟩
    obtain ⟨hctx, hm, rfl | rfl⟩ := runs_espPartitionRead run
    · exact absurd h requests_ret
    rw [hctx, hm, bytesAt_region_add] at h
    simp only [requests_modify_bind, requests_read_bind,
      verifyBody_overlay (Memory.length_bytesAt _ _ _)] at h
    split at h
    case isFalse => exact absurd h requests_ret
    rename_i hver
    have haccept : acceptAt cfg (view cfg m region) off = some hdr :=
      acceptAt_eq_some.mpr ⟨hdec, hmet.inside, hver⟩
    have hnext : off + round4 (hdrSize + hdr.bodyBytes + 4) = off + hdr.totalSize := by
      rw [hdr.totalSize_eq]
      rfl
    rw [requests_modify_bind, hnext] at h
    have hreplay : (⟨ctx.index, ctx.awaitingGcCount⟩ : Replay).apply cfg off hdr =
        replay cfg (recs ++ [(off, hdr)]) := by
      rw [hindex, replay_snoc]
    exact ih (log.snoc haccept) hreplay h

/-- The calls of the scan. -/
theorem requests_scanLog {generation : UInt32} {c : FlashCall}
    (h : Requests cfg.device env (scanLog cfg region generation) ctx m ctx' c) :
    ∃ recs stop, Log cfg (view cfg m region) dataStart recs stop ∧
      ctx'.index = (replay cfg recs).index ∧ ScanCall cfg (view cfg m region) stop c := by
  unfold scanLog at h
  simp only [Prog.bind_eq, requests_modify_bind] at h
  rcases requests_bind.mp h with h | ⟨_, _, _, _, h⟩
  · exact requests_scanLoop (.nil _) rfl h
  · cases h with
    | look h =>
      cases h with
      | put h => cases h

/-- A call of the scan fits if the bodies do. -/
theorem ScanCall.fits {v : Memory} {stop : Nat} {c : FlashCall} (h : ScanCall cfg v stop c)
    (hv : BodiesFit cfg v) : ReadFits cfg c := by
  cases h with
  | header addr => exact le_scratchSize (by decide)
  | body addr met => exact hv _ _ met

theorem anyFault_read {addr len : Nat} (hfit : addr + len ≤ cfg.partitionSize.toNat)
    (ctx : FlashqCtx) : Runs cfg.device anyFault (espPartitionRead addr len) ctx m
      (.ok (some (m.bytesAt addr len)) ctx m) :=
  have hrespond : cfg.device.respond m (.read addr len) .run = .reply (some (m.bytesAt addr len)) m := by
    simp only [FlashqConfig.device, flashDevice, if_pos hfit]
  .reply trivial hrespond (.ret _ _ _)

theorem regionRead_le {off n : Nat} (hle : off + n ≤ cfg.regionSize) :
    cfg.regionOffset region + off + n ≤ cfg.partitionSize.toNat := by
  rw [Nat.add_assoc]
  exact cfg.regionOffset_add_le hle

/-- The loop reads the body of a record that is inside the region. -/
theorem scanLoop_reads_body {off : Nat} {h : RecordHdr}
    (hdec : decodeHeader ((view cfg m region).bytesAt off hdrSize) hdrSize = some h)
    (hin : off + h.usedSize ≤ cfg.regionSize) (fuel : Nat) (seq : UInt32) (ctx : FlashqCtx) :
    Requests cfg.device anyFault (scanLoop cfg region (fuel + 1) off seq) ctx m ctx
      (.read (cfg.regionOffset region + off + hdrSize) (h.bodyBytes + 4)) := by
  have hused : h.usedSize = hdrSize + h.bodyBytes + 4 := rfl
  rw [scanLoop, if_pos (by omega)]
  simp only [Prog.bind_eq, Prog.pure_eq]
  refine requests_bind.mpr (.inr ⟨_, ctx, m, anyFault_read (regionRead_le (by omega)) ctx, ?_⟩)
  rw [bytesAt_region]
  simp only [hdec]
  rw [if_neg (show ¬ cfg.regionSize < off + (hdrSize + h.bodyBytes + 4) by omega)]
  exact requests_bind.mpr (.inl .here)

/-- From an accepted record the loop goes on behind it. -/
theorem scanLoop_goes_on {off : Nat} {h : RecordHdr}
    (accepted : acceptAt cfg (view cfg m region) off = some h) (fuel : Nat) (seq : UInt32)
    (ctx : FlashqCtx) : ∃ ctx₂ seq₂, ∀ ctx' c,
      Requests cfg.device anyFault (scanLoop cfg region fuel (off + h.totalSize) seq₂) ctx₂ m ctx' c →
      Requests cfg.device anyFault (scanLoop cfg region (fuel + 1) off seq) ctx m ctx' c := by
  obtain ⟨hdec, hin, hver⟩ := acceptAt_eq_some.mp accepted
  have hused : h.usedSize = hdrSize + h.bodyBytes + 4 := rfl
  have hnext : off + round4 (hdrSize + h.bodyBytes + 4) = off + h.totalSize := by
    rw [h.totalSize_eq]
    rfl
  refine Exists.intro ?_ (Exists.intro ?_ fun ctx' c hrest => ?_)
  rotate_left 2
  · rw [scanLoop, if_pos (by omega)]
    simp only [Prog.bind_eq, Prog.pure_eq]
    refine requests_bind.mpr (.inr ⟨_, ctx, m, anyFault_read (regionRead_le (by omega)) ctx, ?_⟩)
    rw [bytesAt_region]
    simp only [hdec]
    rw [if_neg (show ¬ cfg.regionSize < off + (hdrSize + h.bodyBytes + 4) by omega)]
    refine requests_bind.mpr (.inr ⟨_, ctx, m, anyFault_read ?_ ctx, ?_⟩)
    · have := @regionRead_le cfg region off (hdrSize + (h.bodyBytes + 4)) (by omega)
      omega
    rw [bytesAt_region_add]
    simp only [requests_modify_bind, requests_read_bind,
      verifyBody_overlay (Memory.length_bytesAt _ _ _), hver, if_true, hnext]
    exact hrest

/-- The scan loop asks for the body of every record that it meets. -/
theorem scanLoop_requests {off stop : Nat} {recs : List (Nat × RecordHdr)} {h : RecordHdr}
    (log : Log cfg (view cfg m region) off recs stop)
    (hdec : decodeHeader ((view cfg m region).bytesAt stop hdrSize) hdrSize = some h)
    (hin : stop + h.usedSize ≤ cfg.regionSize) {fuel : Nat} (hfuel : recs.length < fuel)
    (seq : UInt32) (ctx : FlashqCtx) :
    ∃ ctx', Requests cfg.device anyFault (scanLoop cfg region fuel off seq) ctx m ctx'
      (.read (cfg.regionOffset region + stop + hdrSize) (h.bodyBytes + 4)) := by
  induction log generalizing fuel seq ctx with
  | nil off =>
    obtain ⟨fuel, rfl⟩ := Nat.exists_eq_add_of_lt hfuel
    exact ⟨ctx, scanLoop_reads_body hdec hin _ seq ctx⟩
  | cons accepted rest ih =>
    rename_i off stop h' recs
    obtain ⟨fuel, rfl⟩ := Nat.exists_eq_add_of_lt hfuel
    obtain ⟨ctx₂, seq₂, hstep⟩ := scanLoop_goes_on accepted (((off, h') :: recs).length + fuel) seq ctx
    have hless : recs.length < ((off, h') :: recs).length + fuel := by
      rw [List.length_cons]
      omega
    obtain ⟨ctx', hrest⟩ := ih hdec hin hless seq₂ ctx₂
    exact ⟨ctx', hstep ctx' _ hrest⟩

/-- Exactly if the bodies that it meets fit, the reads of the scan do. -/
theorem scanLog_reads_fit (cfg : FlashqConfig) (region : Fin 2) (generation : UInt32)
    (ctx : FlashqCtx) (m : Memory) :
    (∀ ctx' addr len, Requests cfg.device anyFault (scanLog cfg region generation) ctx m ctx'
      (.read addr len) → len ≤ cfg.scratchSize) ↔ BodiesFit cfg (view cfg m region) := by
  have hstart : dataStart ≤ cfg.regionSize := by
    have := cfg.dataCapacity_eq
    omega
  constructor
  · intro hreads off h hmet
    obtain ⟨recs, log⟩ := hmet.reached
    have hlen := log.length_le
    have hend := log.le_regionSize rfl hstart
    have hpos : 0 < dataStart := by decide
    obtain ⟨ctx', hreq⟩ := scanLoop_requests log hmet.decoded hmet.inside
      (show recs.length < cfg.regionSize by omega) 0
      { ctx with
        activeRegion := region
        activeGeneration := generation
        index := []
        awaitingGcCount := 0 }
    refine hreads ctx' (cfg.regionOffset region + off + hdrSize) _ ?_
    unfold scanLog
    simp only [Prog.bind_eq, requests_modify_bind]
    exact requests_bind.mpr (.inl hreq)
  · intro hbodies ctx' addr len hreq
    obtain ⟨_, _, _, _, hcall⟩ := requests_scanLog hreq
    exact hcall.fits hbodies

end Scan

/-! ## A restart -/

variable (cfg) in
/-- The content of every region that is marked ACTIVE fits. -/
def BootFits (m : Memory) : Prop := ∀ r, IsActive (view cfg m r) → ContentFits cfg (view cfg m r)

/-- Only the bytes of the region matter. -/
theorem ContentFits.congr {v w : Memory} (hv : ContentFits cfg v)
    (hvw : AgreeOn w v 0 cfg.regionSize) : ContentFits cfg w := by
  have hstart : dataStart ≤ cfg.regionSize := by
    have := cfg.dataCapacity_eq
    omega
  have hlog : ∀ {recs stop}, Log cfg w dataStart recs stop → Log cfg v dataStart recs stop :=
    fun log => log.congr (hvw.symm.mono (Nat.zero_le _) (log.le_regionSize rfl hstart))
  constructor
  · intro off h hmet
    obtain ⟨recs, log⟩ := hmet.reached
    have hin := hmet.inside
    have hused : h.usedSize = hdrSize + h.bodyBytes + 4 := rfl
    refine hv.bodies off h ⟨⟨recs, hlog log⟩, ?_, hin⟩
    rw [← hvw.bytesAt (Nat.zero_le _) (by omega)]
    exact hmet.decoded
  · exact fun recs stop log => hv.entries recs stop (hlog log)

section Boot

variable {env : Env FlashCall Memory FlashEvent} {ctx ctx' : FlashqCtx} {m m' : Memory}
  {region : Fin 2}

/-- Erasing one region leaves the other. -/
theorem ensureRegionErased_other {u : Unit} (run : Runs cfg.device env
    (ensureRegionErased cfg (1 - region)) ctx m (.ok u ctx' m')) :
    AgreeOn (view cfg m' region) (view cfg m region) 0 cfg.regionSize :=
  wp_sound run (only_ensureRegionErased.keeps
    (I := fun d => AgreeOn (view cfg d region) (view cfg m region) 0 cfg.regionSize)
    (fun d _ ev hc hd => (hc.respond d ev).trans hd) (AgreeOn.refl _ _ _))

/-- A header that is taken for valid was read. -/
theorem runs_readRegionHeader {hdr : RegionHdr} {valid : Bool}
    (run : Runs cfg.device env (readRegionHeader cfg region) ctx m (.ok (hdr, valid) ctx' m')) :
    ctx' = ctx ∧ m' = m ∧ (valid = true → hdr.status = statusActive → IsActive (view cfg m region)) := by
  refine wp_sound run (wp_mono (P := ⟨fun x ctx' m' => ctx' = ctx ∧ m' = m ∧
    (x.2 = true → x.1.status = statusActive → IsActive (view cfg m region)), fun _ _ _ => True,
    fun _ => True⟩) ?_ (fun _ _ _ h => h) (fun _ _ _ h => h) fun _ h => h)
  unfold readRegionHeader regionHeaderRead
  simp only [Prog.bind_eq, Prog.pure_eq, wp_bind, wp_attempt]
  refine wp_anyRead ?_ ?_ trivial
  · have hb := @bytesAt_region cfg m region 0 regionHdrSize
    rw [Nat.add_zero] at hb
    simp only [wp_ret, hb]
    refine ⟨trivial, trivial, fun hvalid hactive => ⟨?_, hactive⟩⟩
    have hmagic := (Bool.and_eq_true_iff.mp (Bool.and_eq_true_iff.mp hvalid).1).2
    exact eq_of_beq hmagic
  · simp only [wp_fail, wp_ret]
    exact ⟨trivial, trivial, fun h => absurd h (by decide)⟩

/-- A region is chosen for its status. -/
theorem chooseRegion_status {h0 h1 : RegionHdr} {valid0 valid1 : Bool} {r : Fin 2}
    (h : chooseRegion h0 valid0 h1 valid1 = some r) :
    (r = 0 ∧ valid0 = true ∧ h0.status = statusActive) ∨
      (r = 1 ∧ valid1 = true ∧ h1.status = statusActive) := by
  have hactive : ∀ {hdr : RegionHdr} {valid : Bool}, (valid && hdr.status == statusActive) = true →
      valid = true ∧ hdr.status = statusActive := fun h =>
    ⟨(Bool.and_eq_true_iff.mp h).1, eq_of_beq (Bool.and_eq_true_iff.mp h).2⟩
  unfold chooseRegion at h
  simp only [] at h
  split at h
  · rename_i hboth
    obtain ⟨h0, h1⟩ := Bool.and_eq_true_iff.mp hboth
    split at h <;> cases h
    · exact .inl ⟨rfl, hactive h0⟩
    · exact .inr ⟨rfl, hactive h1⟩
  · split at h
    · rename_i h0
      cases h
      exact .inl ⟨rfl, hactive h0⟩
    · split at h
      · rename_i h1
        cases h
        exact .inr ⟨rfl, hactive h1⟩
      · cases h

/-- The index after the scan. -/
theorem runs_scanLog {generation : UInt32} {u : Unit} (run : Runs cfg.device env
    (scanLog cfg region generation) ctx m (.ok u ctx' m')) :
    ∃ recs stop, Log cfg (view cfg m region) dataStart recs stop ∧
      ctx'.index = (replay cfg recs).index := by
  obtain ⟨_, recs, hs⟩ := (scan_safe cfg region generation ctx m env).2.2 _ run
  exact ⟨recs, _, hs.log, hs.index⟩

variable (cfg) in
/-- From here on the reads of the program fit, and so do the entries at every call and at
the end. -/
structure FitsFrom {α : Type} (env : Env FlashCall Memory FlashEvent) (x : FlashqM α)
    (ctx : FlashqCtx) (m : Memory) : Prop where
  calls : ∀ ctx' c, Requests cfg.device env x ctx m ctx' c → Fitting cfg ctx' ∧ ReadFits cfg c
  ends : ∀ a ctx' m', Runs cfg.device env x ctx m (.ok a ctx' m') → Fitting cfg ctx'

theorem Careful.fits {α : Type} {Q : α → Prop} {x : FlashqM α} (h : Careful cfg Q x)
    (hctx : Fitting cfg ctx) : FitsFrom cfg env x ctx m :=
  ⟨fun _ _ hreq => h.requests hctx hreq, fun _ _ _ run => (h.returned hctx run).1⟩

theorem FitsFrom.bind {α β : Type} {x : FlashqM β} {f : β → FlashqM α}
    (hx : FitsFrom cfg env x ctx m)
    (hf : ∀ b ctx₁ m₁, Runs cfg.device env x ctx m (.ok b ctx₁ m₁) → FitsFrom cfg env (f b) ctx₁ m₁) :
    FitsFrom cfg env (x.bind f) ctx m := by
  constructor
  · intro ctx' c hreq
    rcases requests_bind.mp hreq with hreq | ⟨b, ctx₁, m₁, run, hreq⟩
    · exact hx.calls ctx' c hreq
    · exact (hf b ctx₁ m₁ run).calls ctx' c hreq
  · intro a ctx' m' hrun
    obtain ⟨b, ctx₁, m₁, run, hrun⟩ := hrun.of_bind_ok
    exact (hf b ctx₁ m₁ run).ends a ctx' m' hrun

theorem fits_scanRegion {generation : UInt32} (hv : ContentFits cfg (view cfg m region)) :
    FitsFrom cfg env (scanRegion cfg region generation) ctx m := by
  have hscan : FitsFrom cfg env (scanLog cfg region generation) ctx m := by
    constructor
    · intro ctx' c hreq
      obtain ⟨recs, stop, log, hindex, hcall⟩ := requests_scanLog hreq
      exact ⟨hv.fitting log hindex, hcall.fits hv.bodies⟩
    · intro _ ctx' m' run
      obtain ⟨recs, stop, log, hindex⟩ := runs_scanLog run
      exact hv.fitting log hindex
  exact hscan.bind fun _ ctx₁ m₁ run =>
    Careful.fits (Audited.bind Audited.read fun _ _ => careful_requeueLoop _ _)
      (hscan.ends _ _ _ run)

/-- `op_recover` on a partition whose content fits. -/
theorem fits_opRecover (hctx : Fitting cfg ctx) (hm : BootFits cfg m) :
    FitsFrom cfg env (opRecover cfg) ctx m := by
  unfold opRecover recoverWith
  simp only [Prog.bind_eq]
  refine (Careful.fits careful_readRegionHeader hctx).bind ?_
  rintro ⟨h0, valid0⟩ _ _ run0
  obtain ⟨rfl, rfl, hact0⟩ := runs_readRegionHeader run0
  refine (Careful.fits careful_readRegionHeader hctx).bind ?_
  rintro ⟨h1, valid1⟩ _ _ run1
  obtain ⟨rfl, rfl, hact1⟩ := runs_readRegionHeader run1
  simp only []
  cases hch : chooseRegion h0 valid0 h1 valid1 with
  | none => exact Careful.fits careful_reinitialize hctx
  | some chosen =>
    have hcontent := hm chosen (by
      rcases chooseRegion_status hch with ⟨rfl, hvalid, hstatus⟩ | ⟨rfl, hvalid, hstatus⟩
      · exact hact0 hvalid hstatus
      · exact hact1 hvalid hstatus)
    refine (Careful.fits careful_ensureRegionErased hctx).bind fun _ _ _ run => ?_
    exact fits_scanRegion (hcontent.congr (ensureRegionErased_other run))

end Boot

/-! ## Over any number of boots -/

/-- The flash calls may fail and the power may go, whenever they like. -/
def anyWorld : FlashqWorld := ⟨anyFault, fun _ => anyFault⟩

variable (cfg) in
/-- At a restart, the partition holds what fits. -/
def RestartFits : FlashqSystem → FlashqStepLabel → Prop
  | .off m, _ => BootFits cfg m
  | .on _ _, _ => True

variable (cfg) in
/-- At the call, what is read has room in a scratch buffer, and every destination that a
compaction copies in its array. -/
structure CallFits (ctx : FlashqCtx) (c : FlashCall) : Prop where
  read : ∀ addr len, c = .read addr len → len ≤ cfg.scratchSize
  destination : ∀ e ∈ ctx.index, e.destinationLen.toNat ≤ maxDestinationLen + 1

variable (cfg) in
/-- All calls that the next step can make fit. -/
def NextFits : FlashqSystem → Prop
  | .off m => BootFits cfg m → ∀ ctx' c,
      Requests cfg.device anyFault (opRecover cfg) (FlashqCtx.fresh cfg) m ctx' c →
        CallFits cfg ctx' c
  | .on ctx m => ∀ op ctx' c,
      Requests cfg.device anyFault (flashqCall cfg op) ctx m ctx' c → CallFits cfg ctx' c

theorem CallFits.of_fitting {ctx : FlashqCtx} {c : FlashCall}
    (h : Fitting cfg ctx ∧ ReadFits cfg c) : CallFits cfg ctx c where
  read addr len hc := by
    rw [hc] at h
    exact h.2
  destination e he := (h.1 e he).destination

theorem fitting_fresh : Fitting cfg (FlashqCtx.fresh cfg) := fun _ he => absurd he List.not_mem_nil

variable (cfg) in
/-- What the steps keep. -/
def FitSystem : FlashqSystem → Prop
  | .off _ => True
  | .on ctx _ => Fitting cfg ctx

theorem FitSystem.step {s s' : FlashqSystem} {label : FlashqStepLabel} (h : FitSystem cfg s)
    (hguard : RestartFits cfg s label) (step : FlashqStep cfg anyWorld s label s') :
    FitSystem cfg s' := by
  cases step with
  | returned run => exact ((careful_flashqCall _).returned h run).1
  | failed run => exact (careful_flashqCall _).failed h run
  | cut run => trivial
  | stop => trivial
  | boot run => exact (fits_opRecover fitting_fresh hguard).ends _ _ _ run
  | bootFail run => trivial
  | bootCut run => trivial

theorem FitSystem.run {s s' : FlashqSystem} {labels : List FlashqStepLabel} (h : FitSystem cfg s)
    (run : GuardedRun cfg anyWorld (RestartFits cfg) s labels s') : FitSystem cfg s' := by
  induction run with
  | nil => exact h
  | snoc _ step meets ih => exact ih.step meets step

theorem FitSystem.nextFits {s : FlashqSystem} (h : FitSystem cfg s) : NextFits cfg s := by
  cases s with
  | off m =>
    exact fun hm ctx' c hreq => .of_fitting ((fits_opRecover fitting_fresh hm).calls ctx' c hreq)
  | on ctx m => exact fun op ctx' c hreq => .of_fitting ((careful_flashqCall op).requests h hreq)

/-! ## Scripts whose restarts are checked -/

section Checks

variable (cfg : FlashqConfig)

instance (x : EntryMeta) : Decidable (x.FitsScratch cfg) :=
  decidable_of_iff (x.destinationLen.toNat ≤ maxDestinationLen + 1 ∧
      hdrSize + (x.destinationLen.toNat + x.payloadLen.toNat) + 4 ≤ cfg.scratchSize)
    ⟨fun h => ⟨h.1, h.2⟩, fun h => ⟨h.destination, h.record⟩⟩

/-- Check the record at the offset, if the scan reads its body. -/
def bodyFits (v : Memory) (off : Nat) : Bool :=
  match decodeHeader (v.bytesAt off hdrSize) hdrSize with
  | none => true
  | some h => decide (off + h.usedSize ≤ cfg.regionSize → h.bodyBytes + 4 ≤ cfg.scratchSize)

/-- Check the log from the offset on, record by record. -/
def logFits (v : Memory) : Nat → Nat → Replay → Bool
  | 0, _, _ => false
  | fuel + 1, off, r =>
      bodyFits cfg v off && r.index.all (fun e => decide (e.FitsScratch cfg)) &&
        match acceptAt cfg v off with
        | none => true
        | some h => logFits v fuel (off + h.totalSize) (r.apply cfg off h)

/-- Check the regions that are marked ACTIVE. -/
def bootFits (fuel : Nat) (m : Memory) : Bool :=
  decide (∀ r, IsActive (view cfg m r) → logFits cfg (view cfg m r) fuel dataStart ⟨[], 0⟩ = true)

variable {cfg} {v : Memory} {off fuel : Nat}

/-- What the check of a record says. -/
theorem bodyFits_shows {h : RecordHdr} (hfits : bodyFits cfg v off = true)
    (hdec : decodeHeader (v.bytesAt off hdrSize) hdrSize = some h)
    (hin : off + h.usedSize ≤ cfg.regionSize) : h.bodyBytes + 4 ≤ cfg.scratchSize := by
  rw [bodyFits, hdec] at hfits
  exact of_decide_eq_true hfits hin

/-- What the check of the log says, wherever the scan stops. -/
theorem logFits_shows {r : Replay} {recs : List (Nat × RecordHdr)} {stop : Nat}
    (hfits : logFits cfg v fuel off r = true) (log : Log cfg v off recs stop) :
    bodyFits cfg v stop = true ∧
      ∀ e ∈ (recs.foldl (fun r x => r.apply cfg x.1 x.2) r).index, e.FitsScratch cfg := by
  induction log generalizing fuel r with
  | nil off =>
    cases fuel with
    | zero => cases hfits
    | succ fuel =>
      rw [logFits, Bool.and_eq_true, Bool.and_eq_true] at hfits
      exact ⟨hfits.1.1, fun e he => of_decide_eq_true (List.all_eq_true.mp hfits.1.2 e he)⟩
  | cons accepted rest ih =>
    cases fuel with
    | zero => cases hfits
    | succ fuel =>
      rw [logFits, Bool.and_eq_true, accepted] at hfits
      exact ih hfits.2

theorem bootFits_shows {m : Memory} (hfits : bootFits cfg fuel m = true) : BootFits cfg m := by
  intro r hactive
  have hlog := of_decide_eq_true hfits r hactive
  constructor
  · rintro off h ⟨⟨recs, log⟩, hdec, hin⟩
    exact bodyFits_shows (logFits_shows hlog log).1 hdec hin
  · exact fun recs stop log => (logFits_shows hlog log).2

end Checks

section Play

variable {cfg : FlashqConfig} {s s' : FlashqSystem}

/-- Whatever the calls meet, what is played is a step. -/
theorem any_act {a : FlashqAction} {evs : List FlashEvent} {label : FlashqStepLabel}
    (h : s.act cfg a evs = some (label, s')) : FlashqStep cfg anyWorld s label s' := by
  have hp : s.permits cfg (if a = .boot then fun _ _ => true else fun _ _ => true) a evs =
      true := by
    rw [ite_self]
    cases s with
    | off m => cases a <;> first | rfl | exact admits_any _ _ _ _
    | on ctx m => cases a <;> first | rfl | exact admits_any _ _ _ _
  exact FlashqSystem.act_step (fun _ _ _ _ => trivial) (fun _ _ _ _ => trivial) hp h

/-- Check what a restart finds. -/
def FlashqSystem.restartFits (cfg : FlashqConfig) (fuel : Nat) : FlashqSystem → Bool
  | .off m => bootFits cfg fuel m
  | .on _ _ => true

/-- Check what every restart of a script finds. -/
def FlashqSystem.playFits (cfg : FlashqConfig) (fuel : Nat) : FlashqSystem → FlashqScript → Bool
  | _, [] => true
  | s, (a, evs) :: script =>
      s.restartFits cfg fuel &&
      match s.act cfg a evs with
      | none => true
      | some (_, s') => s'.playFits cfg fuel script

/-- A script whose restarts pass the check plays a guarded run. -/
theorem guarded_play {s0 : FlashqSystem} {fuel : Nat} {script : FlashqScript}
    {labels labels' : List FlashqStepLabel}
    (run : GuardedRun cfg anyWorld (RestartFits cfg) s0 labels s)
    (hfits : s.playFits cfg fuel script = true)
    (h : s.play cfg script labels = some (labels', s')) :
    GuardedRun cfg anyWorld (RestartFits cfg) s0 labels' s' := by
  induction script generalizing s labels with
  | nil =>
    cases h
    exact run
  | cons x script ih =>
    obtain ⟨a, evs⟩ := x
    rw [FlashqSystem.playFits] at hfits
    obtain ⟨hnow, hrest⟩ := Bool.and_eq_true_iff.mp hfits
    rw [FlashqSystem.play] at h
    cases hact : s.act cfg a evs with
    | none => simp [hact] at h
    | some y =>
      obtain ⟨label, s1⟩ := y
      rw [hact] at h hrest
      have meets : RestartFits cfg s label := by
        cases s with
        | off m => exact bootFits_shows hnow
        | on ctx m => trivial
      exact ih (run.snoc (any_act hact) meets) hrest h

end Play

/-- Whatever the partition held when the program was installed: if at every restart the regions
marked ACTIVE hold what fits, no read is longer than its buffer and no destination longer than
its array; and the reads of a scan fit exactly if the bodies that it meets do. -/
theorem scratch_sufficient (cfg : FlashqConfig) :
    (∀ (m : Memory) (labels : List FlashqStepLabel) (s : FlashqSystem),
      GuardedRun cfg anyWorld (RestartFits cfg) (.off m) labels s → NextFits cfg s) ∧
    ∀ (region : Fin 2) (generation : UInt32) (ctx : FlashqCtx) (m : Memory),
      (∀ ctx' addr len, Requests cfg.device anyFault (scanLog cfg region generation) ctx m ctx'
        (.read addr len) → len ≤ cfg.scratchSize) ↔ BodiesFit cfg (view cfg m region) :=
  ⟨fun m _ _ run => (FitSystem.run (show FitSystem cfg (.off m) from trivial) run).nextFits,
    fun region generation ctx m => scanLog_reads_fit cfg region generation ctx m⟩

/-- The partition of an installation that took longer messages. -/
def longConfig : FlashqConfig := { smallConfig with maxMessageSize := 200 }

/-- A message that has room in either. -/
def shortMessage : EdgesyncMessage := ⟨8, [0x62], 1, 6, [1, 2, 3]⟩

/-- It is published where longer ones are taken. -/
def shortScript : FlashqScript := [(.boot, []), (.call (.enqueue shortMessage), []), (.stop, [])]

/-- What the publisher sees. -/
def shortLabels : List FlashqStepLabel :=
  [.booted, .call (.enqueue shortMessage) (.ok .done), .stopped]

/-- The power goes while the UPDATE record of a claim is written. -/
def tornClaim : FlashqScript :=
  [(.boot, []), (.call (.claimNext 10), [.run, .cut 7]), (.boot, [])]

/-- What the worker sees. -/
def tornShown : List FlashqStepLabel := [.booted, .callCut (.claimNext 10), .booted]

/-- The worker saw the labels, and finds a message. -/
def FlashqSystem.findsAfter (labels : List FlashqStepLabel) :
    List FlashqStepLabel × FlashqSystem → Bool
  | (_, .off _) => false
  | (labels', .on ctx _) => decide (labels' = labels) && !ctx.index.isEmpty

theorem findsAfter_shows {labels : List FlashqStepLabel} {x : List FlashqStepLabel × FlashqSystem}
    (h : FlashqSystem.findsAfter labels x = true) :
    ∃ ctx m, x = (labels, .on ctx m) ∧ ctx.index ≠ [] := by
  obtain ⟨labels', s⟩ := x
  cases s with
  | off m => cases h
  | on ctx m =>
    obtain ⟨hlabels, hindex⟩ := Bool.and_eq_true_iff.mp h
    refine ⟨ctx, m, by rw [of_decide_eq_true hlabels], fun hnil => ?_⟩
    rw [hnil] at hindex
    cases hindex

/-- The publisher saw the labels, every restart of the other script passes the check, and the
last one finds a message. -/
def FlashqSystem.fitsAfter : List FlashqStepLabel × FlashqSystem → Bool
  | (_, .on _ _) => false
  | (labels, .off m) => decide (labels = shortLabels) &&
      (FlashqSystem.off m).playFits smallConfig 4 tornClaim &&
      ((FlashqSystem.off m).play smallConfig tornClaim []).any (FlashqSystem.findsAfter tornShown)

/-- What the check finds. -/
theorem fitsAfter_shows {x : List FlashqStepLabel × FlashqSystem}
    (h : FlashqSystem.fitsAfter x = true) : ∃ m ctx m', x = (shortLabels, .off m) ∧
      GuardedRun smallConfig anyWorld (RestartFits smallConfig) (.off m) tornShown (.on ctx m') ∧
      ctx.index ≠ [] := by
  obtain ⟨labels, s⟩ := x
  cases s with
  | on ctx m => cases h
  | off m =>
    obtain ⟨hleft, hany⟩ := Bool.and_eq_true_iff.mp h
    obtain ⟨hlabels, hfits⟩ := Bool.and_eq_true_iff.mp hleft
    obtain ⟨played, hplay, hfinds⟩ := (Option.any_eq_true _ _).mp hany
    obtain ⟨ctx, m', rfl, hindex⟩ := findsAfter_shows hfinds
    rw [of_decide_eq_true hlabels]
    exact ⟨m, ctx, m', rfl, guarded_play .nil hfits hplay, hindex⟩

/-- A message is published with room for 200 bytes.  The worker is updated, claims with room for
64, loses power inside the UPDATE record and finds the message again: nothing that the next step
reads overflows. -/
theorem scratch_sufficient_torn : ∃ m ctx m',
    FlashqRun longConfig quietWorld (.off erasedFlash) shortLabels (.off m) ∧
    GuardedRun smallConfig anyWorld (RestartFits smallConfig) (.off m) tornShown (.on ctx m') ∧
    ctx.index ≠ [] ∧ NextFits smallConfig (.on ctx m') := by
  have hplay : ((FlashqSystem.off erasedFlash).play longConfig shortScript []).any
      FlashqSystem.fitsAfter = true := by decide +kernel
  obtain ⟨x, hx, hshows⟩ := (Option.any_eq_true _ _).mp hplay
  obtain ⟨m, ctx, m', rfl, run, hindex⟩ := fitsAfter_shows hshows
  exact ⟨m, ctx, m', silent_play .nil (by decide) hx, run, hindex,
    (scratch_sufficient smallConfig).1 m tornShown _ run⟩

/-- A message that is too long for `smallConfig`. -/
def longMessage : EdgesyncMessage := ⟨7, [0x61], 1, 5, List.replicate 200 0⟩

/-- The message is published. -/
def longScript : FlashqScript := [(.boot, []), (.call (.enqueue longMessage), []), (.stop, [])]

/-- What the publisher sees. -/
def longLabels : List FlashqStepLabel :=
  [.booted, .call (.enqueue longMessage) (.ok .done), .stopped]

/-- A read that is longer than the scratch buffers. -/
def overlong (cfg : FlashqConfig) : FlashCall → Bool
  | .read _ len => decide (cfg.scratchSize < len)
  | _ => false

/-- The publisher saw the labels, and `op_recover` under the smaller configuration makes a read
that is too long. -/
def FlashqSystem.overflowsAfter (labels : List FlashqStepLabel) :
    List FlashqStepLabel × FlashqSystem → Bool
  | (labels', .off m) => decide (labels' = labels) &&
      (callsOn smallConfig.device (opRecover smallConfig) (FlashqCtx.fresh smallConfig) m []).any
        (overlong smallConfig)
  | (_, .on _ _) => false

/-- What the check finds. -/
theorem overflowsAfter_shows {labels : List FlashqStepLabel} {x : List FlashqStepLabel × FlashqSystem}
    (h : FlashqSystem.overflowsAfter labels x = true) : ∃ m, x = (labels, .off m) ∧
      ∃ ctx addr len, Requests smallConfig.device calmEnv (opRecover smallConfig)
        (FlashqCtx.fresh smallConfig) m ctx (.read addr len) ∧ smallConfig.scratchSize < len := by
  obtain ⟨labels', s⟩ := x
  cases s with
  | on ctx m => cases h
  | off m =>
    obtain ⟨hlabels, hany⟩ := Bool.and_eq_true_iff.mp h
    obtain ⟨c, hc, hlong⟩ := List.any_eq_true.mp hany
    have hcalm : ∀ d c, calmEnv d c smallConfig.device.calm := fun _ _ => rfl
    obtain ⟨ctx, hreq⟩ := requests_of_mem hcalm _ hc
    cases c with
    | read addr len =>
      exact ⟨m, by rw [of_decide_eq_true hlabels], ctx, addr, len, hreq, of_decide_eq_true hlong⟩
    | write addr data => cases hlong
    | erase addr len => cases hlong

/-- The partition was used with room for messages of 200 bytes; reopened with room for 64, the
scan reads 205 bytes into a buffer of 196. -/
theorem long_body_overflows : ∃ m ctx addr len,
    FlashqRun longConfig quietWorld (.off erasedFlash) longLabels (.off m) ∧
    Requests smallConfig.device calmEnv (opRecover smallConfig) (FlashqCtx.fresh smallConfig) m ctx
      (.read addr len) ∧
    smallConfig.scratchSize < len ∧ ¬ BootFits smallConfig m := by
  have hplay : ((FlashqSystem.off erasedFlash).play longConfig longScript []).any
      (FlashqSystem.overflowsAfter longLabels) = true := by decide +kernel
  obtain ⟨x, hx, hshows⟩ := (Option.any_eq_true _ _).mp hplay
  obtain ⟨m, rfl, ctx, addr, len, hreq, hlong⟩ := overflowsAfter_shows hshows
  refine ⟨m, ctx, addr, len, silent_play .nil (by decide) hx, hreq, hlong, fun hm => ?_⟩
  exact Nat.not_le_of_lt hlong ((fits_opRecover fitting_fresh hm).calls ctx _ hreq).2

end EdgeSync
