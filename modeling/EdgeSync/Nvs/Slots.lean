/-
  Nvs/Slots.lean --- what a slot of the NVS backend holds.

  A slot is a blob with the whole record of one message.  The two functions that
  touch blobs, `read_and_verify` and `write_entry`, are specified here; every
  operation is assembled from them.
-/
import EdgeSync.Nvs.Ram

set_option autoImplicit false

namespace EdgeSync

open Foundation

variable {cfg : NvsConfig}

/-! ## Records -/

namespace StoredMessage

/-- The header of the record of a message. -/
def hdr (s : StoredMessage) : RecordHdr :=
  messageHdr s.id s.destination s.priority s.state s.attemptCount s.createdAtUs s.lastAttemptAtUs
    s.nextRetryAtUs s.lastError s.payloadLen 0

/-- The record of a message. -/
def blob (s : StoredMessage) : Bytes := recordBytes s.hdr (s.destination ++ s.payload)

variable (cfg) in
/-- The lengths of a message are those of its bytes, and its record fits the
scratch buffers. -/
structure Sized (s : StoredMessage) : Prop where
  destination_ne : ∀ b ∈ s.destination, b ≠ 0
  destination_le : s.destination.length ≤ maxDestinationLen
  destinationLen : s.destinationLen = UInt16.ofNat s.destination.length
  payloadLen : s.payloadLen.toNat = s.payload.length
  record_le : recordTotalSize s.destinationLen s.payloadLen ≤ cfg.scratchSize

/-- The payload that a rewrite through the shared buffer leaves. -/
def cleared (s : StoredMessage) : StoredMessage :=
  { s with payload := List.replicate s.payload.length 0 }

@[simp] theorem cleared_toEntryMeta (s : StoredMessage) :
    s.cleared.toEntryMeta = s.toEntryMeta := rfl

@[simp] theorem cleared_destination (s : StoredMessage) :
    s.cleared.destination = s.destination := rfl

namespace Sized

variable {s : StoredMessage}

theorem cString_eq (h : s.Sized cfg) : cString s.destination = s.destination :=
  cString_eq_self h.destination_ne

theorem strlen_eq (h : s.Sized cfg) : strlen s.destination = s.destination.length := by
  rw [strlen_eq_length_cString, h.cString_eq]

theorem strlen_le (h : s.Sized cfg) : strlen s.destination ≤ maxDestinationLen := by
  rw [h.strlen_eq]
  exact h.destination_le

theorem destinationLen_toNat (h : s.Sized cfg) : s.destinationLen.toNat = s.destination.length := by
  rw [h.destinationLen, ← h.strlen_eq]
  exact strlen_toNat h.strlen_le

theorem hdr_destinationLen (h : s.Sized cfg) : s.hdr.destinationLen = s.destinationLen := by
  rw [h.destinationLen, ← h.strlen_eq]
  rfl

theorem bodyBytes (h : s.Sized cfg) : (s.destination ++ s.payload).length = s.hdr.bodyBytes := by
  rw [List.length_append, RecordHdr.bodyBytes, h.hdr_destinationLen, h.destinationLen_toNat]
  exact congrArg (s.destination.length + ·) h.payloadLen.symm

theorem totalSize (h : s.Sized cfg) :
    s.hdr.totalSize = recordTotalSize s.destinationLen s.payloadLen := by
  rw [RecordHdr.totalSize, h.hdr_destinationLen]
  rfl

theorem length_blob (h : s.Sized cfg) :
    s.blob.length = recordTotalSize s.destinationLen s.payloadLen := by
  rw [blob, length_recordBytes h.bodyBytes, h.totalSize]

theorem blob_le (h : s.Sized cfg) : s.blob.length ≤ cfg.scratchSize := by
  rw [h.length_blob]
  exact h.record_le

/-- Changing the progress of a message keeps its size. -/
theorem change (h : s.Sized cfg) (f : Progress → Progress) : (s.change f).Sized cfg where
  destination_ne := h.destination_ne
  destination_le := h.destination_le
  destinationLen := h.destinationLen
  payloadLen := h.payloadLen
  record_le := h.record_le

theorem cleared (h : s.Sized cfg) : s.cleared.Sized cfg where
  destination_ne := h.destination_ne
  destination_le := h.destination_le
  destinationLen := h.destinationLen
  payloadLen := by
    rw [StoredMessage.cleared, List.length_replicate]
    exact h.payloadLen
  record_le := h.record_le

/-- The record decodes. -/
theorem decode (h : s.Sized cfg) (rest : Bytes) :
    decodeHeader (s.blob ++ rest) s.blob.length = some s.hdr := by
  have hs : s.hdr.Sealed := RecordHdr.sealed_seal _ _ _
  have hsplit : s.blob ++ rest = s.hdr.toBytes ++ (s.blob.drop hdrSize ++ rest) := by
    have hhead : s.blob.take hdrSize = s.hdr.toBytes := by
      rw [blob, recordBytes, List.take_left' (RecordHdr.length_toBytes _)]
    rw [← List.append_assoc, ← hhead, List.take_append_drop]
  refine decodeHeader_toBytes hs hsplit ?_
  rw [h.length_blob, ← h.totalSize]
  have := s.hdr.updateSize_le
  simp only [hdrSize]
  omega

/-- The body of the record verifies. -/
theorem verify (h : s.Sized cfg) (rest : Bytes) :
    verifyBody s.hdr ((s.blob ++ rest).drop hdrSize) (s.blob.length - hdrSize) = true := by
  have hdrop : (s.blob ++ rest).drop hdrSize = (s.destination ++ s.payload) ++
      (leBytes 4 (edgesyncCrc32 0 (s.destination ++ s.payload)).toNat ++
        (List.replicate (s.hdr.totalSize - s.hdr.usedSize) 0 ++ rest)) := by
    have hb : s.blob ++ rest = s.hdr.toBytes ++ ((s.destination ++ s.payload) ++
        (leBytes 4 (edgesyncCrc32 0 (s.destination ++ s.payload)).toNat ++
        (List.replicate (s.hdr.totalSize - s.hdr.usedSize) 0 ++ rest))) := by
      simp only [blob, recordBytes, List.append_assoc]
    rw [hb, List.drop_left' (RecordHdr.length_toBytes _)]
  rw [hdrop]
  refine verifyBody_of_data h.bodyBytes ?_
  have hused := s.hdr.usedSize_le
  rw [h.length_blob, ← h.totalSize]
  simp only [RecordHdr.usedSize] at hused
  omega

/-- The destination and the payload, read behind the header. -/
theorem slice_body (rest : Bytes) :
    slice (s.blob ++ rest) hdrSize (s.destination.length + s.payload.length) =
      s.destination ++ s.payload := by
  have hb : s.blob ++ rest = s.hdr.toBytes ++ ((s.destination ++ s.payload) ++
      (leBytes 4 (edgesyncCrc32 0 (s.destination ++ s.payload)).toNat ++
      (List.replicate (s.hdr.totalSize - s.hdr.usedSize) 0 ++ rest))) := by
    simp only [blob, recordBytes, List.append_assoc]
  rw [hb, slice_append_right (by simp), RecordHdr.length_toBytes, Nat.sub_self,
    slice_append_self (by simp)]

theorem slice_destination (rest : Bytes) :
    slice (s.blob ++ rest) hdrSize s.destination.length = s.destination := by
  rw [← take_slice (Nat.le_add_right _ s.payload.length), slice_body rest,
    List.take_left' rfl]

end Sized

end StoredMessage

/-- A destination read into a zeroed array. -/
theorem cString_destinationOf {s : StoredMessage} (h : s.Sized cfg) {scratch : Bytes} {off : Nat}
    (hs : slice scratch off s.destination.length = s.destination) :
    cString (destinationOf scratch off s.destination.length) = s.destination := by
  have hle := h.destination_le
  rw [destinationOf, hs]
  have hsplit : (List.replicate (maxDestinationLen + 1) 0 : Bytes) =
      List.replicate s.destination.length 0 ++
        List.replicate (maxDestinationLen + 1 - s.destination.length) 0 := by
    rw [← replicate_zeros]
    congr 1
    omega
  rw [hsplit, overlay_append_zero (List.length_replicate ..)]
  exact cString_append_zeros h.destination_ne _

/-! ## Reading a slot -/

section Programs

variable {usage : BlobStore → UInt32 × UInt32} {env : Env BlobCall BlobStore BlobEvent}
  {ctx : NvsCtx} {s : BlobStore} {slot : UInt32} {e : NvsIndexEntry} {x : StoredMessage}
  {destination : Bytes}

/-- No event tears a read: the power may go. -/
theorem wp_nvsGetBlobSize {P : Post NvsCtx BlobStore EspErr (Option Nat)} {key : Nat}
    (hok : P.ok ((s key).map List.length) ctx s)
    (hfail : env s (.size key) .fail → P.ok none ctx s)
    (hcut : ∀ c done, env s c (.cut done) → P.cut s) :
    wp (blobDevice usage) env (nvsGetBlobSize key) P ctx s := by
  refine wp_call.mpr fun ev hev => ?_
  cases ev with
  | run => exact wp_ret.mpr hok
  | fail => exact wp_ret.mpr (hfail hev)
  | cut done => exact hcut _ _ hev

theorem wp_nvsGetBlob {P : Post NvsCtx BlobStore EspErr (Option Bytes)} {key : Nat}
    (hok : P.ok (s key) ctx s) (hfail : env s (.get key) .fail → P.ok none ctx s)
    (hcut : ∀ c done, env s c (.cut done) → P.cut s) :
    wp (blobDevice usage) env (nvsGetBlob key) P ctx s := by
  refine wp_call.mpr fun ev hev => ?_
  cases ev with
  | run => exact wp_ret.mpr hok
  | fail => exact wp_ret.mpr (hfail hev)
  | cut done => exact hcut _ _ hev

theorem wp_nvsSetBlob {P : Post NvsCtx BlobStore EspErr Bool} {key : Nat} {data : Bytes}
    (hok : P.ok true ctx (s.set key data))
    (hfail : env s (.set key data) .fail → P.ok false ctx s)
    (hcut : ∀ done, env s (.set key data) (.cut done) → P.cut s ∧ P.cut (s.set key data)) :
    wp (blobDevice usage) env (nvsSetBlob key data) P ctx s := by
  refine wp_call.mpr fun ev hev => ?_
  cases ev with
  | run => exact wp_ret.mpr hok
  | fail => exact wp_ret.mpr (hfail hev)
  | cut done =>
    cases done with
    | false => exact (hcut _ hev).1
    | true => exact (hcut _ hev).2

theorem wp_nvsEraseKey {P : Post NvsCtx BlobStore EspErr Bool} {key : Nat}
    (hok : P.ok (s key).isSome ctx (s.erase key))
    (hfail : env s (.erase key) .fail → P.ok false ctx s)
    (hcut : ∀ done, env s (.erase key) (.cut done) → P.cut s ∧ P.cut (s.erase key)) :
    wp (blobDevice usage) env (nvsEraseKey key) P ctx s := by
  refine wp_call.mpr fun ev hev => ?_
  cases ev with
  | run => exact wp_ret.mpr hok
  | fail => exact wp_ret.mpr (hfail hev)
  | cut done =>
    cases done with
    | false => exact (hcut _ hev).1
    | true => exact (hcut _ hev).2

theorem wp_nvsCommit {P : Post NvsCtx BlobStore EspErr Bool}
    (hok : P.ok true ctx s) (hfail : env s .commit .fail → P.ok false ctx s)
    (hcut : ∀ done, env s .commit (.cut done) → P.cut s) :
    wp (blobDevice usage) env nvsCommit P ctx s := by
  refine wp_call.mpr fun ev hev => ?_
  cases ev with
  | run => exact wp_ret.mpr hok
  | fail => exact wp_ret.mpr (hfail hev)
  | cut done => exact hcut _ hev

theorem wp_nvsGetStats {P : Post NvsCtx BlobStore EspErr (Option (UInt32 × UInt32))}
    (hok : P.ok (some (usage s)) ctx s) (hfail : env s .usage .fail → P.ok none ctx s)
    (hcut : ∀ done, env s .usage (.cut done) → P.cut s) :
    wp (blobDevice usage) env nvsGetStats P ctx s := by
  refine wp_call.mpr fun ev hev => ?_
  cases ev with
  | run => exact wp_ret.mpr hok
  | fail => exact wp_ret.mpr (hfail hev)
  | cut done => exact hcut _ hev

/-- Reading a slot that holds a message. -/
theorem wp_readAndVerify {P : Post NvsCtx BlobStore EspErr RecordHdr} (hx : x.Sized cfg)
    (hs : s (slotKey slot) = some x.blob)
    (hok : P.ok x.hdr { ctx with scratch := x.blob ++ ctx.scratch.drop x.blob.length } s)
    (hsize : env s (.size (slotKey slot)) .fail → P.error .notFound ctx s)
    (hget : env s (.get (slotKey slot)) .fail → P.error .storage ctx s)
    (hcut : ∀ c done, env s c (.cut done) → P.cut s) :
    wp (blobDevice usage) env (readAndVerify cfg slot) P ctx s := by
  unfold readAndVerify
  simp only [Prog.bind_eq, wp_bind]
  refine wp_nvsGetBlobSize ?_ (fun hev => wp_fail.mpr (hsize hev)) hcut
  rw [hs]
  simp only [Option.map_some, Nat.not_lt.mpr hx.blob_le, if_false, wp_bind]
  refine wp_nvsGetBlob ?_ (fun hev => wp_fail.mpr (hget hev)) hcut
  rw [hs]
  simp only [wp_bind, wp_modify, wp_read]
  have hscratch : overlay ctx.scratch 0 x.blob = x.blob ++ ctx.scratch.drop x.blob.length := by
    simp [overlay]
  rw [hscratch, hx.decode]
  simp only [hx.verify, if_true, Prog.pure_eq, wp_ret]
  exact hok

/-- Reading a slot that holds nothing. -/
theorem wp_readAndVerify_none {P : Post NvsCtx BlobStore EspErr RecordHdr}
    (hs : s (slotKey slot) = none) (hnone : P.error .notFound ctx s)
    (hcut : ∀ c done, env s c (.cut done) → P.cut s) :
    wp (blobDevice usage) env (readAndVerify cfg slot) P ctx s := by
  unfold readAndVerify
  simp only [Prog.bind_eq, wp_bind]
  refine wp_nvsGetBlobSize ?_ (fun _ => wp_fail.mpr hnone) hcut
  rw [hs]
  exact wp_fail.mpr hnone

/-! ## Writing a slot -/

/-- Writing a record that was encoded. -/
theorem wp_writeEntry {P : Post NvsCtx BlobStore EspErr Unit} {payload : Body} {blob rest : Bytes}
    {n : Nat}
    (henc : encodeMessageFull ctx.scratch cfg.scratchSize e.id destination e.priority e.state
      e.attemptCount e.createdAtUs e.lastAttemptAtUs e.nextRetryAtUs e.lastError payload
      e.payloadLen 0 = some (blob ++ rest, n)) (hn : n = blob.length)
    (hok : P.ok () { ctx with scratch := blob ++ rest } (s.set (slotKey e.slot) blob))
    (hset : env s (.set (slotKey e.slot) blob) .fail →
      P.error .storage { ctx with scratch := blob ++ rest } s)
    (hcommit : env (s.set (slotKey e.slot) blob) .commit .fail →
      P.error .storage { ctx with scratch := blob ++ rest } (s.set (slotKey e.slot) blob))
    (hcut : ∀ done, env s (.set (slotKey e.slot) blob) (.cut done) →
      P.cut s ∧ P.cut (s.set (slotKey e.slot) blob))
    (hcut' : ∀ done, env (s.set (slotKey e.slot) blob) .commit (.cut done) →
      P.cut (s.set (slotKey e.slot) blob)) :
    wp (blobDevice usage) env (writeEntry cfg e destination payload) P ctx s := by
  subst hn
  unfold writeEntry
  simp only [Prog.bind_eq, wp_bind, wp_read, henc, wp_modify, List.take_left']
  refine wp_nvsSetBlob ?_ (fun hev => ?_) hcut
  · simp only [if_true, wp_bind]
    refine wp_nvsCommit ?_ (fun hev => ?_) hcut'
    · simp only [if_true, Prog.pure_eq, wp_ret]
      exact hok
    · simp only [Bool.false_eq_true, if_false, wp_fail]
      exact hcommit hev
  · simp only [Bool.false_eq_true, if_false, wp_fail]
    exact hset hev

/-- Writing a record that cannot be encoded. -/
theorem wp_writeEntry_none {P : Post NvsCtx BlobStore EspErr Unit} {payload : Body}
    (henc : encodeMessageFull ctx.scratch cfg.scratchSize e.id destination e.priority e.state
      e.attemptCount e.createdAtUs e.lastAttemptAtUs e.nextRetryAtUs e.lastError payload
      e.payloadLen 0 = none) (herr : P.error .serialization ctx s) :
    wp (blobDevice usage) env (writeEntry cfg e destination payload) P ctx s := by
  unfold writeEntry
  simp only [Prog.bind_eq, wp_bind, wp_read, henc, wp_fail]
  exact herr

/-- The encoder, for a message whose payload lies in other memory. -/
theorem encode_bytes (hx : x.Sized cfg) (he : e.toEntryMeta = x.toEntryMeta) {buf data : Bytes}
    (hd : cString destination = x.destination) (hdata : data.take x.payload.length = x.payload) :
    encodeMessageFull buf cfg.scratchSize e.id destination e.priority e.state e.attemptCount
      e.createdAtUs e.lastAttemptAtUs e.nextRetryAtUs e.lastError (.bytes data) e.payloadLen 0 =
      some (x.blob ++ buf.drop x.blob.length, x.blob.length) := by
  have hlen : strlen destination = x.destination.length := by
    rw [strlen_eq_length_cString, hd]
  have hsize : recordTotalSize (UInt16.ofNat (strlen destination)) x.payloadLen =
      x.blob.length := by
    rw [hlen, hx.length_blob, hx.destinationLen]
  have hhdr : ∀ seq, messageHdr x.id destination x.priority x.state x.attemptCount x.createdAtUs
      x.lastAttemptAtUs x.nextRetryAtUs x.lastError x.payloadLen seq =
      messageHdr x.id x.destination x.priority x.state x.attemptCount x.createdAtUs
        x.lastAttemptAtUs x.nextRetryAtUs x.lastError x.payloadLen seq := by
    intro seq
    rw [messageHdr, messageHdr, hlen, hx.strlen_eq]
  have hfetch : ∀ y : Bytes, y.length = hdrSize + strlen destination → ∀ z : Bytes,
      (Body.bytes data).fetch (y ++ ((List.replicate x.payloadLen.toNat 0 : Bytes) ++ z))
        x.payloadLen.toNat = x.payload := by
    intro y _ z
    rw [Body.fetch, hx.payloadLen]
    exact hdata
  rw [he, encodeMessageFull_of_fetch (by rw [hlen]; exact hx.destination_le)
    (by rw [hsize]; exact hx.blob_le) hfetch hx.payloadLen.symm, hsize, hd, hhdr]
  rfl

/-- The encoder, for a message whose payload lies in the encode buffer. -/
theorem encode_slice (hx : x.Sized cfg) (he : e.toEntryMeta = x.toEntryMeta) {buf : Bytes}
    (hd : cString destination = x.destination) :
    encodeMessageFull buf cfg.scratchSize e.id destination e.priority e.state e.attemptCount
      e.createdAtUs e.lastAttemptAtUs e.nextRetryAtUs e.lastError
      (.slice (hdrSize + x.destination.length)) e.payloadLen 0 =
      some (x.cleared.blob ++ buf.drop x.cleared.blob.length, x.cleared.blob.length) := by
  have hlen : strlen destination = x.destination.length := by
    rw [strlen_eq_length_cString, hd]
  have hsize : recordTotalSize (UInt16.ofNat (strlen destination)) x.payloadLen =
      x.cleared.blob.length := by
    rw [hlen, hx.cleared.length_blob]
    exact congrArg (recordTotalSize · x.payloadLen) hx.destinationLen.symm
  have hhdr : ∀ seq, messageHdr x.id destination x.priority x.state x.attemptCount x.createdAtUs
      x.lastAttemptAtUs x.nextRetryAtUs x.lastError x.payloadLen seq =
      messageHdr x.id x.destination x.priority x.state x.attemptCount x.createdAtUs
        x.lastAttemptAtUs x.nextRetryAtUs x.lastError x.payloadLen seq := by
    intro seq
    rw [messageHdr, messageHdr, hlen, hx.strlen_eq]
  rw [he, ← hlen, encodeMessageFull_slice (by rw [hlen]; exact hx.destination_le)
    (by rw [hsize]; exact hx.cleared.blob_le), hsize, hd, hhdr, hx.payloadLen]
  rfl

end Programs

end EdgeSync
