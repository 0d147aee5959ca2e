/-
  Format/Record.lean --- the on-flash record format (`edgesync_flashq_format.h/.c`).

  A record is a packed 62-byte header, the destination, the payload, a CRC-32 of
  these two, and zero padding to a multiple of four.  The encoders write into a
  caller's buffer; the payload of a record may be a slice of that very buffer,
  and `Body.slice` keeps this case apart, because the encoder clears the buffer
  before it copies the payload.
-/
import EdgeSync.Types
import EdgeSync.Crc32

set_option autoImplicit false

namespace EdgeSync

open Foundation

/-! ## Constants -/

/-- `EDGESYNC_FLASHQ_REC_MAGIC`. -/
def recMagic : UInt32 := 0x45445347

/-- `EDGESYNC_FLASHQ_HDR_MAGIC`. -/
def hdrMagic : UInt32 := 0x45445348

/-- `EDGESYNC_FLASHQ_STATUS_COMPACTING`. -/
def statusCompacting : UInt8 := 0x07

/-- `EDGESYNC_FLASHQ_STATUS_ACTIVE`. -/
def statusActive : UInt8 := 0x03

/-- `EDGESYNC_FLASHQ_STATUS_STALE`. -/
def statusStale : UInt8 := 0x01

/-- `edgesync_flashq_record_type_t`. -/
inductive RecordType where
  | message
  | update
  | endMarker
  deriving DecidableEq, Repr

/-- The record type byte. -/
def RecordType.code : RecordType → UInt8
  | message => 1
  | update => 2
  | endMarker => 3

/-- `edgesync_flashq_state_t`. -/
inductive FlashqState where
  | pending
  | inFlight
  | delivered
  | deadLetter
  | removed
  deriving DecidableEq, Repr

/-- The state byte. -/
def FlashqState.code : FlashqState → UInt8
  | pending => 0
  | inFlight => 1
  | delivered => 2
  | deadLetter => 3
  | removed => 4

/-! ## The record header -/

/-- `edgesync_flashq_record_hdr_t`. -/
structure RecordHdr where
  magic : UInt32
  seq : UInt32
  type : UInt8
  state : UInt8
  priority : UInt8
  reserved : UInt8
  messageId : UInt64
  attemptCount : UInt32
  createdAtUs : Int64
  lastAttemptAtUs : Int64
  nextRetryAtUs : Int64
  lastError : Int32
  destinationLen : UInt16
  bodyLen : UInt32
  headerCrc : UInt32
  deriving DecidableEq, Repr

/-- `edgesync_flashq_record_hdr_t hdr = {0}`. -/
def RecordHdr.zero : RecordHdr where
  magic := 0
  seq := 0
  type := 0
  state := 0
  priority := 0
  reserved := 0
  messageId := 0
  attemptCount := 0
  createdAtUs := 0
  lastAttemptAtUs := 0
  nextRetryAtUs := 0
  lastError := 0
  destinationLen := 0
  bodyLen := 0
  headerCrc := 0

/-- `EDGESYNC_FLASHQ_HDR_SIZE`. -/
def hdrSize : Nat := 62

/-- The packed layout. -/
def RecordHdr.toBytes (h : RecordHdr) : Bytes :=
  leBytes 4 h.magic.toNat ++ (leBytes 4 h.seq.toNat ++ ([h.type] ++ ([h.state] ++
    ([h.priority] ++ ([h.reserved] ++ (leBytes 8 h.messageId.toNat ++
    (leBytes 4 h.attemptCount.toNat ++ (leBytes 8 h.createdAtUs.toUInt64.toNat ++
    (leBytes 8 h.lastAttemptAtUs.toUInt64.toNat ++ (leBytes 8 h.nextRetryAtUs.toUInt64.toNat ++
    (leBytes 4 h.lastError.toUInt32.toNat ++ (leBytes 2 h.destinationLen.toNat ++
    (leBytes 4 h.bodyLen.toNat ++ leBytes 4 h.headerCrc.toNat)))))))))))))

/-- `memcpy(&hdr, buf, EDGESYNC_FLASHQ_HDR_SIZE)`. -/
def RecordHdr.ofBytes (bs : Bytes) : RecordHdr where
  magic := UInt32.ofNat (ofLe (slice bs 0 4))
  seq := UInt32.ofNat (ofLe (slice bs 4 4))
  type := UInt8.ofNat (ofLe (slice bs 8 1))
  state := UInt8.ofNat (ofLe (slice bs 9 1))
  priority := UInt8.ofNat (ofLe (slice bs 10 1))
  reserved := UInt8.ofNat (ofLe (slice bs 11 1))
  messageId := UInt64.ofNat (ofLe (slice bs 12 8))
  attemptCount := UInt32.ofNat (ofLe (slice bs 20 4))
  createdAtUs := Int64.ofUInt64 (UInt64.ofNat (ofLe (slice bs 24 8)))
  lastAttemptAtUs := Int64.ofUInt64 (UInt64.ofNat (ofLe (slice bs 32 8)))
  nextRetryAtUs := Int64.ofUInt64 (UInt64.ofNat (ofLe (slice bs 40 8)))
  lastError := Int32.ofUInt32 (UInt32.ofNat (ofLe (slice bs 48 4)))
  destinationLen := UInt16.ofNat (ofLe (slice bs 52 2))
  bodyLen := UInt32.ofNat (ofLe (slice bs 54 4))
  headerCrc := UInt32.ofNat (ofLe (slice bs 58 4))

/-- `edgesync_flashq_round4`: `(n + 3) & ~3`. -/
def round4 (n : Nat) : Nat := (n + 3) / 4 * 4

/-- `edgesync_flashq_record_total_size`. -/
def recordTotalSize (destinationLen : UInt16) (bodyLen : UInt32) : Nat :=
  round4 (hdrSize + destinationLen.toNat + bodyLen.toNat + 4)

/-- Destination and payload bytes of a record. -/
def RecordHdr.bodyBytes (h : RecordHdr) : Nat := h.destinationLen.toNat + h.bodyLen.toNat

/-- Bytes a record occupies. -/
def RecordHdr.totalSize (h : RecordHdr) : Nat := recordTotalSize h.destinationLen h.bodyLen

/-- `header_crc`. -/
def headerCrc (h : RecordHdr) : UInt32 := edgesyncCrc32 0 { h with headerCrc := 0 }.toBytes

/-! ## The region header -/

/-- `edgesync_flashq_region_hdr_t`, without its reserved bytes. -/
structure RegionHdr where
  magic : UInt32
  generation : UInt32
  status : UInt8
  deriving DecidableEq, Repr

/-- `EDGESYNC_FLASHQ_REGION_HDR_SIZE`. -/
def regionHdrSize : Nat := 12

/-- `offsetof(edgesync_flashq_region_hdr_t, status)`. -/
def statusOffset : Nat := 8

/-- The packed layout; `.reserved = {0}`. -/
def RegionHdr.toBytes (h : RegionHdr) : Bytes :=
  leBytes 4 h.magic.toNat ++ (leBytes 4 h.generation.toNat ++ ([h.status] ++ [0, 0, 0]))

/-- `memcpy(out_hdr, raw, sizeof(raw))`. -/
def RegionHdr.ofBytes (bs : Bytes) : RegionHdr where
  magic := UInt32.ofNat (ofLe (slice bs 0 4))
  generation := UInt32.ofNat (ofLe (slice bs 4 4))
  status := UInt8.ofNat (ofLe (slice bs 8 1))

/-! ## Encoding -/

/-- Where the payload of a record comes from. -/
inductive Body where
  /-- `NULL` -/
  | null
  /-- memory apart from the encode buffer -/
  | bytes (data : Bytes)
  /-- the encode buffer itself, from offset `off` on -/
  | slice (off : Nat)

/-- The `len` payload bytes, given what the encode buffer holds when they are
copied. -/
def Body.fetch (body : Body) (buf : Bytes) (len : Nat) : Bytes :=
  match body with
  | .null => []
  | .bytes data => data.take len
  | .slice off => Foundation.slice buf off len

/-- What an encoder leaves: the buffer, and `*out_len` or `false`. -/
structure Encoding where
  buf : Bytes
  outLen : Option Nat

/-- What its caller goes on with: the buffer and `*out_len`, or `false`. -/
def Encoding.written (e : Encoding) : Option (Bytes × Nat) := e.outLen.map (e.buf, ·)

/-- `encode_common`. -/
def encodeCommonInto (buf : Bytes) (bufCap : Nat) (hdr : RecordHdr) (destination : Bytes)
    (destinationLen : UInt16) (body : Body) (bodyLen : UInt32) : Encoding :=
  let total := recordTotalSize destinationLen bodyLen
  if bufCap < total then ⟨buf, none⟩
  else
    let hdr : RecordHdr :=
      { hdr with magic := recMagic, destinationLen := destinationLen, bodyLen := bodyLen,
                 headerCrc := 0 }
    let hdr : RecordHdr := { hdr with headerCrc := headerCrc hdr }
    let buf := overlay buf 0 (List.replicate total 0)
    let buf := overlay buf 0 hdr.toBytes
    let buf := overlay buf hdrSize (destination.take destinationLen.toNat)
    -- the payload is fetched only now: a slice of `buf` reads the cleared bytes
    let buf := overlay buf (hdrSize + destinationLen.toNat) (body.fetch buf bodyLen.toNat)
    let crc := edgesyncCrc32 0 (slice buf hdrSize (destinationLen.toNat + bodyLen.toNat))
    ⟨overlay buf (hdrSize + destinationLen.toNat + bodyLen.toNat) (leBytes 4 crc.toNat),
      some total⟩

/-- What `encode_common` writes. -/
def encodeCommon (buf : Bytes) (bufCap : Nat) (hdr : RecordHdr) (destination : Bytes)
    (destinationLen : UInt16) (body : Body) (bodyLen : UInt32) : Option (Bytes × Nat) :=
  (encodeCommonInto buf bufCap hdr destination destinationLen body bodyLen).written

/-- `edgesync_flashq_encode_message_full`. -/
def encodeMessageFullInto (buf : Bytes) (bufCap : Nat) (id : UInt64) (destination : Bytes)
    (priority state : UInt8) (attemptCount : UInt32)
    (createdAtUs lastAttemptAtUs nextRetryAtUs : Int64) (lastError : Int32)
    (payload : Body) (payloadLen seq : UInt32) : Encoding :=
  let destLen := strlen destination
  if destLen > maxDestinationLen then ⟨buf, none⟩
  else
    let hdr : RecordHdr :=
      { RecordHdr.zero with
        seq := seq
        type := RecordType.message.code
        state := state
        priority := priority
        messageId := id
        attemptCount := attemptCount
        createdAtUs := createdAtUs
        lastAttemptAtUs := lastAttemptAtUs
        nextRetryAtUs := nextRetryAtUs
        lastError := lastError }
    encodeCommonInto buf bufCap hdr destination (UInt16.ofNat destLen) payload payloadLen

/-- What `edgesync_flashq_encode_message_full` writes. -/
def encodeMessageFull (buf : Bytes) (bufCap : Nat) (id : UInt64) (destination : Bytes)
    (priority state : UInt8) (attemptCount : UInt32)
    (createdAtUs lastAttemptAtUs nextRetryAtUs : Int64) (lastError : Int32)
    (payload : Body) (payloadLen seq : UInt32) : Option (Bytes × Nat) :=
  (encodeMessageFullInto buf bufCap id destination priority state attemptCount createdAtUs
    lastAttemptAtUs nextRetryAtUs lastError payload payloadLen seq).written

/-- `edgesync_flashq_encode_message`. -/
def encodeMessageInto (buf : Bytes) (bufCap : Nat) (msg : EdgesyncMessage) (seq : UInt32) :
    Encoding :=
  encodeMessageFullInto buf bufCap msg.id msg.destination msg.priority FlashqState.pending.code 0
    msg.createdAtUs 0 0 0 (.bytes msg.payload) msg.payloadLen seq

/-- What `edgesync_flashq_encode_message` writes. -/
def encodeMessage (buf : Bytes) (bufCap : Nat) (msg : EdgesyncMessage) (seq : UInt32) :
    Option (Bytes × Nat) :=
  (encodeMessageInto buf bufCap msg seq).written

/-- `edgesync_flashq_encode_update`. -/
def encodeUpdateInto (buf : Bytes) (bufCap : Nat) (id : UInt64) (state : UInt8)
    (attemptCount : UInt32) (lastAttemptAtUs nextRetryAtUs : Int64) (lastError : Int32)
    (seq : UInt32) : Encoding :=
  let hdr : RecordHdr :=
    { RecordHdr.zero with
      seq := seq
      type := RecordType.update.code
      state := state
      messageId := id
      attemptCount := attemptCount
      lastAttemptAtUs := lastAttemptAtUs
      nextRetryAtUs := nextRetryAtUs
      lastError := lastError }
  encodeCommonInto buf bufCap hdr [] 0 .null 0

/-- What `edgesync_flashq_encode_update` writes. -/
def encodeUpdate (buf : Bytes) (bufCap : Nat) (id : UInt64) (state : UInt8)
    (attemptCount : UInt32) (lastAttemptAtUs nextRetryAtUs : Int64) (lastError : Int32)
    (seq : UInt32) : Option (Bytes × Nat) :=
  (encodeUpdateInto buf bufCap id state attemptCount lastAttemptAtUs nextRetryAtUs lastError
    seq).written

/-- `edgesync_flashq_encode_end`. -/
def encodeEndInto (buf : Bytes) (bufCap : Nat) (seq : UInt32) : Encoding :=
  encodeCommonInto buf bufCap
    { RecordHdr.zero with seq := seq, type := RecordType.endMarker.code } [] 0 .null 0

/-- What `edgesync_flashq_encode_end` writes. -/
def encodeEnd (buf : Bytes) (bufCap : Nat) (seq : UInt32) : Option (Bytes × Nat) :=
  (encodeEndInto buf bufCap seq).written

/-! ## Decoding -/

/-- `edgesync_flashq_decode_header`. -/
def decodeHeader (buf : Bytes) (bufLen : Nat) : Option RecordHdr :=
  if bufLen < hdrSize then none
  else
    let hdr := RecordHdr.ofBytes (buf.take hdrSize)
    if hdr.magic ≠ recMagic then none
    else if headerCrc hdr ≠ hdr.headerCrc then none
    else some hdr

/-- `edgesync_flashq_verify_body`. -/
def verifyBody (hdr : RecordHdr) (body : Bytes) (availableLen : Nat) : Bool :=
  if availableLen < hdr.bodyBytes + 4 then false
  else
    let expected := UInt32.ofNat (ofLe (slice body hdr.bodyBytes 4))
    let actual := edgesyncCrc32 0 (body.take hdr.bodyBytes)
    expected == actual

end EdgeSync
