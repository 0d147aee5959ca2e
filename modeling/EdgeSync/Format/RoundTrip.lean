/-
  Format/RoundTrip.lean --- what an encoder writes is what the readers read.

  The four encoders are the constructors of `EncodeCall`.  `RoundTrip` lists what
  the rest of the program relies on: the two decoders, the offsets that claim and
  compaction compute by hand, and the encoder itself, given what was decoded.
-/
import EdgeSync.Format.Codec

set_option autoImplicit false

namespace EdgeSync

open Foundation

/-! ## Calls of the encoders -/

/-- A call of an encoder, without its buffer. -/
inductive EncodeCall where
  /-- `edgesync_flashq_encode_message_full` -/
  | messageFull (id : UInt64) (destination : Bytes) (priority state : UInt8)
      (attemptCount : UInt32) (createdAtUs lastAttemptAtUs nextRetryAtUs : Int64)
      (lastError : Int32) (payload : Bytes) (payloadLen seq : UInt32)
  /-- `edgesync_flashq_encode_message` -/
  | message (msg : EdgesyncMessage) (seq : UInt32)
  /-- `edgesync_flashq_encode_update` -/
  | update (id : UInt64) (state : UInt8) (attemptCount : UInt32)
      (lastAttemptAtUs nextRetryAtUs : Int64) (lastError : Int32) (seq : UInt32)
  /-- `edgesync_flashq_encode_end` -/
  | endMarker (seq : UInt32)

namespace EncodeCall

/-- The call on a buffer. -/
def into (buf : Bytes) (bufCap : Nat) : EncodeCall → Encoding
  | messageFull id destination priority state attemptCount createdAtUs lastAttemptAtUs
      nextRetryAtUs lastError payload payloadLen seq =>
      encodeMessageFullInto buf bufCap id destination priority state attemptCount createdAtUs
        lastAttemptAtUs nextRetryAtUs lastError (.bytes payload) payloadLen seq
  | message msg seq => encodeMessageInto buf bufCap msg seq
  | update id state attemptCount lastAttemptAtUs nextRetryAtUs lastError seq =>
      encodeUpdateInto buf bufCap id state attemptCount lastAttemptAtUs nextRetryAtUs lastError seq
  | endMarker seq => encodeEndInto buf bufCap seq

/-- What it writes. -/
def run (buf : Bytes) (bufCap : Nat) (call : EncodeCall) : Option (Bytes × Nat) :=
  (call.into buf bufCap).written

/-- The destination of the record. -/
def destination : EncodeCall → Bytes
  | messageFull _ destination .. => cString destination
  | message msg _ => cString msg.destination
  | update .. => []
  | endMarker _ => []

/-- The payload of the record. -/
def payload : EncodeCall → Bytes
  | messageFull _ _ _ _ _ _ _ _ _ payload .. => payload
  | message msg _ => msg.payload
  | update .. => []
  | endMarker _ => []

/-- The header fields the caller determines. -/
def fields : EncodeCall → RecordHdr
  | messageFull id destination priority state attemptCount createdAtUs lastAttemptAtUs
      nextRetryAtUs lastError _ payloadLen seq =>
      { RecordHdr.zero with
        seq := seq
        type := RecordType.message.code
        state := state
        priority := priority
        messageId := id
        attemptCount := attemptCount
        createdAtUs := createdAtUs
        lastAttemptAtUs := lastAttemptAtUs
        nextRetryAtUs := nextRetryAtUs
        lastError := lastError
        destinationLen := UInt16.ofNat (strlen destination)
        bodyLen := payloadLen }
  | message msg seq =>
      { RecordHdr.zero with
        seq := seq
        type := RecordType.message.code
        state := FlashqState.pending.code
        priority := msg.priority
        messageId := msg.id
        createdAtUs := msg.createdAtUs
        destinationLen := UInt16.ofNat (strlen msg.destination)
        bodyLen := msg.payloadLen }
  | update id state attemptCount lastAttemptAtUs nextRetryAtUs lastError seq =>
      { RecordHdr.zero with
        seq := seq
        type := RecordType.update.code
        state := state
        messageId := id
        attemptCount := attemptCount
        lastAttemptAtUs := lastAttemptAtUs
        nextRetryAtUs := nextRetryAtUs
        lastError := lastError }
  | endMarker seq => { RecordHdr.zero with seq := seq, type := RecordType.endMarker.code }

/-- `edgesync_flashq_record_total_size` of the record. -/
def total (call : EncodeCall) : Nat :=
  recordTotalSize call.fields.destinationLen call.fields.bodyLen

/-- The caller passes `payload_len` bytes of payload. -/
def Sized : EncodeCall → Prop
  | messageFull _ _ _ _ _ _ _ _ _ payload payloadLen _ => payload.length = payloadLen.toNat
  | message msg _ => msg.payload.length < UInt32.size
  | update .. => True
  | endMarker _ => True

/-- The header as it is written. -/
def header (call : EncodeCall) : RecordHdr :=
  call.fields.seal call.fields.destinationLen call.fields.bodyLen

/-- Destination and payload as they are written. -/
def data (call : EncodeCall) : Bytes := call.destination ++ call.payload

theorem sealed_header (call : EncodeCall) : call.header.Sealed := RecordHdr.sealed_seal _ _ _

variable {call : EncodeCall}

theorem payload_length (hs : call.Sized) : call.payload.length = call.header.bodyLen.toNat := by
  cases call with
  | messageFull => exact hs
  | message msg seq => exact (UInt32.toNat_ofNat_of_lt' hs).symm
  | update => rfl
  | endMarker => rfl

theorem destination_length (hd : call.destination.length ≤ maxDestinationLen) :
    call.destination.length = call.header.destinationLen.toNat := by
  cases call with
  | messageFull => exact (strlen_toNat hd).symm
  | message => exact (strlen_toNat hd).symm
  | update => rfl
  | endMarker => rfl

theorem data_length (hs : call.Sized) (hd : call.destination.length ≤ maxDestinationLen) :
    call.data.length = call.header.bodyBytes := by
  rw [data, List.length_append, destination_length hd, payload_length hs, RecordHdr.bodyBytes]

/-- An accepted call. -/
theorem run_eq {buf : Bytes} {bufCap : Nat} (hs : call.Sized)
    (hd : call.destination.length ≤ maxDestinationLen) (hcap : call.total ≤ bufCap) :
    call.run buf bufCap =
      some (recordBytes call.header call.data ++ buf.drop call.total, call.total) := by
  cases call with
  | messageFull => exact encodeMessageFull_eq hd hcap hs
  | message msg seq => exact encodeMessageFull_eq hd hcap (payload_length hs)
  | update => exact encodeUpdate_eq hcap
  | endMarker => exact encodeEnd_eq hcap

/-- A refused one. -/
theorem run_none {buf : Bytes} {bufCap : Nat}
    (h : maxDestinationLen < call.destination.length ∨ bufCap < call.total) :
    call.run buf bufCap = none := by
  rcases h with h | h
  · cases call with
    | messageFull => exact encodeMessageFull_none_of_dest h
    | message => exact encodeMessageFull_none_of_dest h
    | update => exact absurd h (Nat.not_lt_zero _)
    | endMarker => exact absurd h (Nat.not_lt_zero _)
  · cases call with
    | messageFull => exact encodeMessageFull_none_of_cap h
    | message => exact encodeMessageFull_none_of_cap h
    | update => exact encodeCommon_none h
    | endMarker => exact encodeCommon_none h

theorem run_some {buf buf' : Bytes} {bufCap outLen : Nat} (hs : call.Sized)
    (h : call.run buf bufCap = some (buf', outLen)) :
    call.destination.length ≤ maxDestinationLen ∧ call.total ≤ bufCap ∧
      buf' = recordBytes call.header call.data ++ buf.drop call.total ∧ outLen = call.total := by
  by_cases hd : call.destination.length ≤ maxDestinationLen
  · by_cases hcap : call.total ≤ bufCap
    · rw [run_eq hs hd hcap, Option.some.injEq, Prod.mk.injEq] at h
      exact ⟨hd, hcap, h.1.symm, h.2.symm⟩
    · rw [run_none (.inr (Nat.not_le.mp hcap))] at h
      exact absurd h nofun
  · rw [run_none (.inl (Nat.not_le.mp hd))] at h
    exact absurd h nofun

theorem encodeCommonInto_untouched {buf : Bytes} {bufCap : Nat} {hdr : RecordHdr}
    {destination : Bytes} {dl : UInt16} {body : Body} {bl : UInt32}
    (h : (encodeCommonInto buf bufCap hdr destination dl body bl).outLen = none) :
    (encodeCommonInto buf bufCap hdr destination dl body bl).buf = buf := by
  rw [encodeCommonInto] at h ⊢
  simp only [] at h ⊢
  split at h
  case isTrue hcap => rw [if_pos hcap]
  case isFalse => cases h

/-- A refused call has not touched the buffer. -/
theorem into_untouched {buf : Bytes} {bufCap : Nat} (h : (call.into buf bufCap).outLen = none) :
    (call.into buf bufCap).buf = buf := by
  have hfull : ∀ {id destination priority state attemptCount createdAtUs lastAttemptAtUs
      nextRetryAtUs lastError payload payloadLen seq},
      (encodeMessageFullInto buf bufCap id destination priority state attemptCount createdAtUs
        lastAttemptAtUs nextRetryAtUs lastError payload payloadLen seq).outLen = none →
      (encodeMessageFullInto buf bufCap id destination priority state attemptCount createdAtUs
        lastAttemptAtUs nextRetryAtUs lastError payload payloadLen seq).buf = buf := by
    intro id destination priority state attemptCount createdAtUs lastAttemptAtUs nextRetryAtUs
      lastError payload payloadLen seq h
    rw [encodeMessageFullInto] at h ⊢
    simp only [] at h ⊢
    split at h
    case isTrue hdest => rw [if_pos hdest]
    case isFalse hdest =>
      rw [if_neg hdest]
      exact encodeCommonInto_untouched h
  cases call with
  | messageFull => exact hfull h
  | message => exact hfull h
  | update => exact encodeCommonInto_untouched h
  | endMarker => exact encodeCommonInto_untouched h

/-- The call that encodes a decoded record again, as compaction makes it. -/
def again (h : RecordHdr) (destination payload : Bytes) : EncodeCall :=
  if h.type = RecordType.message.code then
    messageFull h.messageId destination h.priority h.state h.attemptCount h.createdAtUs
      h.lastAttemptAtUs h.nextRetryAtUs h.lastError payload h.bodyLen h.seq
  else if h.type = RecordType.update.code then
    update h.messageId h.state h.attemptCount h.lastAttemptAtUs h.nextRetryAtUs h.lastError h.seq
  else endMarker h.seq

/-! ## Reading the record -/

variable {record rest : Bytes} {n : Nat}

theorem decode_record (hn : hdrSize ≤ n) :
    decodeHeader (recordBytes call.header call.data ++ rest) n = some call.header :=
  decodeHeader_toBytes call.sealed_header (List.append_assoc _ _ _) hn

/-- What follows the header. -/
theorem drop_record (rest : Bytes) :
    (recordBytes call.header call.data ++ rest).drop hdrSize =
      call.data ++ (leBytes 4 (edgesyncCrc32 0 call.data).toNat ++
        (List.replicate (call.header.totalSize - call.header.usedSize) 0 ++ rest)) := by
  rw [recordBytes, List.append_assoc, List.drop_left' (RecordHdr.length_toBytes _)]
  simp only [List.append_assoc]

theorem slice_destination (hd : call.destination.length ≤ maxDestinationLen) :
    slice (recordBytes call.header call.data ++ rest) hdrSize call.header.destinationLen.toNat =
      call.destination := by
  rw [slice, drop_record, data, List.append_assoc]
  exact List.take_left' (destination_length hd)

theorem slice_payload (hs : call.Sized) (hd : call.destination.length ≤ maxDestinationLen) :
    slice (recordBytes call.header call.data ++ rest)
      (hdrSize + call.header.destinationLen.toNat) call.header.bodyLen.toNat = call.payload := by
  rw [slice, ← List.drop_drop, drop_record, data, List.append_assoc,
    List.drop_left' (destination_length hd)]
  exact List.take_left' (payload_length hs)

theorem verify_record (hs : call.Sized) (hd : call.destination.length ≤ maxDestinationLen) :
    verifyBody call.header ((recordBytes call.header call.data ++ rest).drop hdrSize) n = true ↔
      call.header.bodyBytes + 4 ≤ n := by
  rw [drop_record]
  constructor
  · intro h
    by_contra hlt
    rw [verifyBody, if_pos (by omega)] at h
    exact Bool.noConfusion h
  · exact verifyBody_of_data (data_length hs hd)

/-- Behind the checksum there are zeros only. -/
theorem padding_zero (hs : call.Sized) (hd : call.destination.length ≤ maxDestinationLen)
    {i : Nat} (hlo : hdrSize + call.header.bodyBytes + 4 ≤ i) (hhi : i < call.total) :
    (recordBytes call.header call.data)[i]? = some 0 := by
  have hlen := data_length hs hd
  have hhdr := RecordHdr.length_toBytes call.header
  have htotal : call.total = call.header.totalSize := rfl
  rw [recordBytes, List.getElem?_append_right (by omega), hhdr,
    List.getElem?_append_right (by omega), hlen,
    List.getElem?_append_right (by rw [length_leBytes]; omega), length_leBytes,
    List.getElem?_replicate, if_pos (by simp only [RecordHdr.usedSize]; omega)]

/-- The encoder, called with what was read, makes the call that was made. -/
theorem again_record (hs : call.Sized) (hd : call.destination.length ≤ maxDestinationLen) :
    (again call.header call.destination call.payload).Sized ∧
      (again call.header call.destination call.payload).destination = call.destination ∧
      (again call.header call.destination call.payload).payload = call.payload ∧
      (again call.header call.destination call.payload).fields = call.fields := by
  have hself : ∀ s : Bytes, cString (cString s) = cString s := fun s =>
    cString_eq_self fun b hb => ne_zero_of_mem_cString hb
  cases call with
  | messageFull id destination =>
    have hstr : strlen (cString destination) = strlen destination :=
      congrArg List.length (hself destination)
    refine ⟨hs, hself _, rfl, ?_⟩
    simp only [again, header, fields, RecordHdr.seal, EncodeCall.destination, if_true, hstr]
  | message msg seq =>
    have hstr : strlen (cString msg.destination) = strlen msg.destination :=
      congrArg List.length (hself msg.destination)
    refine ⟨@payload_length ( .message msg seq) hs, hself _, rfl, ?_⟩
    simp only [again, header, fields, RecordHdr.seal, EncodeCall.destination, if_true, hstr,
      RecordHdr.zero]
  | update => exact ⟨trivial, rfl, rfl, rfl⟩
  | endMarker => exact ⟨trivial, rfl, rfl, rfl⟩

end EncodeCall

/-- What holds of a buffer `buf` into which the call has written `outLen` bytes. -/
structure RoundTrip (call : EncodeCall) (bufCap : Nat) (buf : Bytes) (outLen : Nat) : Prop where
  total : outLen = recordTotalSize call.fields.destinationLen call.fields.bodyLen
  aligned : outLen % 4 = 0
  fits : outLen ≤ bufCap
  /-- whatever follows the record, the header comes back with every field -/
  decodes : ∀ rest n, hdrSize ≤ n → ∃ crc, decodeHeader (buf.take outLen ++ rest) n =
    some { call.fields with magic := recMagic, headerCrc := crc }
  verifies : ∀ rest n h, decodeHeader (buf.take outLen ++ rest) n = some h → ∀ available,
    (verifyBody h ((buf.take outLen ++ rest).drop hdrSize) available = true ↔
      h.destinationLen.toNat + h.bodyLen.toNat + 4 ≤ available)
  /-- the offsets of claim and compaction -/
  reads : ∀ rest n h, decodeHeader (buf.take outLen ++ rest) n = some h →
    slice (buf.take outLen ++ rest) hdrSize h.destinationLen.toNat = call.destination ∧
    slice (buf.take outLen ++ rest) (hdrSize + h.destinationLen.toNat) h.bodyLen.toNat =
      call.payload
  padding : ∀ i, hdrSize + call.destination.length + call.payload.length + 4 ≤ i → i < outLen →
    buf[i]? = some 0
  /-- encoding what was decoded gives the bytes again -/
  reencodes : ∀ n h, decodeHeader (buf.take outLen) n = some h → ∀ other otherCap,
    outLen ≤ otherCap → (EncodeCall.again h call.destination call.payload).run other otherCap =
      some (buf.take outLen ++ other.drop outLen, outLen)

/-- The codec: a call is refused, without a trace in the buffer, exactly when the
destination is too long or the buffer too small, and what it writes otherwise comes
back from every reader. -/
theorem codec_round_trip (call : EncodeCall) (hs : call.Sized) (buf : Bytes) (bufCap : Nat) :
    ((call.into buf bufCap).outLen = none ↔
      maxDestinationLen < call.destination.length ∨ bufCap < call.total) ∧
    ((call.into buf bufCap).outLen = none → (call.into buf bufCap).buf = buf) ∧
    ∀ outLen, (call.into buf bufCap).outLen = some outLen →
      RoundTrip call bufCap (call.into buf bufCap).buf outLen := by
  have hnone : (call.into buf bufCap).outLen = none ↔ call.run buf bufCap = none :=
    Option.map_eq_none_iff.symm
  refine ⟨⟨fun h => ?_, fun h => hnone.mpr (EncodeCall.run_none h)⟩, EncodeCall.into_untouched,
    fun outLen hlen => ?_⟩
  · have hrun := hnone.mp h
    by_contra hno
    rw [EncodeCall.run_eq hs (by omega) (by omega)] at hrun
    cases hrun
  · have h : call.run buf bufCap = some ((call.into buf bufCap).buf, outLen) := by
      rw [EncodeCall.run, Encoding.written, hlen]
      rfl
    generalize (call.into buf bufCap).buf = buf' at h ⊢
    obtain ⟨hd, hcap, rfl, rfl⟩ := EncodeCall.run_some hs h
    have hlen : (recordBytes call.header call.data).length = call.total :=
      length_recordBytes (EncodeCall.data_length hs hd)
    have htake : (recordBytes call.header call.data ++ buf.drop call.total).take call.total =
        recordBytes call.header call.data := List.take_left' hlen
    -- whatever is decoded is the header that was encoded
    have hdec : ∀ rest n hdr, decodeHeader (recordBytes call.header call.data ++ rest) n =
        some hdr → hdr = call.header := by
      intro rest n hdr hh
      rw [EncodeCall.decode_record (decodeHeader_eq_some.mp hh).1] at hh
      exact (Option.some.inj hh).symm
    refine ⟨rfl, recordTotalSize_mod _ _, hcap, fun rest n hn => ?_, fun rest n hdr hh => ?_,
      fun rest n hdr hh => ?_, fun i hlo hhi => ?_, fun n hdr hh other otherCap hother => ?_⟩
    · rw [htake]
      exact ⟨call.header.headerCrc, EncodeCall.decode_record hn⟩
    · rw [htake] at hh ⊢
      rw [hdec rest n hdr hh]
      exact fun available => EncodeCall.verify_record hs hd
    · rw [htake] at hh ⊢
      rw [hdec rest n hdr hh]
      exact ⟨EncodeCall.slice_destination hd, EncodeCall.slice_payload hs hd⟩
    · rw [List.getElem?_append_left (by omega)]
      refine EncodeCall.padding_zero hs hd ?_ hhi
      rw [← EncodeCall.data_length hs hd, EncodeCall.data, List.length_append]
      omega
    · rw [htake] at hh ⊢
      have hhdr : hdr = call.header := hdec [] n hdr (by rwa [List.append_nil])
      obtain ⟨hs', hd', hp', hf'⟩ := EncodeCall.again_record hs hd
      have htotal : (EncodeCall.again call.header call.destination call.payload).total =
          call.total := by rw [EncodeCall.total, hf', EncodeCall.total]
      have hheader : (EncodeCall.again call.header call.destination call.payload).header =
          call.header := by rw [EncodeCall.header, hf', EncodeCall.header]
      have hdata : (EncodeCall.again call.header call.destination call.payload).data =
          call.data := by rw [EncodeCall.data, hd', hp', EncodeCall.data]
      rw [hhdr, EncodeCall.run_eq hs' (by rwa [hd']) (by rwa [htotal]), htotal, hheader, hdata]

/-- A small message. -/
def smallCall : EncodeCall := .message ⟨7, [116, 111], 1, 5, [1, 2, 3]⟩ 9

theorem smallCall_sized : smallCall.Sized := by
  show 3 < UInt32.size
  decide

theorem smallCall_run : smallCall.run [] 72 =
    some (recordBytes smallCall.header smallCall.data, 72) := by
  have h := @EncodeCall.run_eq smallCall [] 72 smallCall_sized (by decide) (by decide)
  rwa [List.drop_nil, List.append_nil] at h

theorem smallCall_into : (smallCall.into [] 72).outLen = some 72 ∧
    (smallCall.into [] 72).buf = recordBytes smallCall.header smallCall.data := by
  have h := smallCall_run
  rw [EncodeCall.run, Encoding.written] at h
  obtain ⟨n, hlen, hpair⟩ := Option.map_eq_some_iff.mp h
  obtain ⟨hbuf, rfl⟩ := Prod.mk.inj hpair
  exact ⟨hlen, hbuf⟩

theorem codec_round_trip_small : RoundTrip smallCall 72 (smallCall.into [] 72).buf 72 ∧
    (smallCall.into [] 72).buf = recordBytes smallCall.header smallCall.data ∧
    (smallCall.into [1, 2] 2).buf = [1, 2] := by
  have hsmall := codec_round_trip smallCall smallCall_sized [1, 2] 2
  exact ⟨(codec_round_trip smallCall smallCall_sized [] 72).2.2 72 smallCall_into.1,
    smallCall_into.2, hsmall.2.1 (hsmall.1.mpr (.inr (by decide)))⟩

end EdgeSync
