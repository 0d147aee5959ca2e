/-
  Format/Codec.lean --- what the record codec computes.

  `recordBytes` is a record as one byte string.  The encoders write exactly that
  string to the front of their buffer (`encodeCommon_eq`), and the decoders accept
  it and return the header it was made from (`decodeHeader_recordBytes`,
  `verifyBody_recordBytes`).
-/
import EdgeSync.Format.Record

set_option autoImplicit false

namespace EdgeSync

open Foundation

/-! ## The header layout -/

@[simp] theorem RecordHdr.length_toBytes (h : RecordHdr) : h.toBytes.length = hdrSize := by
  simp [RecordHdr.toBytes, hdrSize]

@[simp] theorem RegionHdr.length_toBytes (h : RegionHdr) : h.toBytes.length = regionHdrSize := by
  simp [RegionHdr.toBytes, regionHdrSize]

/-- A field behind `x`. -/
theorem slice_skip {x y : Bytes} {off len : Nat} (n : Nat) (hn : x.length = n) (h : n ≤ off) :
    slice (x ++ y) off len = slice y (off - n) len := by
  rw [slice_append_right (by omega), hn]

section FieldRoundTrip

theorem u8_roundTrip (v : UInt8) : UInt8.ofNat (ofLe [v]) = v := by
  simp [ofLe]

theorem u16_roundTrip (v : UInt16) : UInt16.ofNat (ofLe (leBytes 2 v.toNat)) = v := by
  rw [ofLe_leBytes_of_lt (by have := v.toNat_lt; omega), UInt16.ofNat_toNat]

theorem u32_roundTrip (v : UInt32) : UInt32.ofNat (ofLe (leBytes 4 v.toNat)) = v := by
  rw [ofLe_leBytes_of_lt (by have := v.toNat_lt; omega), UInt32.ofNat_toNat]

theorem u64_roundTrip (v : UInt64) : UInt64.ofNat (ofLe (leBytes 8 v.toNat)) = v := by
  rw [ofLe_leBytes_of_lt (by have := v.toNat_lt; omega), UInt64.ofNat_toNat]

end FieldRoundTrip

theorem RecordHdr.ofBytes_toBytes (h : RecordHdr) : RecordHdr.ofBytes h.toBytes = h := by
  obtain ⟨magic, seq, type, state, priority, reserved, messageId, attemptCount, createdAtUs,
    lastAttemptAtUs, nextRetryAtUs, lastError, destinationLen, bodyLen, headerCrc⟩ := h
  have skip4 : ∀ {v : Nat} {y : Bytes} {off len : Nat}, 4 ≤ off →
      slice (leBytes 4 v ++ y) off len = slice y (off - 4) len :=
    fun h => slice_skip 4 (length_leBytes 4 _) h
  have skip8 : ∀ {v : Nat} {y : Bytes} {off len : Nat}, 8 ≤ off →
      slice (leBytes 8 v ++ y) off len = slice y (off - 8) len :=
    fun h => slice_skip 8 (length_leBytes 8 _) h
  have skip2 : ∀ {v : Nat} {y : Bytes} {off len : Nat}, 2 ≤ off →
      slice (leBytes 2 v ++ y) off len = slice y (off - 2) len :=
    fun h => slice_skip 2 (length_leBytes 2 _) h
  have skip1 : ∀ {b : UInt8} {y : Bytes} {off len : Nat}, 1 ≤ off →
      slice ([b] ++ y) off len = slice y (off - 1) len :=
    fun h => slice_skip 1 rfl h
  have take4 : ∀ {v : Nat} {y : Bytes}, slice (leBytes 4 v ++ y) 0 4 = leBytes 4 v :=
    slice_append_self (length_leBytes 4 _).symm
  have take8 : ∀ {v : Nat} {y : Bytes}, slice (leBytes 8 v ++ y) 0 8 = leBytes 8 v :=
    slice_append_self (length_leBytes 8 _).symm
  have take2 : ∀ {v : Nat} {y : Bytes}, slice (leBytes 2 v ++ y) 0 2 = leBytes 2 v :=
    slice_append_self (length_leBytes 2 _).symm
  have take1 : ∀ {b : UInt8} {y : Bytes}, slice ([b] ++ y) 0 1 = [b] :=
    slice_append_self rfl
  have last4 : ∀ {v : Nat}, slice (leBytes 4 v) 0 4 = leBytes 4 v := by
    intro v
    have h := slice_zero_length (leBytes 4 v)
    rwa [length_leBytes] at h
  simp (disch := omega) only [RecordHdr.ofBytes, RecordHdr.toBytes, skip4, skip8, skip2, skip1,
    take4, take8, take2, take1, last4, Nat.reduceSub, u8_roundTrip, u16_roundTrip, u32_roundTrip,
    u64_roundTrip]

/-- The header is a bijection between 62-byte strings and header structures. -/
theorem RecordHdr.toBytes_ofBytes {bs : Bytes} (h : bs.length = hdrSize) :
    (RecordHdr.ofBytes bs).toBytes = bs := by
  have field : ∀ off w, off + w ≤ 62 → leBytes w (ofLe (slice bs off w)) = slice bs off w :=
    fun off w hle => leBytes_ofLe_of_length (length_slice_of_le (by rw [h, hdrSize]; omega))
  have fit : ∀ off w, off + w ≤ 62 → ofLe (slice bs off w) < 256 ^ w := by
    intro off w hle
    have hlt := ofLe_lt (slice bs off w)
    rwa [length_slice_of_le (by rw [h, hdrSize]; omega)] at hlt
  have byte : ∀ off, off + 1 ≤ 62 → [UInt8.ofNat (ofLe (slice bs off 1))] = slice bs off 1 :=
    fun off hle => field off 1 hle
  have n16 : ∀ off, off + 2 ≤ 62 →
      (UInt16.ofNat (ofLe (slice bs off 2))).toNat = ofLe (slice bs off 2) :=
    fun off hle => UInt16.toNat_ofNat_of_lt' (fit off 2 hle)
  have n32 : ∀ off, off + 4 ≤ 62 →
      (UInt32.ofNat (ofLe (slice bs off 4))).toNat = ofLe (slice bs off 4) :=
    fun off hle => UInt32.toNat_ofNat_of_lt' (fit off 4 hle)
  have n64 : ∀ off, off + 8 ≤ 62 →
      (UInt64.ofNat (ofLe (slice bs off 8))).toNat = ofLe (slice bs off 8) :=
    fun off hle => UInt64.toNat_ofNat_of_lt' (fit off 8 hle)
  have whole : slice bs 0 62 = bs := by
    have hz := slice_zero_length bs
    rwa [h] at hz
  have i64 : ∀ v : UInt64, (Int64.ofUInt64 v).toUInt64 = v := fun _ => rfl
  have i32 : ∀ v : UInt32, (Int32.ofUInt32 v).toUInt32 = v := fun _ => rfl
  simp (disch := omega) only [RecordHdr.toBytes, RecordHdr.ofBytes, i64, i32, n16, n32, n64,
    field, byte]
  have glue : ∀ off m n, slice bs off m ++ slice bs (off + m) n = slice bs off (m + n) :=
    slice_append_slice bs
  rw [glue 54 4 4, glue 52 2 8, glue 48 4 10, glue 40 8 14, glue 32 8 22, glue 24 8 30,
    glue 20 4 38, glue 12 8 42, glue 11 1 50, glue 10 1 51, glue 9 1 52, glue 8 1 53,
    glue 4 4 54, glue 0 4 58]
  exact whole

/-! ## Sizes -/

theorem round4_mod (n : Nat) : round4 n % 4 = 0 := Nat.mul_mod_left _ _

theorem le_round4 (n : Nat) : n ≤ round4 n := by
  simp only [round4]
  omega

/-- Rounding does not leave an aligned interval. -/
theorem round4_le {n k : Nat} (h : n ≤ k) (hk : k % 4 = 0) : round4 n ≤ k := by
  simp only [round4]
  omega

theorem recordTotalSize_mod (dl : UInt16) (bl : UInt32) : recordTotalSize dl bl % 4 = 0 :=
  round4_mod _

/-- Bytes of a record up to and including its body CRC. -/
def RecordHdr.usedSize (h : RecordHdr) : Nat := hdrSize + h.bodyBytes + 4

theorem RecordHdr.totalSize_eq (h : RecordHdr) : h.totalSize = round4 h.usedSize := by
  simp only [RecordHdr.totalSize, recordTotalSize, RecordHdr.usedSize, RecordHdr.bodyBytes,
    Nat.add_assoc]

theorem RecordHdr.usedSize_le (h : RecordHdr) : h.usedSize ≤ h.totalSize := by
  rw [h.totalSize_eq]
  exact le_round4 _

theorem RecordHdr.totalSize_mod (h : RecordHdr) : h.totalSize % 4 = 0 := by
  rw [h.totalSize_eq]
  exact round4_mod _

/-- Bytes of a record without a body: UPDATE and END. -/
def updateSize : Nat := recordTotalSize 0 0

theorem updateSize_eq : updateSize = 68 := rfl

theorem RecordHdr.updateSize_le (h : RecordHdr) : 68 ≤ h.totalSize := by
  simp only [RecordHdr.totalSize, recordTotalSize, round4, hdrSize]
  omega

/-! ## Complete headers and records -/

/-- The header `encode_common` completes: magic, lengths and checksum filled in. -/
def RecordHdr.seal (h : RecordHdr) (dl : UInt16) (bl : UInt32) : RecordHdr :=
  let h : RecordHdr :=
    { h with magic := recMagic, destinationLen := dl, bodyLen := bl, headerCrc := 0 }
  { h with headerCrc := EdgeSync.headerCrc h }

/-- A header `decode_header` accepts. -/
def RecordHdr.Sealed (h : RecordHdr) : Prop :=
  h.magic = recMagic ∧ EdgeSync.headerCrc h = h.headerCrc

theorem RecordHdr.sealed_seal (h : RecordHdr) (dl : UInt16) (bl : UInt32) :
    (h.seal dl bl).Sealed := ⟨rfl, rfl⟩

/-- The whole record: header, destination and payload (`data`), CRC, padding. -/
def recordBytes (h : RecordHdr) (data : Bytes) : Bytes :=
  h.toBytes ++ (data ++ (leBytes 4 (edgesyncCrc32 0 data).toNat ++
    List.replicate (h.totalSize - h.usedSize) 0))

theorem length_recordBytes {h : RecordHdr} {data : Bytes} (hd : data.length = h.bodyBytes) :
    (recordBytes h data).length = h.totalSize := by
  have hle := h.usedSize_le
  simp only [recordBytes, List.length_append, RecordHdr.length_toBytes, hd, length_leBytes,
    List.length_replicate, RecordHdr.usedSize] at hle ⊢
  omega

/-! ## The encoder -/

theorem replicate_zeros (m n : Nat) :
    (List.replicate (m + n) 0 : Bytes) = List.replicate m 0 ++ List.replicate n 0 :=
  List.replicate_add m n 0

/-- `encode_common`, step by step. -/
theorem encodeCommon_def (buf : Bytes) (bufCap : Nat) (hdr : RecordHdr) (destination : Bytes)
    (dl : UInt16) (body : Body) (bl : UInt32) : encodeCommon buf bufCap hdr destination dl body bl =
      if bufCap < recordTotalSize dl bl then none
      else
        let b1 := overlay buf 0 (List.replicate (recordTotalSize dl bl) 0)
        let b2 := overlay b1 0 (hdr.seal dl bl).toBytes
        let b3 := overlay b2 hdrSize (destination.take dl.toNat)
        let b4 := overlay b3 (hdrSize + dl.toNat) (body.fetch b3 bl.toNat)
        some (overlay b4 (hdrSize + dl.toNat + bl.toNat)
          (leBytes 4 (edgesyncCrc32 0 (slice b4 hdrSize (dl.toNat + bl.toNat))).toNat),
          recordTotalSize dl bl) := by
  rw [encodeCommon, encodeCommonInto]
  simp only []
  split <;> rfl

/-- What `encode_common` computes.  The payload is fetched from a buffer whose
bytes behind the destination have been cleared. -/
theorem encodeCommon_eq {buf : Bytes} {bufCap : Nat} {hdr : RecordHdr} {destination : Bytes}
    {dl : UInt16} {body : Body} {bl : UInt32} (hcap : recordTotalSize dl bl ≤ bufCap)
    (hdest : dl.toNat ≤ destination.length)
    {payload : Bytes}
    (hpayload : body.fetch ((hdr.seal dl bl).toBytes ++ (destination.take dl.toNat ++
      (List.replicate (recordTotalSize dl bl - hdrSize - dl.toNat) 0 ++
        buf.drop (recordTotalSize dl bl)))) bl.toNat = payload)
    (hlen : payload.length = bl.toNat) :
    encodeCommon buf bufCap hdr destination dl body bl =
      some (recordBytes (hdr.seal dl bl) (destination.take dl.toNat ++ payload) ++
        buf.drop (recordTotalSize dl bl), recordTotalSize dl bl) := by
  have hused : hdrSize + dl.toNat + bl.toNat + 4 ≤ recordTotalSize dl bl := le_round4 _
  obtain ⟨pad, hpad⟩ := Nat.exists_eq_add_of_le hused
  have htake : (destination.take dl.toNat).length = dl.toNat := by
    rw [List.length_take, Nat.min_eq_left hdest]
  -- the cleared buffer, cut at the field boundaries
  have hclear : overlay buf 0 (List.replicate (recordTotalSize dl bl) 0) =
      (List.replicate hdrSize 0 : Bytes) ++ (List.replicate dl.toNat 0 ++
        (List.replicate bl.toNat 0 ++ (List.replicate 4 0 ++
          (List.replicate pad 0 ++ buf.drop (recordTotalSize dl bl))))) := by
    rw [overlay, List.take_zero, List.nil_append, List.length_replicate, Nat.zero_add]
    conv => lhs; rw [hpad, replicate_zeros, replicate_zeros, replicate_zeros, replicate_zeros]
    simp only [List.append_assoc, ← hpad]
  have hzeros : (List.replicate (recordTotalSize dl bl - hdrSize - dl.toNat) 0 : Bytes) =
      List.replicate bl.toNat 0 ++ (List.replicate 4 0 ++ List.replicate pad 0) := by
    rw [← replicate_zeros, ← replicate_zeros]
    congr 1
    omega
  rw [hzeros] at hpayload
  have hhdr : ∀ z : Bytes, overlay ((List.replicate hdrSize 0 : Bytes) ++ z) 0
      (hdr.seal dl bl).toBytes = (hdr.seal dl bl).toBytes ++ z := fun z =>
    overlay_append_zero (by simp)
  have hdst : ∀ z : Bytes, overlay ((hdr.seal dl bl).toBytes ++
      ((List.replicate dl.toNat 0 : Bytes) ++ z)) hdrSize (destination.take dl.toNat) =
      (hdr.seal dl bl).toBytes ++ (destination.take dl.toNat ++ z) := fun z =>
    overlay_append (by simp) (by simp [htake])
  have hbody : ∀ z : Bytes, overlay ((hdr.seal dl bl).toBytes ++ (destination.take dl.toNat ++
      ((List.replicate bl.toNat 0 : Bytes) ++ z))) (hdrSize + dl.toNat) payload =
      (hdr.seal dl bl).toBytes ++ (destination.take dl.toNat ++ (payload ++ z)) := fun z => by
    rw [← List.append_assoc, overlay_append (by simp [htake]) (by simp [hlen]),
      List.append_assoc]
  have hcrc : ∀ z data : Bytes, data.length = 4 → overlay ((hdr.seal dl bl).toBytes ++
      (destination.take dl.toNat ++ (payload ++ ((List.replicate 4 0 : Bytes) ++ z))))
      (hdrSize + dl.toNat + bl.toNat) data =
      (hdr.seal dl bl).toBytes ++ (destination.take dl.toNat ++ (payload ++ (data ++ z))) :=
    fun z data hdata => by
    have hx : ((hdr.seal dl bl).toBytes ++ (destination.take dl.toNat ++ payload)).length =
        hdrSize + dl.toNat + bl.toNat := by
      simp [htake, hlen]
      omega
    have hy : (List.replicate 4 0 : Bytes).length = data.length := by simp [hdata]
    simpa only [List.append_assoc] using overlay_append (z := z) hx hy
  have hslice : ∀ z : Bytes, slice ((hdr.seal dl bl).toBytes ++ (destination.take dl.toNat ++
      (payload ++ z))) hdrSize (dl.toNat + bl.toNat) = destination.take dl.toNat ++ payload :=
    fun z => by
    rw [slice_append_right (by simp), RecordHdr.length_toBytes, Nat.sub_self,
      ← List.append_assoc, slice_append_self (by simp [htake, hlen])]
  have hpad' : (hdr.seal dl bl).totalSize - (hdr.seal dl bl).usedSize = pad := by
    have h1 : (hdr.seal dl bl).totalSize = recordTotalSize dl bl := rfl
    have h2 : (hdr.seal dl bl).usedSize = hdrSize + dl.toNat + bl.toNat + 4 := by
      simp only [RecordHdr.usedSize, RecordHdr.bodyBytes, RecordHdr.seal, Nat.add_assoc]
    omega
  simp only [List.append_assoc] at hpayload
  rw [encodeCommon_def, if_neg (Nat.not_lt.mpr hcap)]
  simp only [hclear, hhdr, hdst, hpayload, hbody, hslice, hcrc _ _ (length_leBytes 4 _),
    recordBytes, hpad', List.append_assoc]

/-- A buffer smaller than the record is refused. -/
theorem encodeCommon_none {buf : Bytes} {bufCap : Nat} {hdr : RecordHdr} {destination : Bytes}
    {dl : UInt16} {body : Body} {bl : UInt32} (hcap : bufCap < recordTotalSize dl bl) :
    encodeCommon buf bufCap hdr destination dl body bl = none := by
  simp [encodeCommon, encodeCommonInto, Encoding.written, hcap]

/-- The sealed header of a MESSAGE record. -/
def messageHdr (id : UInt64) (destination : Bytes) (priority state : UInt8)
    (attemptCount : UInt32) (createdAtUs lastAttemptAtUs nextRetryAtUs : Int64)
    (lastError : Int32) (payloadLen seq : UInt32) : RecordHdr :=
  RecordHdr.seal
    { RecordHdr.zero with
      seq := seq
      type := RecordType.message.code
      state := state
      priority := priority
      messageId := id
      attemptCount := attemptCount
      createdAtUs := createdAtUs
      lastAttemptAtUs := lastAttemptAtUs
      nextRetryAtUs := nextRetryAtUs
      lastError := lastError }
    (UInt16.ofNat (strlen destination)) payloadLen

/-- The sealed header of an UPDATE record. -/
def updateHdr (id : UInt64) (state : UInt8) (attemptCount : UInt32)
    (lastAttemptAtUs nextRetryAtUs : Int64) (lastError : Int32) (seq : UInt32) : RecordHdr :=
  RecordHdr.seal
    { RecordHdr.zero with
      seq := seq
      type := RecordType.update.code
      state := state
      messageId := id
      attemptCount := attemptCount
      lastAttemptAtUs := lastAttemptAtUs
      nextRetryAtUs := nextRetryAtUs
      lastError := lastError } 0 0

/-- The sealed header of an END record. -/
def endHdr (seq : UInt32) : RecordHdr :=
  RecordHdr.seal { RecordHdr.zero with seq := seq, type := RecordType.endMarker.code } 0 0

theorem strlen_toNat {destination : Bytes} (h : strlen destination ≤ maxDestinationLen) :
    (UInt16.ofNat (strlen destination)).toNat = strlen destination := by
  apply UInt16.toNat_ofNat_of_lt'
  simp only [maxDestinationLen] at h
  simp only [UInt16.size]
  omega

section Encoders

variable {buf : Bytes} {bufCap : Nat} {id : UInt64} {destination : Bytes} {priority state : UInt8}
  {attemptCount : UInt32} {createdAtUs lastAttemptAtUs nextRetryAtUs : Int64} {lastError : Int32}
  {payloadLen seq : UInt32}

/-- The common part of the MESSAGE encoder's cases. -/
theorem encodeMessageFull_of_fetch {payload : Body} {data : Bytes}
    (hdest : strlen destination ≤ maxDestinationLen)
    (hcap : recordTotalSize (UInt16.ofNat (strlen destination)) payloadLen ≤ bufCap)
    (hfetch : ∀ x : Bytes, x.length = hdrSize + strlen destination → ∀ z : Bytes,
      payload.fetch (x ++ ((List.replicate payloadLen.toNat 0 : Bytes) ++ z)) payloadLen.toNat
        = data)
    (hlen : data.length = payloadLen.toNat) :
    encodeMessageFull buf bufCap id destination priority state attemptCount createdAtUs
        lastAttemptAtUs nextRetryAtUs lastError payload payloadLen seq =
      some (recordBytes (messageHdr id destination priority state attemptCount createdAtUs
          lastAttemptAtUs nextRetryAtUs lastError payloadLen seq) (cString destination ++ data) ++
        buf.drop (recordTotalSize (UInt16.ofNat (strlen destination)) payloadLen),
        recordTotalSize (UInt16.ofNat (strlen destination)) payloadLen) := by
  have hdl := strlen_toNat hdest
  have hle := strlen_le_length destination
  have hused : hdrSize + strlen destination + payloadLen.toNat + 4 ≤
      recordTotalSize (UInt16.ofNat (strlen destination)) payloadLen := by
    rw [recordTotalSize, hdl]
    exact le_round4 _
  obtain ⟨pad, hpad⟩ := Nat.exists_eq_add_of_le hused
  have hz : (List.replicate (recordTotalSize (UInt16.ofNat (strlen destination)) payloadLen -
      hdrSize - strlen destination) 0 : Bytes) =
      List.replicate payloadLen.toNat 0 ++ List.replicate (4 + pad) 0 := by
    rw [← replicate_zeros]
    congr 1
    omega
  rw [encodeMessageFull, encodeMessageFullInto, if_neg (Nat.not_lt.mpr hdest)]
  change encodeCommon _ _ _ _ _ _ _ = _
  rw [encodeCommon_eq hcap (by rw [hdl]; exact hle) ?_ hlen, hdl,
    ← cString_eq_take]
  · rfl
  · rw [hdl, ← cString_eq_take, hz, List.append_assoc, ← List.append_assoc (RecordHdr.toBytes _)]
    apply hfetch
    rw [List.length_append, RecordHdr.length_toBytes, strlen_eq_length_cString]

/-- `encode_message_full` with a payload in other memory. -/
theorem encodeMessageFull_eq {payload : Bytes} (hdest : strlen destination ≤ maxDestinationLen)
    (hcap : recordTotalSize (UInt16.ofNat (strlen destination)) payloadLen ≤ bufCap)
    (hlen : payload.length = payloadLen.toNat) :
    encodeMessageFull buf bufCap id destination priority state attemptCount createdAtUs
        lastAttemptAtUs nextRetryAtUs lastError (.bytes payload) payloadLen seq =
      some (recordBytes (messageHdr id destination priority state attemptCount createdAtUs
          lastAttemptAtUs nextRetryAtUs lastError payloadLen seq) (cString destination ++ payload) ++
        buf.drop (recordTotalSize (UInt16.ofNat (strlen destination)) payloadLen),
        recordTotalSize (UInt16.ofNat (strlen destination)) payloadLen) := by
  apply encodeMessageFull_of_fetch hdest hcap (fun x hx z => ?_) hlen
  rw [Body.fetch, ← hlen, List.take_length]

/-- `encode_message_full` with a payload that lies in the encode buffer where the
record's own payload goes: the cleared bytes are encoded, not the payload. -/
theorem encodeMessageFull_slice (hdest : strlen destination ≤ maxDestinationLen)
    (hcap : recordTotalSize (UInt16.ofNat (strlen destination)) payloadLen ≤ bufCap) :
    encodeMessageFull buf bufCap id destination priority state attemptCount createdAtUs
        lastAttemptAtUs nextRetryAtUs lastError (.slice (hdrSize + strlen destination))
        payloadLen seq =
      some (recordBytes (messageHdr id destination priority state attemptCount createdAtUs
          lastAttemptAtUs nextRetryAtUs lastError payloadLen seq)
          (cString destination ++ List.replicate payloadLen.toNat 0) ++
        buf.drop (recordTotalSize (UInt16.ofNat (strlen destination)) payloadLen),
        recordTotalSize (UInt16.ofNat (strlen destination)) payloadLen) := by
  apply encodeMessageFull_of_fetch hdest hcap (fun x hx z => ?_) (by simp)
  rw [Body.fetch, slice_append_right (by omega), hx, Nat.sub_self, slice_append_self (by simp)]

theorem encodeMessageFull_none_of_dest {payload : Body}
    (hdest : maxDestinationLen < strlen destination) :
    encodeMessageFull buf bufCap id destination priority state attemptCount createdAtUs
      lastAttemptAtUs nextRetryAtUs lastError payload payloadLen seq = none := by
  simp [encodeMessageFull, encodeMessageFullInto, Encoding.written, hdest]

theorem encodeMessageFull_none_of_cap {payload : Body}
    (hcap : bufCap < recordTotalSize (UInt16.ofNat (strlen destination)) payloadLen) :
    encodeMessageFull buf bufCap id destination priority state attemptCount createdAtUs
      lastAttemptAtUs nextRetryAtUs lastError payload payloadLen seq = none := by
  rw [encodeMessageFull, encodeMessageFullInto]
  simp only []
  split
  · rfl
  · exact encodeCommon_none hcap

theorem encodeUpdate_eq (hcap : updateSize ≤ bufCap) :
    encodeUpdate buf bufCap id state attemptCount lastAttemptAtUs nextRetryAtUs lastError seq =
      some (recordBytes (updateHdr id state attemptCount lastAttemptAtUs nextRetryAtUs lastError
        seq) [] ++ buf.drop updateSize, updateSize) :=
  encodeCommon_eq hcap (Nat.zero_le _) rfl rfl

theorem encodeEnd_eq (hcap : updateSize ≤ bufCap) :
    encodeEnd buf bufCap seq =
      some (recordBytes (endHdr seq) [] ++ buf.drop updateSize, updateSize) :=
  encodeCommon_eq hcap (Nat.zero_le _) rfl rfl

end Encoders

/-! ## The decoders -/

theorem decodeHeader_eq_some {buf : Bytes} {n : Nat} {h : RecordHdr} :
    decodeHeader buf n = some h ↔
      hdrSize ≤ n ∧ RecordHdr.ofBytes (buf.take hdrSize) = h ∧ h.Sealed := by
  unfold decodeHeader
  by_cases hn : n < hdrSize
  · rw [if_pos hn]
    exact ⟨nofun, fun hh => absurd hh.1 (by omega)⟩
  rw [if_neg hn]
  by_cases hm : (RecordHdr.ofBytes (buf.take hdrSize)).magic = recMagic
  · by_cases hc : EdgeSync.headerCrc (RecordHdr.ofBytes (buf.take hdrSize)) =
        (RecordHdr.ofBytes (buf.take hdrSize)).headerCrc
    · simp only [hm, hc, ne_eq, not_true_eq_false, if_false, Option.some.injEq]
      constructor
      · rintro rfl
        exact ⟨by omega, rfl, hm, hc⟩
      · rintro ⟨_, hh, _⟩
        exact hh
    · simp only [hm, hc, ne_eq, not_true_eq_false, not_false_eq_true, if_false, if_true,
        reduceCtorEq, false_iff, not_and]
      rintro _ rfl hs
      exact hc hs.2
  · simp only [hm, ne_eq, not_false_eq_true, if_true, reduceCtorEq, false_iff, not_and]
    rintro _ rfl hs
    exact hm hs.1

/-- The decoder accepts a sealed header, whatever follows it. -/
theorem decodeHeader_toBytes {h : RecordHdr} (hs : h.Sealed) {buf rest : Bytes} {n : Nat}
    (hbuf : buf = h.toBytes ++ rest) (hn : hdrSize ≤ n) : decodeHeader buf n = some h := by
  subst hbuf
  refine decodeHeader_eq_some.mpr ⟨hn, ?_, hs⟩
  rw [List.take_left' (RecordHdr.length_toBytes h), RecordHdr.ofBytes_toBytes]

/-- The body check accepts the bytes it was computed for. -/
theorem verifyBody_of_data {h : RecordHdr} {data rest : Bytes} {n : Nat}
    (hd : data.length = h.bodyBytes) (hn : h.bodyBytes + 4 ≤ n) :
    verifyBody h (data ++ (leBytes 4 (edgesyncCrc32 0 data).toNat ++ rest)) n = true := by
  have hcrc : slice (data ++ (leBytes 4 (edgesyncCrc32 0 data).toNat ++ rest)) h.bodyBytes 4 =
      leBytes 4 (edgesyncCrc32 0 data).toNat := by
    rw [slice_append_right (by omega), hd, Nat.sub_self, slice_append_self (by simp)]
  rw [verifyBody, if_neg (by omega), hcrc, u32_roundTrip, List.take_left' hd]
  simp

/-- The body check looks at the body and its CRC only. -/
theorem verifyBody_append {h : RecordHdr} {x : Bytes} (hx : x.length = h.bodyBytes + 4)
    (rest : Bytes) (n : Nat) : verifyBody h (x ++ rest) n = verifyBody h x n := by
  unfold verifyBody
  rw [slice_append_left (by omega), List.take_append_of_le_length (by omega)]

end EdgeSync
