/-
  Format/Accepted.lean --- whatever an encoder writes is accepted.

  The encoders refuse a destination that is too long and a record that does not fit.  What
  they write otherwise has its full length, and the decoders accept it, whatever the payload
  is and wherever it lies.
-/
import EdgeSync.Format.Codec

set_option autoImplicit false

namespace EdgeSync

open Foundation

/-- Writing behind a part of a buffer leaves it alone. -/
theorem take_overlay {buf data : Bytes} {off n : Nat} (hn : n ≤ off) (h : off ≤ buf.length) :
    (overlay buf off data).take n = buf.take n := by
  rw [overlay, List.append_assoc, List.take_append_of_le_length (by rw [List.length_take]; omega),
    List.take_take, Nat.min_eq_left hn]

theorem length_le_overlay {buf data : Bytes} {off : Nat} (h : off ≤ buf.length) :
    buf.length ≤ (overlay buf off data).length := by
  simp only [overlay, List.length_append, List.length_take, List.length_drop]
  omega

/-- What was written is read back. -/
theorem slice_overlay {buf data : Bytes} {off : Nat} (h : off ≤ buf.length) :
    slice (overlay buf off data) off data.length = data := by
  rw [overlay, List.append_assoc,
    slice_append_right (Nat.le_of_eq (by rw [List.length_take]; omega)), List.length_take,
    Nat.min_eq_left h, Nat.sub_self, slice_append_self rfl]

/-- A buffer that begins with a header and ends with the checksum of its body is accepted. -/
theorem accepted_of_parts {b out : Bytes} {h : RecordHdr} {total : Nat} (hs : h.Sealed)
    (hhead : b.take hdrSize = h.toBytes) (htotal : total ≤ b.length)
    (hfit : hdrSize + h.bodyBytes + 4 ≤ total)
    (hout : out = (overlay b (hdrSize + h.bodyBytes)
      (leBytes 4 (edgesyncCrc32 0 (slice b hdrSize h.bodyBytes)).toNat)).take total) :
    out.length = total ∧ decodeHeader out total = some h ∧
      verifyBody h (out.drop hdrSize) (total - hdrSize) = true := by
  have hoff : hdrSize + h.bodyBytes ≤ b.length := by omega
  generalize hcrc : leBytes 4 (edgesyncCrc32 0 (slice b hdrSize h.bodyBytes)).toNat = crc at hout
  have hlen : out.length = total := by
    have := @length_le_overlay b crc _ hoff
    rw [hout, List.length_take]
    omega
  have htake : ∀ n, n ≤ hdrSize + h.bodyBytes → out.take n = b.take n := by
    intro n hn
    rw [hout, List.take_take, Nat.min_eq_left (by omega), take_overlay hn hoff]
  refine ⟨hlen, decodeHeader_eq_some.mpr ⟨by omega, ?_, hs⟩, ?_⟩
  · rw [htake _ (Nat.le_add_right _ _), hhead, RecordHdr.ofBytes_toBytes]
  · have hbody : (out.drop hdrSize).take h.bodyBytes = slice b hdrSize h.bodyBytes := by
      have hpart := congrArg (List.drop hdrSize) (htake (hdrSize + h.bodyBytes) (Nat.le_refl _))
      rwa [List.drop_take, List.drop_take, Nat.add_sub_cancel_left] at hpart
    have htail : slice (out.drop hdrSize) h.bodyBytes 4 = crc := by
      have hread := @slice_overlay b crc _ hoff
      rw [← hcrc, length_leBytes, hcrc] at hread
      rw [slice, List.drop_drop, hout, List.drop_take, List.take_take, Nat.min_eq_left (by omega)]
      exact hread
    rw [verifyBody, if_neg (by omega), hbody, htail, ← hcrc, u32_roundTrip]
    exact beq_self_eq_true _

/-- What an encoder writes is accepted. -/
theorem encodeCommon_accepted {buf buf' : Bytes} {bufCap outLen : Nat} {hdr : RecordHdr}
    {destination : Bytes} {dl : UInt16} {body : Body} {bl : UInt32}
    (h : encodeCommon buf bufCap hdr destination dl body bl = some (buf', outLen)) :
    (buf'.take outLen).length = outLen ∧ outLen ≤ bufCap ∧
    decodeHeader (buf'.take outLen) outLen = some (hdr.seal dl bl) ∧
    verifyBody (hdr.seal dl bl) ((buf'.take outLen).drop hdrSize) (outLen - hdrSize) = true := by
  have hdef : encodeCommon buf bufCap hdr destination dl body bl =
      if bufCap < recordTotalSize dl bl then none
      else
        let b1 := overlay buf 0 (List.replicate (recordTotalSize dl bl) 0)
        let b2 := overlay b1 0 (hdr.seal dl bl).toBytes
        let b3 := overlay b2 hdrSize (destination.take dl.toNat)
        let b4 := overlay b3 (hdrSize + dl.toNat) (body.fetch b3 bl.toNat)
        some (overlay b4 (hdrSize + (hdr.seal dl bl).bodyBytes)
          (leBytes 4 (edgesyncCrc32 0 (slice b4 hdrSize (hdr.seal dl bl).bodyBytes)).toNat),
          recordTotalSize dl bl) := by
    rw [RecordHdr.bodyBytes, ← Nat.add_assoc]
    exact encodeCommon_def buf bufCap hdr destination dl body bl
  rw [hdef] at h
  split at h
  case isTrue => cases h
  case isFalse hcap =>
    obtain ⟨rfl, rfl⟩ := Prod.mk.inj (Option.some.inj h)
    have hused : hdrSize + (hdr.seal dl bl).bodyBytes + 4 ≤ recordTotalSize dl bl := by
      have := le_round4 (hdrSize + dl.toNat + bl.toNat + 4)
      rw [← recordTotalSize] at this
      rw [RecordHdr.bodyBytes, ← Nat.add_assoc]
      exact this
    generalize htotal : recordTotalSize dl bl = total at *
    -- a part that is written behind the header leaves the header alone
    have hnext : ∀ {b : Bytes} {off : Nat} (data : Bytes), hdrSize ≤ off → off ≤ total →
        b.take hdrSize = (hdr.seal dl bl).toBytes ∧ total ≤ b.length →
        (overlay b off data).take hdrSize = (hdr.seal dl bl).toBytes ∧
          total ≤ (overlay b off data).length := by
      intro b off data hoff hle hb
      have hlen : off ≤ b.length := hle.trans hb.2
      exact ⟨(take_overlay hoff hlen).trans hb.1, hb.2.trans (length_le_overlay hlen)⟩
    have hclear : total ≤ (overlay buf 0 (List.replicate total 0)).length := by
      simp only [overlay, List.length_append, List.length_replicate, List.length_take,
        List.length_drop]
      omega
    have hfirst : (overlay (overlay buf 0 (List.replicate total 0)) 0
        (hdr.seal dl bl).toBytes).take hdrSize = (hdr.seal dl bl).toBytes ∧
        total ≤ (overlay (overlay buf 0 (List.replicate total 0)) 0
          (hdr.seal dl bl).toBytes).length := by
      refine ⟨?_, hclear.trans (length_le_overlay (Nat.zero_le _))⟩
      have := @slice_overlay (overlay buf 0 (List.replicate total 0)) (hdr.seal dl bl).toBytes 0
        (Nat.zero_le _)
      rwa [RecordHdr.length_toBytes] at this
    have hdl : hdrSize + dl.toNat ≤ total := by
      have : (hdr.seal dl bl).bodyBytes = dl.toNat + bl.toNat := rfl
      omega
    obtain ⟨hhead, hlen⟩ := hnext (body.fetch (overlay _ hdrSize (destination.take dl.toNat)) bl.toNat)
      (Nat.le_add_right _ dl.toNat) hdl (hnext (destination.take dl.toNat) (Nat.le_refl _) (by omega)
        hfirst)
    obtain ⟨h1, h2⟩ := accepted_of_parts (hdr.sealed_seal dl bl) hhead hlen hused rfl
    exact ⟨h1, Nat.not_lt.mp hcap, h2⟩

/-- The encoder takes what it is given. -/
theorem encodeMessageFull_isSome {buf : Bytes} {bufCap : Nat} {id : UInt64} {destination : Bytes}
    {priority state : UInt8} {attemptCount : UInt32}
    {createdAtUs lastAttemptAtUs nextRetryAtUs : Int64} {lastError : Int32} {payload : Body}
    {payloadLen seq : UInt32} (hd : strlen destination ≤ maxDestinationLen)
    (hcap : recordTotalSize (UInt16.ofNat (strlen destination)) payloadLen ≤ bufCap) :
    ∃ out, encodeMessageFull buf bufCap id destination priority state attemptCount createdAtUs
      lastAttemptAtUs nextRetryAtUs lastError payload payloadLen seq = some out := by
  rw [encodeMessageFull, encodeMessageFullInto]
  simp only [if_neg (Nat.not_lt.mpr hd)]
  rw [encodeCommonInto]
  simp only [if_neg (Nat.not_lt.mpr hcap)]
  exact ⟨_, rfl⟩

/-- What is encoded has the length of its record. -/
theorem encodeMessageFull_length {buf buf' : Bytes} {bufCap outLen : Nat} {id : UInt64}
    {destination : Bytes} {priority state : UInt8} {attemptCount : UInt32}
    {createdAtUs lastAttemptAtUs nextRetryAtUs : Int64} {lastError : Int32} {payload : Body}
    {payloadLen seq : UInt32}
    (h : encodeMessageFull buf bufCap id destination priority state attemptCount createdAtUs
      lastAttemptAtUs nextRetryAtUs lastError payload payloadLen seq = some (buf', outLen)) :
    (buf'.take outLen).length = outLen ∧
      outLen = recordTotalSize (UInt16.ofNat (strlen destination)) payloadLen := by
  rw [encodeMessageFull, encodeMessageFullInto] at h
  simp only [] at h
  split at h
  case isTrue => cases h
  case isFalse =>
    refine ⟨(encodeCommon_accepted h).1, ?_⟩
    rw [encodeCommonInto] at h
    simp only [] at h
    split at h
    case isTrue => cases h
    case isFalse =>
      obtain ⟨-, hlen⟩ := Prod.mk.inj (Option.some.inj h)
      exact hlen.symm

end EdgeSync
