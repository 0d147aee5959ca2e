/-
  Format/Detection.lean --- the checksums detect every burst of up to four bytes.

  One step of the CRC register is a linear and invertible map of the register.
  Linear: what two byte strings do to the register differs by what their
  difference does to it (`foldl_crc32Byte_xor`).  Invertible: a difference of the
  registers never dies out again (`foldl_crc32Byte_injective`), and up to four
  bytes of difference, which fill no more than the register, never cancel in it
  (`burst_zero`).  The decoders inherit this through the bytes they checksum.
-/
import Mathlib.Data.List.Induction
import Mathlib.Data.Nat.Bitwise
import EdgeSync.Format.RoundTrip

set_option autoImplicit false

namespace EdgeSync

open Foundation

/-! ## One step of the register -/

theorem toNat_and_one (c : UInt32) : (c &&& 1).toNat = c.toNat % 2 := by
  rw [UInt32.toNat_and]
  exact Nat.and_one_is_mod _

/-- The mask is all ones or all zeros, by the low bit. -/
theorem crc32Bit_eq (c : UInt32) :
    crc32Bit c = if c.toNat % 2 = 0 then c >>> 1 else (c >>> 1) ^^^ crc32Poly := by
  unfold crc32Bit
  rcases Nat.mod_two_eq_zero_or_one c.toNat with h | h
  · have hz : c &&& 1 = 0 := UInt32.toNat_inj.mp (by rw [toNat_and_one, h]; rfl)
    rw [hz, if_pos h]
    simp
  · have hone : c &&& 1 = 1 := UInt32.toNat_inj.mp (by rw [toNat_and_one, h]; rfl)
    have hmask : crc32Poly &&& (0 - 1) = crc32Poly := by decide
    rw [hone, if_neg (by omega), hmask]

theorem crc32Bit_xor (a b : UInt32) : crc32Bit (a ^^^ b) = crc32Bit a ^^^ crc32Bit b := by
  have hshift : (a ^^^ b) >>> 1 = (a >>> 1) ^^^ (b >>> 1) := UInt32.shiftRight_xor
  have hlow : (a ^^^ b).toNat % 2 = (a.toNat % 2 + b.toNat % 2) % 2 := by
    rw [UInt32.toNat_xor, Nat.xor_mod_two_eq, Nat.add_mod]
  have hpoly : crc32Poly ^^^ crc32Poly = 0 := UInt32.xor_self
  rw [crc32Bit_eq, crc32Bit_eq, crc32Bit_eq, hlow, hshift]
  rcases Nat.mod_two_eq_zero_or_one a.toNat with ha | ha <;>
    rcases Nat.mod_two_eq_zero_or_one b.toNat with hb | hb <;>
    simp only [ha, hb, Nat.reduceAdd, Nat.reduceMod, if_true, one_ne_zero, if_false]
  · rw [UInt32.xor_assoc]
  · rw [UInt32.xor_assoc, UInt32.xor_assoc, UInt32.xor_comm crc32Poly]
  · rw [UInt32.xor_assoc, ← UInt32.xor_assoc crc32Poly, UInt32.xor_comm crc32Poly,
      UInt32.xor_assoc, hpoly, UInt32.xor_zero]

/-- The polynomial sets the top bit, so a result without it came from an even
register, which was halved. -/
theorem crc32Bit_low {c : UInt32} (h : (crc32Bit c).toNat < 2 ^ 31) :
    c.toNat = 2 * (crc32Bit c).toNat := by
  have hhalf : (c >>> 1).toNat = c.toNat / 2 := by
    rw [UInt32.toNat_shiftRight]
    exact Nat.shiftRight_eq_div_pow _ 1
  rw [crc32Bit_eq] at h ⊢
  by_cases heven : c.toNat % 2 = 0
  · rw [if_pos heven, hhalf]
    omega
  · rw [if_neg heven, UInt32.toNat_xor, hhalf] at h
    have hfit : c.toNat / 2 < 2 ^ 31 := by
      have := c.toNat_lt
      omega
    have htop : (c.toNat / 2 ^^^ crc32Poly.toNat).testBit 31 = true := by
      rw [Nat.testBit_xor, Nat.testBit_lt_two_pow hfit]
      rfl
    rw [Nat.testBit_lt_two_pow h] at htop
    exact absurd htop (by decide)

/-! ## One byte -/

theorem crc32Byte_xor (c c' : UInt32) (b b' : UInt8) :
    crc32Byte c b ^^^ crc32Byte c' b' = crc32Byte (c ^^^ c') (b ^^^ b') := by
  have hin : (c ^^^ c') ^^^ (b ^^^ b').toUInt32 = (c ^^^ b.toUInt32) ^^^ (c' ^^^ b'.toUInt32) := by
    rw [UInt8.toUInt32_xor]
    ac_rfl
  unfold crc32Byte
  rw [hin]
  simp only [crc32Bit_xor]

/-- A result that leaves the top byte clear is the register, eight bits down. -/
theorem crc32Byte_low {c : UInt32} {b : UInt8} (h : (crc32Byte c b).toNat < 2 ^ 24) :
    (c ^^^ b.toUInt32).toNat = 256 * (crc32Byte c b).toNat := by
  unfold crc32Byte at h ⊢
  generalize c ^^^ b.toUInt32 = x at h ⊢
  have h1 := @crc32Bit_low (crc32Bit (crc32Bit (crc32Bit (crc32Bit (crc32Bit (crc32Bit
    (crc32Bit x))))))) (by omega)
  have h2 := @crc32Bit_low (crc32Bit (crc32Bit (crc32Bit (crc32Bit (crc32Bit (crc32Bit x))))))
    (by omega)
  have h3 := @crc32Bit_low (crc32Bit (crc32Bit (crc32Bit (crc32Bit (crc32Bit x))))) (by omega)
  have h4 := @crc32Bit_low (crc32Bit (crc32Bit (crc32Bit (crc32Bit x)))) (by omega)
  have h5 := @crc32Bit_low (crc32Bit (crc32Bit (crc32Bit x))) (by omega)
  have h6 := @crc32Bit_low (crc32Bit (crc32Bit x)) (by omega)
  have h7 := @crc32Bit_low (crc32Bit x) (by omega)
  have h8 := @crc32Bit_low x (by omega)
  omega

theorem crc32Byte_zero_zero : crc32Byte 0 0 = 0 := by decide

/-! ## Byte strings -/

theorem foldl_crc32Byte_xor {xs ys : Bytes} (h : xs.length = ys.length) (c c' : UInt32) :
    xs.foldl crc32Byte c ^^^ ys.foldl crc32Byte c' =
      (List.zipWith (· ^^^ ·) xs ys).foldl crc32Byte (c ^^^ c') := by
  induction xs generalizing ys c c' with
  | nil =>
    cases ys with
    | nil => rfl
    | cons y ys => simp at h
  | cons x xs ih =>
    cases ys with
    | nil => simp at h
    | cons y ys =>
      rw [List.foldl_cons, List.foldl_cons, ih (by simpa using h), crc32Byte_xor,
        List.zipWith_cons_cons, List.foldl_cons]

theorem crc32Byte_injective (b : UInt8) {c c' : UInt32} (h : crc32Byte c b = crc32Byte c' b) :
    c = c' := by
  have hx : crc32Byte (c ^^^ c') (b ^^^ b) = 0 := by
    rw [← crc32Byte_xor, h, UInt32.xor_self]
  have hlow := @crc32Byte_low (c ^^^ c') (b ^^^ b) (by rw [hx]; decide)
  rw [hx, UInt8.xor_self] at hlow
  have hzero : (c ^^^ c') ^^^ (0 : UInt8).toUInt32 = 0 := UInt32.toNat_inj.mp hlow
  exact UInt32.xor_eq_zero_iff.mp (by simpa using hzero)

/-- A difference of the registers survives whatever both then read. -/
theorem foldl_crc32Byte_injective (xs : Bytes) {c c' : UInt32}
    (h : xs.foldl crc32Byte c = xs.foldl crc32Byte c') : c = c' := by
  induction xs generalizing c c' with
  | nil => exact h
  | cons x xs ih => exact crc32Byte_injective x (ih h)

theorem foldl_crc32Byte_zero {ds : Bytes} (h : ∀ d ∈ ds, d = 0) : ds.foldl crc32Byte 0 = 0 := by
  induction ds with
  | nil => rfl
  | cons d ds ih =>
    rw [List.foldl_cons, h d List.mem_cons_self, crc32Byte_zero_zero]
    exact ih fun x hx => h x (List.mem_cons_of_mem _ hx)

/-- Up to four bytes of difference never cancel: read backwards, a register with
`k` bytes left was reached from one with `k + 1`. -/
theorem burst_zero {ds : Bytes} {k : Nat} (hlen : ds.length + k ≤ 4)
    (h : (ds.foldl crc32Byte 0).toNat < 256 ^ k) (hk : k < 4) : ∀ d ∈ ds, d = 0 := by
  induction ds using List.reverseRecOn generalizing k with
  | nil => exact fun d hd => absurd hd List.not_mem_nil
  | append_singleton ds d ih =>
    rw [List.length_append, List.length_singleton] at hlen
    rw [List.foldl_append, List.foldl_cons, List.foldl_nil] at h
    have hpow : 256 ^ k ≤ 256 ^ 3 := Nat.pow_le_pow_right (by decide) (by omega)
    have hlow := crc32Byte_low (Nat.lt_of_lt_of_le h hpow)
    have hbyte : d.toUInt32.toNat < 256 := by
      rw [UInt8.toNat_toUInt32]
      exact d.toNat_lt
    have hup : 256 ^ (k + 1) = 256 * 256 ^ k := by rw [Nat.pow_succ, Nat.mul_comm]
    have hstate : ds.foldl crc32Byte 0 =
        (ds.foldl crc32Byte 0 ^^^ d.toUInt32) ^^^ d.toUInt32 := by
      rw [UInt32.xor_assoc, UInt32.xor_self, UInt32.xor_zero]
    have hprev : (ds.foldl crc32Byte 0).toNat < 256 ^ (k + 1) := by
      have hpow2 : 256 ^ (k + 1) = 2 ^ (8 * (k + 1)) := by rw [Nat.pow_mul]
      rw [hstate, UInt32.toNat_xor, hpow2]
      apply Nat.xor_lt_two_pow
      · rw [← hpow2, hlow]
        omega
      · rw [← hpow2]
        have h256 : 256 ^ 1 ≤ 256 ^ (k + 1) := Nat.pow_le_pow_right (by decide) (by omega)
        omega
    have hrest : ∀ x ∈ ds, x = 0 := by
      rcases Nat.lt_or_ge (k + 1) 4 with hk' | hk'
      · exact ih (by omega) hprev hk'
      · have hnil : ds = [] := List.eq_nil_of_length_eq_zero (by omega)
        simp [hnil]
    have hlast : d = 0 := by
      rw [foldl_crc32Byte_zero hrest, UInt32.zero_xor] at hlow
      rw [UInt8.toNat_toUInt32] at hlow hbyte
      exact UInt8.toNat_inj.mp (by rw [UInt8.toNat_zero]; omega)
    intro x hx
    rcases List.mem_append.mp hx with hx | hx
    · exact hrest x hx
    · rw [List.mem_singleton.mp hx, hlast]

/-! ## Bursts -/

/-- `damaged` is `bytes` with `len` bytes from `off` on replaced, not all by
themselves. -/
def Burst (off len : Nat) (bytes damaged : Bytes) : Prop :=
  ∃ front w w' rest, bytes = front ++ (w ++ rest) ∧ damaged = front ++ (w' ++ rest) ∧
    front.length = off ∧ w.length = len ∧ w'.length = len ∧ w' ≠ w

namespace Burst

variable {off len k : Nat} {bytes damaged : Bytes}

theorem ne (h : Burst off len bytes damaged) : damaged ≠ bytes := by
  obtain ⟨front, w, w', rest, rfl, rfl, _, hw, hw', hne⟩ := h
  intro heq
  exact hne (List.append_inj (List.append_cancel_left heq) (by omega)).1

theorem append (h : Burst off len bytes damaged) (more : Bytes) :
    Burst off len (bytes ++ more) (damaged ++ more) := by
  obtain ⟨front, w, w', rest, rfl, rfl, hf⟩ := h
  exact ⟨front, w, w', rest ++ more, by simp only [List.append_assoc],
    by simp only [List.append_assoc], hf⟩

/-- A burst in front of `k`. -/
theorem take (h : Burst off len bytes damaged) (hk : off + len ≤ k) :
    Burst off len (bytes.take k) (damaged.take k) ∧ damaged.drop k = bytes.drop k := by
  obtain ⟨front, w, w', rest, rfl, rfl, hf, hw, hw', hne⟩ := h
  refine ⟨⟨front, w, w', rest.take (k - off - len), ?_, ?_, hf, hw, hw', hne⟩, ?_⟩
  · rw [List.take_append, List.take_append, List.take_of_length_le (by omega),
      List.take_of_length_le (by omega), hf, hw]
  · rw [List.take_append, List.take_append, List.take_of_length_le (by omega),
      List.take_of_length_le (by omega), hf, hw']
  · have hword : w.drop (k - off) = [] := List.drop_eq_nil_of_le (by omega)
    have hword' : w'.drop (k - off) = [] := List.drop_eq_nil_of_le (by omega)
    simp only [List.drop_append, hf, hw, hw', hword, hword']

/-- A burst behind `k`. -/
theorem drop (h : Burst off len bytes damaged) (hk : k ≤ off) :
    damaged.take k = bytes.take k ∧ Burst (off - k) len (bytes.drop k) (damaged.drop k) := by
  obtain ⟨front, w, w', rest, rfl, rfl, hf, hw⟩ := h
  refine ⟨?_, front.drop k, w, w', rest, ?_, ?_, ?_, hw⟩
  · rw [List.take_append_of_le_length (by omega), List.take_append_of_le_length (by omega)]
  · rw [List.drop_append_of_le_length (by omega)]
  · rw [List.drop_append_of_le_length (by omega)]
  · rw [List.length_drop, hf]

/-- Up to four bytes change the checksum. -/
theorem crc_ne (h : Burst off len bytes damaged) (hlen : len ≤ 4) (seed : UInt32) :
    edgesyncCrc32 seed damaged ≠ edgesyncCrc32 seed bytes := by
  obtain ⟨front, w, w', rest, rfl, rfl, _, hw, hw', hne⟩ := h
  intro h
  have hstate : (front ++ (w' ++ rest)).foldl crc32Byte (~~~seed) =
      (front ++ (w ++ rest)).foldl crc32Byte (~~~seed) := by
    have h' := congrArg (~~~ ·) h
    simpa only [edgesyncCrc32, UInt32.not_not] using h'
  simp only [List.foldl_append] at hstate
  have hmid := foldl_crc32Byte_injective rest hstate
  have hzero := foldl_crc32Byte_xor (hw'.trans hw.symm) (front.foldl crc32Byte (~~~seed))
    (front.foldl crc32Byte (~~~seed))
  rw [hmid, UInt32.xor_self, UInt32.xor_self] at hzero
  have hds := @burst_zero (List.zipWith (· ^^^ ·) w' w) 0
    (by simp only [List.length_zipWith]; omega) (by rw [← hzero]; decide) (by decide)
  apply hne
  apply List.ext_getElem (hw'.trans hw.symm)
  intro i hi hi'
  have hmem : w'[i] ^^^ w[i] ∈ List.zipWith (· ^^^ ·) w' w :=
    List.mem_iff_getElem.mpr ⟨i, by simp only [List.length_zipWith]; omega, by simp⟩
  exact UInt8.xor_eq_zero_iff.mp (hds _ hmem)

end Burst

/-! ## The header -/

/-- `offsetof(edgesync_flashq_record_hdr_t, header_crc)`. -/
def headerCrcOffset : Nat := 58

/-- The checksum is over the fields in front of it and four zeros. -/
theorem headerCrc_ofBytes {bs : Bytes} (h : bs.length = hdrSize) :
    headerCrc (RecordHdr.ofBytes bs) = edgesyncCrc32 0 (bs.take headerCrcOffset ++ [0, 0, 0, 0]) := by
  have hback := RecordHdr.toBytes_ofBytes h
  generalize RecordHdr.ofBytes bs = hdr at hback
  subst hback
  have hzero : leBytes 4 (0 : UInt32).toNat = [0, 0, 0, 0] := by decide
  unfold headerCrc
  congr 1
  simp only [RecordHdr.toBytes, hzero, ← List.append_assoc]
  rw [List.take_left' (by simp [headerCrcOffset])]

theorem headerCrc_field {bs : Bytes} :
    (RecordHdr.ofBytes bs).headerCrc = UInt32.ofNat (ofLe (slice bs headerCrcOffset 4)) := rfl

/-- Four bytes are determined by the number they denote. -/
theorem u32_injective {x y : Bytes} (hx : x.length = 4) (hy : y.length = 4)
    (h : UInt32.ofNat (ofLe x) = UInt32.ofNat (ofLe y)) : x = y := by
  have hlt := ofLe_lt x
  have hlt' := ofLe_lt y
  rw [hx] at hlt
  rw [hy] at hlt'
  have h' := congrArg UInt32.toNat h
  rw [UInt32.toNat_ofNat_of_lt' hlt, UInt32.toNat_ofNat_of_lt' hlt'] at h'
  rw [← leBytes_ofLe_of_length hx, ← leBytes_ofLe_of_length hy, h']

section Decoders

variable {off len n : Nat} {buf damaged : Bytes} {h : RecordHdr}

/-- What `decode_header` has checked. -/
theorem decoded_crc (hbuf : hdrSize ≤ buf.length) (hdec : decodeHeader buf n = some h) :
    edgesyncCrc32 0 (buf.take headerCrcOffset ++ [0, 0, 0, 0]) =
      UInt32.ofNat (ofLe (slice buf headerCrcOffset 4)) := by
  obtain ⟨_, hof, _, hcrc⟩ := decodeHeader_eq_some.mp hdec
  have hlen : (buf.take hdrSize).length = hdrSize := by
    rw [List.length_take]
    omega
  rw [← hof, headerCrc_ofBytes hlen, headerCrc_field, List.take_take] at hcrc
  have hfield : slice (buf.take hdrSize) headerCrcOffset 4 = slice buf headerCrcOffset 4 := by
    have h0 : buf.take hdrSize = slice buf 0 hdrSize := rfl
    rw [h0, slice_slice (by decide), Nat.zero_add]
  rw [hfield] at hcrc
  exact hcrc

/-- A burst in the header, in front of its checksum or within it, is detected. -/
theorem decodeHeader_burst (hburst : Burst off len buf damaged) (hlen : len ≤ 4)
    (hbuf : hdrSize ≤ buf.length) (hdec : decodeHeader buf n = some h)
    (hoff : off + len ≤ headerCrcOffset ∨ headerCrcOffset ≤ off ∧ off + len ≤ hdrSize) (n' : Nat) :
    decodeHeader damaged n' = none := by
  have hsame : damaged.length = buf.length := by
    obtain ⟨front, w, w', rest, rfl, rfl, _, hw, hw', _⟩ := hburst
    simp only [List.length_append, hw, hw']
  have hcrc := decoded_crc hbuf hdec
  cases hd : decodeHeader damaged n' with
  | none => rfl
  | some h' =>
    have hcrc' := decoded_crc (by omega) hd
    exfalso
    rcases hoff with hoff | ⟨hlo, hhi⟩
    · obtain ⟨htake, hdrop⟩ := hburst.take hoff
      rw [slice, hdrop, ← slice, ← hcrc] at hcrc'
      exact (htake.append _).crc_ne hlen 0 hcrc'
    · obtain ⟨htake, hdrop⟩ := hburst.drop hlo
      have hfield := (hdrop.take (k := 4) (by simp only [headerCrcOffset, hdrSize] at *; omega)).1
      rw [htake, hcrc] at hcrc'
      have hfour : ∀ x : Bytes, hdrSize ≤ x.length → (slice x headerCrcOffset 4).length = 4 :=
        fun x hx => length_slice_of_le (by simp only [headerCrcOffset, hdrSize] at *; omega)
      exact hfield.ne (u32_injective (hfour _ (by omega)) (hfour _ hbuf) hcrc'.symm)

/-- A burst behind the header leaves the header as it was. -/
theorem decodeHeader_burst_behind (hburst : Burst off len buf damaged) (hoff : hdrSize ≤ off) :
    decodeHeader damaged n = decodeHeader buf n := by
  unfold decodeHeader
  rw [(hburst.drop hoff).1]

/-- A burst in the body or in its checksum is detected. -/
theorem verifyBody_burst (hburst : Burst off len buf damaged) (hlen : len ≤ 4)
    (hbuf : h.bodyBytes + 4 ≤ buf.length) (hverify : verifyBody h buf n = true)
    (hoff : off + len ≤ h.bodyBytes ∨ h.bodyBytes ≤ off ∧ off + len ≤ h.bodyBytes + 4)
    (n' : Nat) : verifyBody h damaged n' = false := by
  have hsame : damaged.length = buf.length := by
    obtain ⟨front, w, w', rest, rfl, rfl, _, hw, hw', _⟩ := hburst
    simp only [List.length_append, hw, hw']
  have hchecked : ∀ {x : Bytes} {k : Nat}, verifyBody h x k = true →
      UInt32.ofNat (ofLe (slice x h.bodyBytes 4)) = edgesyncCrc32 0 (x.take h.bodyBytes) := by
    intro x k hx
    unfold verifyBody at hx
    split at hx
    · exact Bool.noConfusion hx
    · simpa using hx
  have hcrc := hchecked hverify
  cases hd : verifyBody h damaged n' with
  | false => rfl
  | true =>
    have hcrc' := hchecked hd
    exfalso
    rcases hoff with hoff | ⟨hlo, hhi⟩
    · obtain ⟨htake, hdrop⟩ := hburst.take hoff
      rw [slice, hdrop, ← slice, hcrc] at hcrc'
      exact htake.crc_ne hlen 0 hcrc'.symm
    · obtain ⟨htake, hdrop⟩ := hburst.drop hlo
      have hfield := (hdrop.take (k := 4) (by omega)).1
      rw [htake, ← hcrc] at hcrc'
      exact hfield.ne (u32_injective (length_slice_of_le (by omega))
        (length_slice_of_le (by omega)) hcrc')

end Decoders

/-! ## Encoded records -/

/-- Short corruptions of a record are always detected. -/
theorem corruption_detected (call : EncodeCall) (hs : call.Sized) {buf buf' : Bytes}
    {bufCap outLen : Nat} (hrun : call.run buf bufCap = some (buf', outLen)) {off len : Nat}
    {damaged : Bytes} (hburst : Burst off len (buf'.take outLen) damaged) (hlen : len ≤ 4)
    (rest : Bytes) :
    (off + len ≤ headerCrcOffset ∨ headerCrcOffset ≤ off ∧ off + len ≤ hdrSize →
      ∀ n, decodeHeader (damaged ++ rest) n = none) ∧
    (hdrSize ≤ off ∧ off + len ≤ hdrSize + call.data.length ∨
      hdrSize + call.data.length ≤ off ∧ off + len ≤ hdrSize + call.data.length + 4 →
      ∀ n, hdrSize ≤ n → ∃ h, decodeHeader (buf'.take outLen ++ rest) n = some h ∧
        decodeHeader (damaged ++ rest) n = some h ∧
        ∀ available, verifyBody h ((damaged ++ rest).drop hdrSize) available = false) := by
  obtain ⟨hd, _, rfl, rfl⟩ := EncodeCall.run_some hs hrun
  have hdata := EncodeCall.data_length hs hd
  have hreclen : (recordBytes call.header call.data).length = call.total := length_recordBytes hdata
  have hused := call.header.usedSize_le
  have htotal : call.header.totalSize = call.total := rfl
  rw [List.take_left' hreclen] at hburst ⊢
  have hall := hburst.append rest
  have hlong : call.header.usedSize ≤ (recordBytes call.header call.data ++ rest).length := by
    rw [List.length_append, hreclen]
    omega
  simp only [RecordHdr.usedSize] at hlong
  have hdec : ∀ n, hdrSize ≤ n →
      decodeHeader (recordBytes call.header call.data ++ rest) n = some call.header :=
    fun n hn => EncodeCall.decode_record hn
  refine ⟨fun hoff n => decodeHeader_burst hall hlen (by omega) (hdec hdrSize (Nat.le_refl _)) hoff n,
    fun hoff n hn => ⟨call.header, hdec n hn, ?_, fun available => ?_⟩⟩
  · rw [decodeHeader_burst_behind hall (by omega)]
    exact hdec n hn
  · have hbehind := (hall.drop (k := hdrSize) (by omega)).2
    refine verifyBody_burst hbehind hlen (by rw [List.length_drop]; omega)
      ((EncodeCall.verify_record hs hd).mpr (Nat.le_refl _)) (by omega) available

/-- One flipped bit of the payload. -/
theorem corruption_detected_bit : ∃ h,
    decodeHeader (overlay (recordBytes smallCall.header smallCall.data) 64 [0]) 72 = some h ∧
    verifyBody h ((overlay (recordBytes smallCall.header smallCall.data) 64 [0]).drop hdrSize) 10 =
      false := by
  have hburst : Burst 64 1 ((recordBytes smallCall.header smallCall.data).take 72)
      (overlay (recordBytes smallCall.header smallCall.data) 64 [0]) :=
    ⟨(recordBytes smallCall.header smallCall.data).take 64, [1], [0],
      (recordBytes smallCall.header smallCall.data).drop 65, by decide +kernel⟩
  obtain ⟨h, _, hd, hv⟩ := (corruption_detected smallCall smallCall_sized smallCall_run hburst
    (by decide) []).2 (.inl (by decide)) 72 (by decide)
  rw [List.append_nil] at hd hv
  exact ⟨h, hd, hv 10⟩

end EdgeSync
