/-
  Flashq/Detected.lean --- power cuts anywhere, as long as the scan detects them.

  A cut inside a record write leaves garbage behind the log, and the next record is
  ANDed into it.  The header CRC and the body CRC are there to tell such bytes from a
  record.  In this regime the power may go between any two bytes, and all that is asked
  of what is then found at the end of a log is that it is the record that was written,
  or no record.
-/
import EdgeSync.Flashq.Damage

set_option autoImplicit false

namespace EdgeSync

open Foundation

/-! ## Records by their used bytes -/

section Used

variable {cfg : FlashqConfig} {v : Memory} {off : Nat} {h : RecordHdr} {data : Bytes}

/-- The bytes of a record without its padding. -/
theorem usedBytes_recordBytes (hd : data.length = h.bodyBytes) : (recordBytes h data).take h.usedSize =
    h.toBytes ++ (data ++ leBytes 4 (edgesyncCrc32 0 data).toNat) := by
  have hused : h.usedSize = (h.toBytes ++ (data ++ leBytes 4 (edgesyncCrc32 0 data).toNat)).length := by
    simp only [RecordHdr.usedSize, List.length_append, RecordHdr.length_toBytes, length_leBytes, hd]
    omega
  have hbytes : recordBytes h data = (h.toBytes ++ (data ++ leBytes 4 (edgesyncCrc32 0 data).toNat)) ++
      List.replicate (h.totalSize - h.usedSize) 0 := by
    simp only [recordBytes, List.append_assoc]
  rw [hbytes, hused, List.take_left]

/-- The scan accepts a record whose used bytes are there. -/
theorem acceptAt_of_used (hs : h.Sealed) (hd : data.length = h.bodyBytes)
    (hb : v.bytesAt off h.usedSize = (recordBytes h data).take h.usedSize)
    (hfit : off + h.usedSize ≤ cfg.regionSize) : acceptAt cfg v off = some h := by
  have hused : h.usedSize = hdrSize + (h.bodyBytes + 4) := by rw [RecordHdr.usedSize, Nat.add_assoc]
  rw [usedBytes_recordBytes hd] at hb
  have hhdr : v.bytesAt off hdrSize = h.toBytes := by
    rw [← Memory.take_bytesAt (k := h.usedSize) (by omega), hb,
      List.take_left' (RecordHdr.length_toBytes h)]
  have hbody : v.bytesAt (off + hdrSize) (h.bodyBytes + 4) =
      data ++ (leBytes 4 (edgesyncCrc32 0 data).toNat ++ []) := by
    rw [← Memory.slice_bytesAt (show hdrSize + (h.bodyBytes + 4) ≤ h.usedSize by omega), hb,
      slice_append_right (by simp), RecordHdr.length_toBytes, Nat.sub_self, List.append_nil]
    exact List.take_of_length_le (by simp [hd])
  refine acceptAt_eq_some.mpr ⟨?_, hfit, ?_⟩
  · rw [hhdr]
    exact decodeHeader_toBytes hs (List.append_nil _).symm (Nat.le_refl _)
  · rw [hbody]
    exact verifyBody_of_data hd (Nat.le_refl _)

theorem body_of_used (hd : data.length = h.bodyBytes)
    (hb : v.bytesAt off h.usedSize = (recordBytes h data).take h.usedSize) :
    v.bytesAt (off + hdrSize) h.bodyBytes = data := by
  have hused : h.usedSize = hdrSize + (h.bodyBytes + 4) := by rw [RecordHdr.usedSize, Nat.add_assoc]
  rw [usedBytes_recordBytes hd] at hb
  rw [← Memory.slice_bytesAt (show hdrSize + h.bodyBytes ≤ h.usedSize by omega), hb,
    slice_append_right (by simp), RecordHdr.length_toBytes, Nat.sub_self, slice_append_self hd.symm]

end Used

/-! ## The regime -/

section Regime

variable (cfg : FlashqConfig)

/-- At `e` there is no record, or the record `h` with the body `data` and no record
behind it. -/
def RecordOrNothing (v : Memory) (e : Nat) (h : RecordHdr) (data : Bytes) : Prop :=
  acceptAt cfg v e = none ∨
    v.bytesAt e h.usedSize = (recordBytes h data).take h.usedSize ∧
      acceptAt cfg v (e + h.totalSize) = none

/-- The write puts the record `h` with the body `data` at the end of the log of an ACTIVE
region. -/
structure WritesRecord (m : Memory) (addr : Nat) (bytes : Bytes) (r : Fin 2) (e : Nat)
    (h : RecordHdr) (data : Bytes) : Prop where
  active : IsActive (view cfg m r)
  log : ∃ recs, Log cfg (view cfg m r) dataStart recs e
  stop : acceptAt cfg (view cfg m r) e = none
  sealed : h.Sealed
  length_eq : data.length = h.bodyBytes
  fits : e + h.totalSize ≤ cfg.regionSize
  addr_eq : addr = cfg.regionOffset r + e
  bytes_eq : bytes = recordBytes h data

/-- How much of a write an event lets through. -/
def landedBytes (bytes : Bytes) : FlashEvent → Bytes
  | .cut n => bytes.take n
  | _ => bytes

/-- Calls work, or the power goes: between two bytes of a write, before or after an erase.
A record that was written at the end of a log, wholly or in part and whatever was there
before, is found as that record, or as none. -/
def detectedCuts : Env FlashCall Memory FlashEvent := fun m c ev =>
  (ev = .run ∨ ∃ k, ev = .cut k) ∧ match c with
    | .write addr bytes => ∀ r e h data, WritesRecord cfg m addr bytes r e h data →
        RecordOrNothing cfg ((view cfg m r).program e (landedBytes bytes ev)) e h data
    | _ => True

variable {cfg}

/-- The padding is zeros, whatever it is ANDed into. -/
theorem program_recordBytes {v : Memory} {e : Nat} {h : RecordHdr} {data : Bytes}
    (hd : data.length = h.bodyBytes)
    (hb : (v.program e (recordBytes h data)).bytesAt e h.usedSize =
      (recordBytes h data).take h.usedSize) :
    (v.program e (recordBytes h data)).bytesAt e h.totalSize = recordBytes h data := by
  have hle := h.usedSize_le
  have hlen := length_recordBytes hd
  have htotal : h.totalSize = h.usedSize + (h.totalSize - h.usedSize) := by omega
  have hdrop : (recordBytes h data).drop h.usedSize =
      List.replicate (h.totalSize - h.usedSize) 0 := by
    have hused := usedBytes_recordBytes hd
    have hinit : (recordBytes h data) = (h.toBytes ++ (data ++
        leBytes 4 (edgesyncCrc32 0 data).toNat)) ++ List.replicate (h.totalSize - h.usedSize) 0 := by
      simp only [recordBytes, List.append_assoc]
    rw [← hused] at hinit
    have hlen' : ((recordBytes h data).take h.usedSize).length = h.usedSize := by
      rw [List.length_take]
      omega
    conv_lhs => rw [hinit]
    exact List.drop_left' hlen'
  have hpad : (v.program e (recordBytes h data)).bytesAt (e + h.usedSize)
      (h.totalSize - h.usedSize) = (recordBytes h data).drop h.usedSize := by
    have hlen' : ((recordBytes h data).drop h.usedSize).length = h.totalSize - h.usedSize := by
      rw [List.length_drop, hlen]
    rw [← hlen', Memory.bytesAt_eq_iff]
    intro i hi
    rw [hlen'] at hi
    have hlt : h.usedSize + i < (recordBytes h data).length := by omega
    have hzero : (recordBytes h data)[h.usedSize + i] = 0 := by
      have hi' : i < ((recordBytes h data).drop h.usedSize).length := by
        rw [hlen']
        exact hi
      have hget : ((recordBytes h data).drop h.usedSize)[i] =
          (recordBytes h data)[h.usedSize + i] := List.getElem_drop
      rw [← hget]
      simp only [hdrop, List.getElem_replicate]
    have hat := @Memory.program_at v e _ _ hlt
    rw [hzero] at hat
    rw [Nat.add_assoc, hat, List.getElem_drop, hzero]
    exact UInt8.and_zero
  conv_lhs => rw [htotal]
  rw [Memory.bytesAt_add, hb, hpad, List.take_append_drop]

variable (cfg) in
/-- The regime of power cuts that the scan detects. -/
def detected : Regime cfg where
  env := detectedCuts cfg
  mayFail := False
  lossy := True
  Tail := fun v e => acceptAt cfg v e = none
  Torn := Eq
  read_events := fun h => h.1.elim .inl fun hk => .inr (.inl hk)
  write_events := fun h => h.1
  erase_events := fun h => h.1.elim .inl fun hk => .inr (.inl hk)
  tail_stop := fun h => h
  tail_erased := acceptAt_of_erasedFrom
  tail_congr := acceptAt_none_congr
  torn_refl := fun _ => rfl
  torn_landed := landed_of_eq
  append_run := by
    intro m r recs e h data hact hlog hstop hs hd hfit hev
    rcases hev.2 r e h data ⟨hact, ⟨recs, hlog⟩, hstop, hs, hd, hfit, rfl, rfl⟩ with hnone | ⟨hused, hnone⟩
    · exact .inl ⟨trivial, hnone⟩
    · exact .inr ⟨program_recordBytes hd hused, hnone⟩
  append_cut := by
    intro m r recs e h data n hact hlog hstop hs hd hfit hev
    have hle := h.usedSize_le
    rcases hev.2 r e h data ⟨hact, ⟨recs, hlog⟩, hstop, hs, hd, hfit, rfl, rfl⟩ with hnone | ⟨hused, hnone⟩
    · exact .inl hnone
    · exact .inr ⟨acceptAt_of_used hs hd hused (by omega), (body_of_used hd hused).symm, hnone⟩
  guarded := 0
  header_guard := fun _ _ hev => by
    rcases hev.1 with hev | ⟨k, hk⟩
    · exact absurd hev (by simp)
    · exact absurd hk (by simp)
  scan_guard := fun _ _ _ => by
    refine ⟨fun hev => ?_, fun hev => ?_⟩ <;>
    · rcases hev.1 with hev | ⟨k, hk⟩
      · exact absurd hev (by simp)
      · exact absurd hk (by simp)

end Regime

end EdgeSync
