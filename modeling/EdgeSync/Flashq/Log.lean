/-
  Flashq/Log.lean --- what a region means.

  A region is read as a log: `acceptAt` is the test `scan_region` makes at one
  offset, `Log` a chain of accepted records, and `replay` the index the scan
  builds from them.  Everything here is about flash contents; the programs come
  later.
-/
import EdgeSync.Flashq.Backend
import EdgeSync.Foundation.Asked

set_option autoImplicit false

namespace EdgeSync

open Foundation

variable (cfg : FlashqConfig)

/-! ## Regions of the partition -/

/-- A region, addressed from its own start. -/
def view (m : Memory) (r : Fin 2) : Memory := fun i => m (cfg.regionOffset r + i)

variable {cfg}

theorem bytesAt_region (m : Memory) (r : Fin 2) (off n : Nat) :
    m.bytesAt (cfg.regionOffset r + off) n = (view cfg m r).bytesAt off n := by
  apply Memory.bytesAt_congr
  intro i _
  rw [view, Nat.add_assoc]

/-- A write into one region, seen from that region. -/
theorem view_program_self (m : Memory) (r : Fin 2) (off : Nat) (data : Bytes) :
    view cfg (m.program (cfg.regionOffset r + off) data) r = (view cfg m r).program off data := by
  funext i
  have hle : cfg.regionOffset r + off ≤ cfg.regionOffset r + i ↔ off ≤ i := by omega
  have hsub : cfg.regionOffset r + i - (cfg.regionOffset r + off) = i - off := by omega
  simp only [view, Memory.program, hle, hsub]

/-- The two regions do not overlap. -/
theorem regionOffset_other (cfg : FlashqConfig) {r a : Fin 2} (h : r ≠ a) :
    cfg.regionOffset a + cfg.regionSize ≤ cfg.regionOffset r ∨
    cfg.regionOffset r + cfg.regionSize ≤ cfg.regionOffset a := by
  have hr : r.val = 0 ∧ a.val = 1 ∨ r.val = 1 ∧ a.val = 0 := by
    revert r a
    decide
  simp only [FlashqConfig.regionOffset]
  rcases hr with ⟨h0, h1⟩ | ⟨h1, h0⟩ <;> rw [h0, h1] <;> omega

/-- A write into one region, seen from the other. -/
theorem view_program_other {m : Memory} {r a : Fin 2} {off : Nat} {data : Bytes} (h : a ≠ r)
    (hfit : off + data.length ≤ cfg.regionSize) {i : Nat} (hi : i < cfg.regionSize) :
    view cfg (m.program (cfg.regionOffset r + off) data) a i = view cfg m a i := by
  rcases regionOffset_other cfg h with hlow | hhigh
  · exact Memory.program_of_ge (by omega)
  · exact Memory.program_of_lt (by omega)

theorem view_erase_self {m : Memory} {r : Fin 2} {i : Nat} (hi : i < cfg.regionSize) :
    view cfg (m.erase (cfg.regionOffset r) cfg.regionSize) r i = 0xFF :=
  Memory.erase_of_mem (by omega) (by omega)

theorem view_erase_other {m : Memory} {r a : Fin 2} (h : a ≠ r) {i : Nat}
    (hi : i < cfg.regionSize) :
    view cfg (m.erase (cfg.regionOffset r) cfg.regionSize) a i = view cfg m a i := by
  rcases regionOffset_other cfg h with hlow | hhigh
  · exact Memory.erase_of_ge (by omega)
  · exact Memory.erase_of_lt (by omega)

variable (cfg)

/-- Two region images agree on `[lo, hi)`. -/
def AgreeOn (v w : Memory) (lo hi : Nat) : Prop := ∀ i, lo ≤ i → i < hi → v i = w i

/-- The region is erased from `off` on. -/
def ErasedFrom (v : Memory) (off : Nat) : Prop := ∀ i, off ≤ i → i < cfg.regionSize → v i = 0xFF

/-- The region header. -/
def headerAt (v : Memory) : RegionHdr := RegionHdr.ofBytes (v.bytesAt 0 regionHdrSize)

/-- The region header reads as blank. -/
def Blank (v : Memory) : Prop := bytesAllFf (v.bytesAt 0 regionHdrSize) = true

/-- The region is marked ACTIVE. -/
def IsActive (v : Memory) : Prop :=
  (headerAt v).magic = hdrMagic ∧ (headerAt v).status = statusActive

/-- The region has a header `op_recover` calls valid. -/
def IsValid (v : Memory) : Prop :=
  ¬ Blank v ∧ (headerAt v).magic = hdrMagic ∧ knownStatus (headerAt v).status = true

instance (v : Memory) : Decidable (Blank v) := inferInstanceAs (Decidable (_ = true))

instance (v : Memory) : Decidable (IsActive v) := inferInstanceAs (Decidable (_ ∧ _))

instance (v : Memory) : Decidable (IsValid v) := inferInstanceAs (Decidable (_ ∧ _ ∧ _))

variable {cfg}

theorem AgreeOn.refl (v : Memory) (lo hi : Nat) : AgreeOn v v lo hi := fun _ _ _ => rfl

theorem AgreeOn.symm {v w : Memory} {lo hi : Nat} (h : AgreeOn v w lo hi) : AgreeOn w v lo hi :=
  fun i h1 h2 => (h i h1 h2).symm

theorem AgreeOn.trans {u v w : Memory} {lo hi : Nat} (h1 : AgreeOn u v lo hi)
    (h2 : AgreeOn v w lo hi) : AgreeOn u w lo hi :=
  fun i hlo hhi => (h1 i hlo hhi).trans (h2 i hlo hhi)

theorem AgreeOn.mono {v w : Memory} {lo hi lo' hi' : Nat} (h : AgreeOn v w lo hi)
    (h1 : lo ≤ lo') (h2 : hi' ≤ hi) : AgreeOn v w lo' hi' :=
  fun i hlo hhi => h i (by omega) (by omega)

theorem AgreeOn.bytesAt {v w : Memory} {lo hi : Nat} (h : AgreeOn v w lo hi) {off n : Nat}
    (h1 : lo ≤ off) (h2 : off + n ≤ hi) : v.bytesAt off n = w.bytesAt off n :=
  Memory.bytesAt_congr fun i hi => h (off + i) (by omega) (by omega)

theorem agreeOn_program {v : Memory} {off : Nat} {data : Bytes} {lo hi : Nat}
    (h : hi ≤ off ∨ off + data.length ≤ lo) : AgreeOn (v.program off data) v lo hi := by
  intro i h1 h2
  rcases h with h | h
  · exact Memory.program_of_lt (by omega)
  · exact Memory.program_of_ge (by omega)

theorem ErasedFrom.mono {v : Memory} {off off' : Nat} (h : ErasedFrom cfg v off)
    (hle : off ≤ off') : ErasedFrom cfg v off' := fun i h1 h2 => h i (by omega) h2

/-- Programming at the start of the erased part leaves the rest erased. -/
theorem ErasedFrom.program {v : Memory} {off : Nat} (h : ErasedFrom cfg v off) (data : Bytes) :
    ErasedFrom cfg (v.program off data) (off + data.length) := by
  intro i h1 h2
  rw [Memory.program_of_ge h1]
  exact h i (by omega) h2

/-- Programming the erased part stores the data. -/
theorem ErasedFrom.bytesAt_program {v : Memory} {off : Nat} (h : ErasedFrom cfg v off)
    (data : Bytes) (hfit : off + data.length ≤ cfg.regionSize) :
    (v.program off data).bytesAt off data.length = data := by
  apply Memory.bytesAt_eq_iff.mpr
  intro i hi
  exact Memory.program_at_of_erased hi (h _ (by omega) (by omega))

theorem headerAt_congr {v w : Memory} (h : AgreeOn v w 0 regionHdrSize) :
    headerAt v = headerAt w := by
  rw [headerAt, headerAt, h.bytesAt (Nat.le_refl 0) (by omega)]

theorem blank_congr {v w : Memory} (h : AgreeOn v w 0 regionHdrSize) : Blank v ↔ Blank w := by
  rw [Blank, Blank, h.bytesAt (Nat.le_refl 0) (by omega)]

theorem isActive_congr {v w : Memory} (h : AgreeOn v w 0 regionHdrSize) :
    IsActive v ↔ IsActive w := by
  rw [IsActive, IsActive, headerAt_congr h]

theorem isValid_congr {v w : Memory} (h : AgreeOn v w 0 regionHdrSize) :
    IsValid v ↔ IsValid w := by
  rw [IsValid, IsValid, headerAt_congr h, blank_congr h]

theorem bytesAllFf_iff {bs : Bytes} : bytesAllFf bs = true ↔ ∀ b ∈ bs, b = 0xFF := by
  simp [bytesAllFf, List.all_eq_true]

theorem blank_iff {v : Memory} : Blank v ↔ ∀ i, i < regionHdrSize → v i = 0xFF := by
  simp [Blank, bytesAllFf_iff, Memory.bytesAt]

theorem RegionHdr.ofBytes_toBytes (h : RegionHdr) : RegionHdr.ofBytes h.toBytes = h := by
  obtain ⟨magic, generation, status⟩ := h
  have h4 : slice (leBytes 4 generation.toNat ++ ([status] ++ [0, 0, 0])) 0 4 =
      leBytes 4 generation.toNat := slice_append_self (length_leBytes 4 _).symm
  have h1 : slice ([status] ++ [0, 0, 0]) 0 1 = [status] := slice_append_self rfl
  have h0 : slice (leBytes 4 magic.toNat ++ (leBytes 4 generation.toNat ++
      ([status] ++ [0, 0, 0]))) 0 4 = leBytes 4 magic.toNat :=
    slice_append_self (length_leBytes 4 _).symm
  have hskip : ∀ off len, 4 ≤ off → ∀ (n : Nat) (y : Bytes),
      slice (leBytes 4 n ++ y) off len = slice y (off - 4) len :=
    fun off len hoff n y => slice_skip 4 (length_leBytes 4 n) hoff
  simp only [RegionHdr.ofBytes, RegionHdr.toBytes, h0, hskip 4 4 (by omega), hskip 8 1 (by omega),
    hskip 4 1 (by omega), Nat.sub_self, Nat.reduceSub, h4, h1, u32_roundTrip, u8_roundTrip]

/-- A header that was written is the header that is read. -/
theorem headerAt_of_bytes {v : Memory} {h : RegionHdr}
    (hb : v.bytesAt 0 regionHdrSize = h.toBytes) : headerAt v = h := by
  rw [headerAt, hb, RegionHdr.ofBytes_toBytes]

/-- The status byte. -/
theorem headerAt_status (v : Memory) : (headerAt v).status = v 8 := by
  have h : slice (v.bytesAt 0 regionHdrSize) 8 1 = v.bytesAt 8 1 := by
    rw [Memory.slice_bytesAt (by decide)]
  simp only [headerAt, RegionHdr.ofBytes, h]
  simp [Memory.bytesAt, ofLe]

theorem headerAt_magic (v : Memory) : (headerAt v).magic = UInt32.ofNat (ofLe (v.bytesAt 0 4)) := by
  have h : slice (v.bytesAt 0 regionHdrSize) 0 4 = v.bytesAt 0 4 := by
    rw [Memory.slice_bytesAt (by decide)]
  simp only [headerAt, RegionHdr.ofBytes, h]

/-- The first byte of a header with the right magic. -/
theorem first_byte_of_magic {v : Memory} (h : (headerAt v).magic = hdrMagic) : v 0 = 0x48 := by
  rw [headerAt_magic] at h
  have hlt : ofLe (v.bytesAt 0 4) < 4294967296 := by
    have := ofLe_lt (v.bytesAt 0 4)
    rwa [Memory.length_bytesAt] at this
  have hnat : ofLe (v.bytesAt 0 4) = 0x45445348 := by
    have := congrArg UInt32.toNat h
    rwa [UInt32.toNat_ofNat_of_lt' hlt] at this
  have hb := leBytes_ofLe_of_length (Memory.length_bytesAt v 0 4)
  rw [hnat] at hb
  have h0 := congrArg (·[0]?) hb
  simp only [Memory.getElem?_bytesAt v 0 (show 0 < 4 by omega)] at h0
  have hhead : (leBytes 4 0x45445348)[0]? = some 0x48 := by decide
  exact (Option.some.inj (hhead.symm.trans h0)).symm

theorem not_blank_of_magic {v : Memory} (h : (headerAt v).magic = hdrMagic) : ¬ Blank v := by
  intro hb
  have h0 := first_byte_of_magic h
  rw [blank_iff.mp hb 0 (by decide)] at h0
  exact absurd h0 (by decide)

theorem IsActive.isValid {v : Memory} (h : IsActive v) : IsValid v :=
  ⟨not_blank_of_magic h.1, h.1, by rw [h.2]; decide⟩

/-! ## Calls at the other region -/

variable (cfg) in
/-- The call changes nothing in the region. -/
def Sparing (region : Fin 2) : FlashCall → Prop
  | .read _ _ => True
  | .write addr data => ∃ off, addr = cfg.regionOffset (1 - region) + off ∧
      off + data.length ≤ cfg.regionSize
  | .erase addr len => addr = cfg.regionOffset (1 - region) ∧ len = cfg.regionSize

theorem Sparing.respond {region : Fin 2} {c : FlashCall} (h : Sparing cfg region c) (m : Memory)
    (ev : FlashEvent) : AgreeOn (view cfg (cfg.device.respond m c ev).dev region)
      (view cfg m region) 0 cfg.regionSize := by
  cases c with
  | write addr data =>
    obtain ⟨off, rfl, hfit⟩ := h
    have hprogram : ∀ n, AgreeOn (view cfg (m.program (cfg.regionOffset (1 - region) + off)
        (data.take n)) region) (view cfg m region) 0 cfg.regionSize := by
      intro n i _ hi
      refine view_program_other (other_ne region).symm ?_ hi
      exact (Nat.add_le_add_left (List.length_take_le' n data) off).trans hfit
    have hwhole := hprogram data.length
    rw [List.take_length] at hwhole
    simp only [FlashqConfig.device, flashDevice]
    split
    case isFalse => exact AgreeOn.refl _ _ _
    cases ev with
    | run => exact hwhole
    | fail n => exact hprogram n
    | cut n => exact hprogram n
    | tear n => exact hprogram n
  | read addr len =>
    have hsame : (cfg.device.respond m (.read addr len) ev).dev = m := by
      simp only [FlashqConfig.device, flashDevice]
      split
      · cases ev <;> rfl
      · rfl
    rw [hsame]
    exact AgreeOn.refl _ _ _
  | erase addr len =>
    obtain ⟨rfl, rfl⟩ := h
    have herase : ∀ n, n ≤ cfg.regionSize →
        AgreeOn (view cfg (m.erase (cfg.regionOffset (1 - region)) n) region) (view cfg m region) 0
          cfg.regionSize := by
      intro n hn i _ hi
      rcases regionOffset_other cfg (other_ne region) with hlow | hhigh
      · exact Memory.erase_of_lt (by omega)
      · exact Memory.erase_of_ge (by omega)
    simp only [FlashqConfig.device, flashDevice]
    split
    case isFalse => exact AgreeOn.refl _ _ _
    cases ev with
    | run => exact herase _ (Nat.le_refl _)
    | fail n => exact herase _ (Nat.min_le_left _ _)
    | tear n => exact herase _ (Nat.min_le_left _ _)
    | cut n =>
      simp only [Response.dev]
      split
      · exact AgreeOn.refl _ _ _
      · exact herase _ (Nat.le_refl _)

/-! ## Records -/

variable (cfg)

/-- The test `scan_region` makes at an offset: the header of the record there, if
it accepts one. -/
def acceptAt (v : Memory) (off : Nat) : Option RecordHdr :=
  if off + hdrSize ≤ cfg.regionSize then
    match decodeHeader (v.bytesAt off hdrSize) hdrSize with
    | none => none
    | some h =>
        if cfg.regionSize < off + h.usedSize then none
        else if verifyBody h (v.bytesAt (off + hdrSize) (h.bodyBytes + 4)) (h.bodyBytes + 4) then
          some h
        else none
  else none

variable {cfg}

theorem acceptAt_eq_some {v : Memory} {off : Nat} {h : RecordHdr} :
    acceptAt cfg v off = some h ↔
      decodeHeader (v.bytesAt off hdrSize) hdrSize = some h ∧ off + h.usedSize ≤ cfg.regionSize ∧
      verifyBody h (v.bytesAt (off + hdrSize) (h.bodyBytes + 4)) (h.bodyBytes + 4) = true := by
  unfold acceptAt
  by_cases hoff : off + hdrSize ≤ cfg.regionSize
  · rw [if_pos hoff]
    cases hdec : decodeHeader (v.bytesAt off hdrSize) hdrSize with
    | none => simp
    | some h' =>
      by_cases hfit : cfg.regionSize < off + h'.usedSize
      · simp only [hfit, if_true, reduceCtorEq, Option.some.injEq, false_iff]
        rintro ⟨rfl, hle, _⟩
        omega
      · by_cases hv : verifyBody h' (v.bytesAt (off + hdrSize) (h'.bodyBytes + 4))
            (h'.bodyBytes + 4) = true
        · simp only [hfit, hv, if_true, if_false, Option.some.injEq]
          constructor
          · rintro rfl
            exact ⟨rfl, by omega, hv⟩
          · rintro ⟨rfl, _⟩
            rfl
        · simp only [hfit, hv, if_false, reduceCtorEq, Option.some.injEq, false_iff]
          rintro ⟨rfl, _, hv'⟩
          exact hv hv'
  · rw [if_neg hoff]
    simp only [reduceCtorEq, false_iff]
    rintro ⟨_, hle, _⟩
    simp only [RecordHdr.usedSize] at hle
    omega

theorem acceptAt_header {v : Memory} {off : Nat} {h : RecordHdr}
    (ha : acceptAt cfg v off = some h) : v.bytesAt off hdrSize = h.toBytes := by
  obtain ⟨hdec, _, _⟩ := acceptAt_eq_some.mp ha
  obtain ⟨_, hof, _⟩ := decodeHeader_eq_some.mp hdec
  rw [List.take_of_length_le (by simp)] at hof
  rw [← hof, RecordHdr.toBytes_ofBytes (by simp)]

theorem acceptAt_sealed {v : Memory} {off : Nat} {h : RecordHdr}
    (ha : acceptAt cfg v off = some h) : h.Sealed :=
  (decodeHeader_eq_some.mp (acceptAt_eq_some.mp ha).1).2.2

theorem acceptAt_used_le {v : Memory} {off : Nat} {h : RecordHdr}
    (ha : acceptAt cfg v off = some h) : off + h.usedSize ≤ cfg.regionSize :=
  (acceptAt_eq_some.mp ha).2.1

/-- The test depends on the bytes up to the body CRC only. -/
theorem acceptAt_congr {v w : Memory} {off : Nat} {h : RecordHdr}
    (ha : acceptAt cfg v off = some h) (hvw : AgreeOn w v off (off + h.usedSize)) :
    acceptAt cfg w off = some h := by
  obtain ⟨hdec, hfit, hver⟩ := acceptAt_eq_some.mp ha
  have hused : h.usedSize = hdrSize + h.bodyBytes + 4 := rfl
  refine acceptAt_eq_some.mpr ⟨?_, hfit, ?_⟩
  · rw [hvw.bytesAt (Nat.le_refl _) (by omega)]
    exact hdec
  · rw [hvw.bytesAt (by omega) (by omega)]
    exact hver

/-- Offsets of records are aligned, and so is the region: the padding fits. -/
theorem acceptAt_total_le {v : Memory} {off : Nat} {h : RecordHdr}
    (ha : acceptAt cfg v off = some h) (hoff : off % 4 = 0) :
    off + h.totalSize ≤ cfg.regionSize := by
  have hfit := acceptAt_used_le ha
  have hmod := cfg.regionSize_mod
  have hle : round4 h.usedSize ≤ cfg.regionSize - off := round4_le (by omega) (by omega)
  rw [h.totalSize_eq]
  have := le_round4 h.usedSize
  omega

/-- Erased flash is not a record. -/
theorem acceptAt_erased {v : Memory} {off : Nat} (h : v off = 0xFF) :
    acceptAt cfg v off = none := by
  cases ha : acceptAt cfg v off with
  | none => rfl
  | some hdr =>
    exfalso
    have hb := acceptAt_header ha
    have hm : hdr.magic = recMagic := (acceptAt_sealed ha).1
    have h0 := congrArg (·[0]?) hb
    have hhead : hdr.toBytes[0]? = some 0x47 := by
      rw [RecordHdr.toBytes, hm]
      rfl
    simp only [Memory.getElem?_bytesAt v off (show 0 < hdrSize by decide),
      Nat.add_zero, h, hhead] at h0
    exact absurd h0 (by decide)

/-- No record fits at the end of the region. -/
theorem acceptAt_end {v : Memory} {off : Nat} (h : cfg.regionSize < off + hdrSize) :
    acceptAt cfg v off = none := by
  rw [acceptAt, if_neg (by omega)]

theorem acceptAt_of_erasedFrom {v : Memory} {off : Nat} (h : ErasedFrom cfg v off) :
    acceptAt cfg v off = none := by
  by_cases hoff : off < cfg.regionSize
  · exact acceptAt_erased (h off (Nat.le_refl _) hoff)
  · exact acceptAt_end (by simp only [hdrSize]; omega)

/-- A record that was written is accepted. -/
theorem acceptAt_of_record {v : Memory} {off : Nat} {h : RecordHdr} {data : Bytes}
    (hs : h.Sealed) (hd : data.length = h.bodyBytes)
    (hb : v.bytesAt off h.totalSize = recordBytes h data)
    (hfit : off + h.totalSize ≤ cfg.regionSize) : acceptAt cfg v off = some h := by
  have hle := h.usedSize_le
  have hused : h.usedSize = hdrSize + (h.bodyBytes + 4) := by rw [RecordHdr.usedSize, Nat.add_assoc]
  have hhdr : v.bytesAt off hdrSize = h.toBytes := by
    rw [← Memory.take_bytesAt (k := h.totalSize) (by omega), hb, recordBytes,
      List.take_left' (RecordHdr.length_toBytes h)]
  have hbody : v.bytesAt (off + hdrSize) (h.bodyBytes + 4) =
      data ++ (leBytes 4 (edgesyncCrc32 0 data).toNat ++ []) := by
    rw [← Memory.slice_bytesAt (show hdrSize + (h.bodyBytes + 4) ≤ h.totalSize by omega), hb,
      recordBytes, slice_append_right (by simp), RecordHdr.length_toBytes, Nat.sub_self, ← List.append_assoc,
      slice_append_self (by simp [hd]), List.append_nil]
  refine acceptAt_eq_some.mpr ⟨?_, by omega, ?_⟩
  · rw [hhdr]
    exact decodeHeader_toBytes hs (List.append_nil _).symm (Nat.le_refl _)
  · rw [hbody]
    exact verifyBody_of_data hd (Nat.le_refl _)

/-- The body of a record that was written. -/
theorem body_of_record {v : Memory} {off : Nat} {h : RecordHdr} {data : Bytes}
    (hd : data.length = h.bodyBytes) (hb : v.bytesAt off h.totalSize = recordBytes h data) :
    v.bytesAt (off + hdrSize) h.bodyBytes = data := by
  have hle := h.usedSize_le
  have hused : h.usedSize = hdrSize + (h.bodyBytes + 4) := by rw [RecordHdr.usedSize, Nat.add_assoc]
  rw [← Memory.slice_bytesAt (show hdrSize + h.bodyBytes ≤ h.totalSize by omega), hb, recordBytes,
    slice_append_right (by simp), RecordHdr.length_toBytes, Nat.sub_self,
    slice_append_self hd.symm]

/-! ## Logs -/

/-- `Log cfg v off recs e`: from `off` on the scan accepts exactly the records
`recs`, each with its offset, and arrives at `e`. -/
inductive Log (cfg : FlashqConfig) (v : Memory) : Nat → List (Nat × RecordHdr) → Nat → Prop where
  | nil (off : Nat) : Log cfg v off [] off
  | cons {off e : Nat} {h : RecordHdr} {recs : List (Nat × RecordHdr)}
      (accepted : acceptAt cfg v off = some h) (rest : Log cfg v (off + h.totalSize) recs e) :
      Log cfg v off ((off, h) :: recs) e

namespace Log

variable {v w : Memory} {off e : Nat} {recs : List (Nat × RecordHdr)}

theorem le (log : Log cfg v off recs e) : off ≤ e := by
  induction log with
  | nil off => exact Nat.le_refl off
  | cons accepted rest ih => omega

theorem le_regionSize (log : Log cfg v off recs e) (hoff : off % 4 = 0)
    (hle : off ≤ cfg.regionSize) : e ≤ cfg.regionSize := by
  induction log with
  | nil off => exact hle
  | cons accepted rest ih =>
    rename_i h _
    have := h.totalSize_mod
    exact ih (by omega) (acceptAt_total_le accepted hoff)

/-- The scan is a function: it cannot arrive at two places. -/
theorem unique {recs' : List (Nat × RecordHdr)} {e' : Nat} (log : Log cfg v off recs e)
    (log' : Log cfg v off recs' e') (hstop : acceptAt cfg v e = none)
    (hstop' : acceptAt cfg v e' = none) : recs = recs' ∧ e = e' := by
  induction log generalizing recs' with
  | nil off =>
    cases log' with
    | nil => exact ⟨rfl, rfl⟩
    | cons accepted rest => rw [accepted] at hstop; exact absurd hstop (by simp)
  | cons accepted rest ih =>
    cases log' with
    | nil => rw [accepted] at hstop'; exact absurd hstop' (by simp)
    | cons accepted' rest' =>
      obtain rfl := Option.some.inj (accepted.symm.trans accepted')
      obtain ⟨rfl, rfl⟩ := ih rest' hstop
      exact ⟨rfl, rfl⟩

theorem congr (log : Log cfg v off recs e) (hvw : AgreeOn w v off e) :
    Log cfg w off recs e := by
  induction log with
  | nil off => exact .nil off
  | cons accepted rest ih =>
    rename_i h _
    have hle := rest.le
    have hus := h.usedSize_le
    refine .cons (acceptAt_congr accepted (hvw.mono (Nat.le_refl _) (by omega))) ?_
    exact ih (hvw.mono (by omega) (Nat.le_refl _))

/-- One more record. -/
theorem snoc {h : RecordHdr} (log : Log cfg v off recs e) (accepted : acceptAt cfg v e = some h) :
    Log cfg v off (recs ++ [(e, h)]) (e + h.totalSize) := by
  induction log with
  | nil off => exact .cons accepted (.nil _)
  | cons accepted' rest ih => exact .cons accepted' (ih accepted)

/-- Every record of a log is accepted where it stands, inside the log. -/
theorem mem (log : Log cfg v off recs e) {o : Nat} {h : RecordHdr} (hm : (o, h) ∈ recs) :
    acceptAt cfg v o = some h ∧ off ≤ o ∧ o + h.totalSize ≤ e := by
  induction log with
  | nil off => simp at hm
  | cons accepted rest ih =>
    rcases List.mem_cons.mp hm with heq | hm
    · obtain ⟨rfl, rfl⟩ := Prod.mk.inj heq
      exact ⟨accepted, Nat.le_refl _, rest.le⟩
    · obtain ⟨ha, hlo, hhi⟩ := ih hm
      exact ⟨ha, by omega, hhi⟩

/-- The bytes between the ends of a log are the bytes of its records. -/
theorem sum_totalSize (log : Log cfg v off recs e) :
    off + (recs.map fun x => x.2.totalSize).sum = e := by
  induction log with
  | nil off => simp
  | cons accepted rest ih =>
    rw [List.map_cons, List.sum_cons, ← Nat.add_assoc]
    exact ih

end Log

end EdgeSync
