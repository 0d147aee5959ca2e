/-
  Flashq/Recovery.lean --- `op_recover` up to the requeue loop, under a regime.

  Recovery starts from an image.  It chooses a region marked ACTIVE, makes sure
  the other one is erased, and scans the log; or it finds no region at all and
  initializes the partition.
-/
import EdgeSync.Flashq.Operations

set_option autoImplicit false

namespace EdgeSync

open Foundation

variable {cfg : FlashqConfig} {R : Regime cfg}

/-! ## Choosing a region -/

theorem regionHdrSize_le (cfg : FlashqConfig) : regionHdrSize ≤ cfg.regionSize := by
  have h1 := hdr_lt_dataStart
  have h2 := cfg.dataCapacity_eq
  omega

/-- What `op_recover` knows of a region: its header, or that the read failed. -/
structure HeaderSeen (R : Regime cfg) (m : Memory) (r : Fin 2) (hdr : RegionHdr) (valid : Bool) :
    Prop where
  seen : (hdr = headerAt (view cfg m r) ∧ (valid = true ↔ IsValid (view cfg m r))) ∨
    (valid = false ∧ ∃ k, R.env m (.read (cfg.regionOffset r) regionHdrSize) (.fail k))

theorem HeaderSeen.isActive {m : Memory} {r : Fin 2} {hdr : RegionHdr} {valid : Bool}
    (hs : HeaderSeen R m r hdr valid) (h : (valid && hdr.status == statusActive) = true) :
    IsActive (view cfg m r) ∧ hdr = headerAt (view cfg m r) := by
  obtain ⟨hv, hst⟩ := Bool.and_eq_true_iff.mp h
  rcases hs.seen with ⟨rfl, hvalid⟩ | ⟨hv', _⟩
  · exact ⟨⟨(hvalid.mp hv).2.1, by simpa using hst⟩, rfl⟩
  · rw [hv] at hv'
    exact absurd hv' (by simp)

theorem HeaderSeen.not_isActive {m : Memory} {r : Fin 2} {hdr : RegionHdr} {valid : Bool}
    (hs : HeaderSeen R m r hdr valid) (h : (valid && hdr.status == statusActive) = false)
    (hact : IsActive (view cfg m r)) :
    ∃ k, R.env m (.read (cfg.regionOffset r) regionHdrSize) (.fail k) := by
  rcases hs.seen with ⟨rfl, hvalid⟩ | ⟨_, hk⟩
  · rw [hvalid.mpr hact.isValid, hact.2] at h
    exact absurd h (by decide)
  · exact hk

section Choice

variable {m : Memory} {h0 h1 : RegionHdr} {v0 v1 : Bool}

/-- The chosen region is ACTIVE. -/
theorem chooseRegion_some (hs0 : HeaderSeen R m 0 h0 v0) (hs1 : HeaderSeen R m 1 h1 v1)
    {r : Fin 2} (h : chooseRegion h0 v0 h1 v1 = some r) :
    IsActive (view cfg m r) ∧
      (if r = 0 then h0.generation else h1.generation) = (headerAt (view cfg m r)).generation := by
  have take0 : (v0 && h0.status == statusActive) = true → r = 0 →
      IsActive (view cfg m r) ∧
        (if r = 0 then h0.generation else h1.generation) =
          (headerAt (view cfg m r)).generation := by
    rintro ha rfl
    obtain ⟨hact, rfl⟩ := hs0.isActive ha
    exact ⟨hact, if_pos rfl⟩
  have take1 : (v1 && h1.status == statusActive) = true → r = 1 →
      IsActive (view cfg m r) ∧
        (if r = 0 then h0.generation else h1.generation) =
          (headerAt (view cfg m r)).generation := by
    rintro ha rfl
    obtain ⟨hact, rfl⟩ := hs1.isActive ha
    exact ⟨hact, if_neg (by decide)⟩
  unfold chooseRegion at h
  cases ha0 : v0 && h0.status == statusActive <;> cases ha1 : v1 && h1.status == statusActive <;>
    simp only [ha0, ha1, Bool.and_true, Bool.and_false, if_true, if_false, Bool.false_eq_true,
      reduceCtorEq, Option.some.injEq] at h
  · exact take1 ha1 h.symm
  · exact take0 ha0 h.symm
  · split at h
    · exact take0 ha0 (Option.some.inj h).symm
    · exact take1 ha1 (Option.some.inj h).symm

/-- Where nothing is chosen, every region marked ACTIVE could not be read. -/
theorem chooseRegion_none (hs0 : HeaderSeen R m 0 h0 v0) (hs1 : HeaderSeen R m 1 h1 v1)
    (h : chooseRegion h0 v0 h1 v1 = none) (r : Fin 2) (hact : IsActive (view cfg m r)) :
    ∃ k, R.env m (.read (cfg.regionOffset r) regionHdrSize) (.fail k) := by
  have hnone : (v0 && h0.status == statusActive) = false ∧
      (v1 && h1.status == statusActive) = false := by
    unfold chooseRegion at h
    cases ha0 : v0 && h0.status == statusActive <;> cases ha1 : v1 && h1.status == statusActive <;>
      simp [ha0, ha1] at h ⊢
    split at h <;> simp at h
  rcases eq_or_eq_other r 0 with rfl | rfl
  · exact hs0.not_isActive hnone.1 hact
  · exact hs1.not_isActive hnone.2 hact

end Choice

/-- `hdrs[i]` and `valid[i]`. -/
theorem wp_readRegionHeader {P : Post FlashqCtx Memory EspErr (RegionHdr × Bool)}
    {ctx : FlashqCtx} {m : Memory} {r : Fin 2}
    (hok : ∀ hdr valid, HeaderSeen R m r hdr valid → P.ok (hdr, valid) ctx m) (hcut : P.cut m) :
    wp cfg.device R.env (readRegionHeader cfg r) P ctx m := by
  unfold readRegionHeader regionHeaderRead
  simp only [Prog.bind_eq, Prog.pure_eq, wp_bind, wp_attempt]
  refine wp_espPartitionRead R (cfg.regionOffset_add_le (regionHdrSize_le cfg)) ?_ hcut ?_
  · have hb := @bytesAt_region cfg m r 0 regionHdrSize
    rw [Nat.add_zero] at hb
    simp only [wp_ret, hb]
    refine hok _ _ ⟨.inl ⟨rfl, ?_⟩⟩
    simp [IsValid, Blank, headerAt, and_assoc]
  · rintro ⟨k, hk⟩
    simp only [wp_fail, wp_ret]
    exact hok _ _ ⟨.inr ⟨rfl, k, hk⟩⟩

/-! ## The scan -/

/-- Every record takes room, so a region holds fewer records than bytes. -/
theorem Log.length_le {v : Memory} {off e : Nat} {recs : List (Nat × RecordHdr)}
    (log : Log cfg v off recs e) : off + recs.length ≤ e := by
  induction log with
  | nil off => exact Nat.le_refl _
  | cons accepted rest ih =>
    rename_i h _
    have := h.updateSize_le
    rw [List.length_cons]
    omega

/-- The body check on a buffer the body was read into. -/
theorem verifyBody_overlay {h : RecordHdr} {body : Bytes} (hb : body.length = h.bodyBytes + 4)
    (buf : Bytes) (n : Nat) : verifyBody h (overlay buf 0 body) n = verifyBody h body n := by
  rw [overlay, List.take_zero, List.nil_append, verifyBody_append hb]

theorem bytesAt_region_add (m : Memory) (r : Fin 2) (off k n : Nat) :
    m.bytesAt (cfg.regionOffset r + off + k) n = (view cfg m r).bytesAt (off + k) n := by
  rw [Nat.add_assoc, bytesAt_region]

/-- The scan loop follows the log and stops at its end. -/
theorem wp_scanLoop {P : Post FlashqCtx Memory EspErr (Nat × UInt32)} {m : Memory} {r : Fin 2}
    {off e : Nat} {recs : List (Nat × RecordHdr)} (log : Log cfg (view cfg m r) off recs e)
    (stop : acceptAt cfg (view cfg m r) e = none) {fuel : Nat} (hfuel : recs.length ≤ fuel)
    {seq : UInt32} {ctx : FlashqCtx}
    (hguard : ∀ o h k, (o, h) ∈ recs →
      ¬ R.env m (.read (cfg.regionOffset r + o) hdrSize) (.fail k) ∧
      ¬ R.env m (.read (cfg.regionOffset r + o + hdrSize) (h.bodyBytes + 4)) (.fail k))
    (hok : ∀ vs, P.ok (e, recs.foldl (fun s x => if s < x.2.seq then x.2.seq else s) seq)
      { ctx with
        verifyScratch := vs
        index := (recs.foldl (fun r x => Replay.apply cfg r x.1 x.2)
          ⟨ctx.index, ctx.awaitingGcCount⟩).index
        awaitingGcCount := (recs.foldl (fun r x => Replay.apply cfg r x.1 x.2)
          ⟨ctx.index, ctx.awaitingGcCount⟩).awaitingGcCount } m)
    (hcut : P.cut m) :
    wp cfg.device R.env (scanLoop cfg r fuel off seq) P ctx m := by
  induction log generalizing fuel seq ctx with
  | nil off =>
    have hstop : ∀ vs, P.ok (off, seq) { ctx with verifyScratch := vs } m := hok
    cases fuel with
    | zero => exact wp_ret.mpr (hstop ctx.verifyScratch)
    | succ fuel =>
      unfold scanLoop
      simp only [Prog.bind_eq, Prog.pure_eq, wp_ite, wp_ret]
      refine ⟨fun hfit => ?_, fun _ => hstop ctx.verifyScratch⟩
      simp only [wp_bind]
      refine wp_espPartitionRead R (by rw [Nat.add_assoc]; exact cfg.regionOffset_add_le hfit) ?_
        hcut fun _ => wp_ret.mpr (hstop ctx.verifyScratch)
      rw [bytesAt_region]
      simp only
      cases hdec : decodeHeader ((view cfg m r).bytesAt off hdrSize) hdrSize with
      | none => exact wp_ret.mpr (hstop ctx.verifyScratch)
      | some hdr =>
        simp only [wp_ite, wp_ret, wp_bind]
        refine ⟨fun _ => hstop ctx.verifyScratch, fun hroom => ?_⟩
        have hroom' : off + hdr.usedSize ≤ cfg.regionSize := Nat.le_of_not_lt hroom
        have hin : off + hdrSize + (hdr.bodyBytes + 4) ≤ cfg.regionSize := by
          rw [RecordHdr.usedSize] at hroom'
          omega
        refine wp_espPartitionRead R
          (by rw [Nat.add_assoc, Nat.add_assoc, ← Nat.add_assoc off]
              exact cfg.regionOffset_add_le hin) ?_
          hcut fun _ => wp_ret.mpr (hstop ctx.verifyScratch)
        rw [bytesAt_region_add]
        simp only [wp_bind, wp_modify, wp_read]
        have hver : verifyBody hdr ((view cfg m r).bytesAt (off + hdrSize) (hdr.bodyBytes + 4))
            (hdr.bodyBytes + 4) = false := by
          cases hv : verifyBody hdr ((view cfg m r).bytesAt (off + hdrSize) (hdr.bodyBytes + 4))
              (hdr.bodyBytes + 4) with
          | false => rfl
          | true =>
            rw [acceptAt_eq_some.mpr ⟨hdec, hroom', hv⟩] at stop
            exact absurd stop (by simp)
        rw [verifyBody_overlay (Memory.length_bytesAt _ _ _), hver]
        exact wp_ret.mpr (hstop _)
  | cons accepted rest ih =>
    rename_i off e h recs
    obtain ⟨hdec, hfit, hver⟩ := acceptAt_eq_some.mp accepted
    have hused : h.usedSize = hdrSize + h.bodyBytes + 4 := rfl
    obtain ⟨hg1, hg2⟩ : (∀ k, ¬ R.env m (.read (cfg.regionOffset r + off) hdrSize) (.fail k)) ∧
        ∀ k, ¬ R.env m (.read (cfg.regionOffset r + off + hdrSize) (h.bodyBytes + 4)) (.fail k) :=
      ⟨fun k => (hguard off h k List.mem_cons_self).1, fun k => (hguard off h k List.mem_cons_self).2⟩
    cases fuel with
    | zero => simp at hfuel
    | succ fuel =>
      unfold scanLoop
      rw [if_pos (by omega)]
      simp only [Prog.bind_eq, Prog.pure_eq, wp_bind]
      refine wp_espPartitionRead R
        (by rw [Nat.add_assoc]; exact cfg.regionOffset_add_le (by omega)) ?_ hcut
        fun h => h.elim fun k hk => absurd hk (hg1 k)
      rw [bytesAt_region]
      simp only [hdec]
      rw [if_neg (show ¬ cfg.regionSize < off + (hdrSize + h.bodyBytes + 4) from Nat.not_lt.mpr hfit)]
      simp only [wp_bind]
      refine wp_espPartitionRead R
        (by rw [Nat.add_assoc, Nat.add_assoc, ← Nat.add_assoc off]
            exact cfg.regionOffset_add_le (by omega)) ?_
        hcut fun h => h.elim fun k hk => absurd hk (hg2 k)
      rw [bytesAt_region_add]
      simp only [wp_bind, wp_modify, wp_read]
      rw [verifyBody_overlay (Memory.length_bytesAt _ _ _), hver]
      simp only [if_true, wp_bind, wp_modify]
      have hnext : off + round4 (hdrSize + h.bodyBytes + 4) = off + h.totalSize := by
        rw [h.totalSize_eq]
        rfl
      rw [hnext]
      refine ih stop (by simpa using hfuel) (fun o h' k hm => hguard o h' k
        (List.mem_cons_of_mem _ hm)) ?_
      intro vs
      exact hok vs

/-- `scan_region` up to the requeue loop. -/
theorem wp_scanLog {P : Post FlashqCtx Memory EspErr Unit} {ctx : FlashqCtx} {m : Memory}
    {r : Fin 2} {generation : UInt32} {e : Nat} {recs : List (Nat × RecordHdr)}
    (hact : IsActive (view cfg m r)) (log : Log cfg (view cfg m r) dataStart recs e)
    (stop : acceptAt cfg (view cfg m r) e = none)
    (hok : ∀ ctx', ctx'.core =
      { region := r
        generation := generation
        cursor := e
        nextSeq := maxSeq recs + 1
        index := (replay cfg recs).index
        awaitingGcCount := (replay cfg recs).awaitingGcCount
        claimScratch := ctx.claimScratch } → P.ok () ctx' m)
    (hcut : P.cut m) :
    wp cfg.device R.env (scanLog cfg r generation) P ctx m := by
  have hstart : dataStart ≤ cfg.regionSize := by
    have := cfg.dataCapacity_eq
    omega
  have hend : e ≤ cfg.regionSize := log.le_regionSize rfl hstart
  have hlen := log.length_le
  unfold scanLog
  simp only [Prog.bind_eq, wp_bind, wp_modify]
  refine wp_scanLoop log stop (by omega) (fun o h k hm => R.scan_guard hact log hm) ?_ hcut
  intro vs
  exact hok _ rfl

/-! ## Initializing the partition -/

theorem not_isActive_of_erased {v : Memory} (h : ErasedFrom cfg v 0) : ¬ IsActive v :=
  fun ha => not_blank_of_magic ha.1 (blank_iff.mpr fun i hi =>
    h i (Nat.zero_le _) (Nat.lt_of_lt_of_le hi (regionHdrSize_le cfg)))

theorem blank_of_erased {v : Memory} (h : ErasedFrom cfg v 0) : Blank v :=
  blank_iff.mpr fun i hi => h i (Nat.zero_le _) (Nat.lt_of_lt_of_le hi (regionHdrSize_le cfg))

/-- An image without any region. -/
theorem Image.of_none {m : Memory} {Q : List StoredMessage → Prop}
    (h : ∀ r, ¬ IsActive (view cfg m r)) (hv : ∀ r, ¬ IsValid (view cfg m r)) (hQ : Q []) :
    Image R m Q where
  active r hr := absurd hr (h r)
  spare r _ hr := absurd hr (h (1 - r))
  fresh _ := ⟨hv, hQ⟩

/-- The context `op_recover` makes for a new partition. -/
def Core.initialized (claimScratch : Bytes) : Core where
  region := 0
  generation := 1
  cursor := dataStart
  nextSeq := 1
  index := []
  awaitingGcCount := 0
  claimScratch := claimScratch

theorem base_initialized {m : Memory} (hhdr : headerAt (view cfg m 0) = ⟨hdrMagic, 1, statusActive⟩)
    (hdata : ErasedFrom cfg (view cfg m 0) dataStart) (hother : ErasedFrom cfg (view cfg m 1) 0)
    (claimScratch : Bytes) : Base R (Core.initialized claimScratch) m [] := by
  have hcap := cfg.dataCapacity_eq
  have hsize := cfg.dataStart_add_le
  have hupdate : updateSize ≤ sectorSize := by decide
  refine ⟨⟨⟨by rw [Core.initialized, hhdr], by rw [Core.initialized, hhdr]⟩, by
    rw [Core.initialized, hhdr], not_isActive_of_erased hother, fun _ => hother, .nil _,
    R.tail_erased hdata, ?_, ?_⟩, rfl⟩
  · intro x hx
    exact absurd hx List.not_mem_nil
  · show liveBytes [] + updateSize ≤ cfg.dataCapacity
    rw [liveBytes_nil]
    omega

/-- A header depends on its first nine bytes. -/
theorem headerAt_congr_nine {v w : Memory} (h : AgreeOn v w 0 9) : headerAt v = headerAt w := by
  have hb : ∀ off n, off + n ≤ 9 → slice (v.bytesAt 0 regionHdrSize) off n =
      slice (w.bytesAt 0 regionHdrSize) off n := by
    intro off n hle
    have hle' : off + n ≤ regionHdrSize := Nat.le_trans hle (by decide)
    rw [Memory.slice_bytesAt hle', Memory.slice_bytesAt hle']
    exact h.bytesAt (Nat.zero_le _) (by omega)
  simp only [headerAt, RegionHdr.ofBytes, hb 0 4 (by omega), hb 4 4 (by omega), hb 8 1 (by omega)]

/-- A torn header of a new region: no region, or the whole header. -/
theorem torn_active {v : Memory} (hv : ErasedFrom cfg v 0) (n : Nat) :
    (¬ IsActive (v.program 0 ((RegionHdr.toBytes ⟨hdrMagic, 1, statusActive⟩).take n)) ∧
      ¬ IsValid (v.program 0 ((RegionHdr.toBytes ⟨hdrMagic, 1, statusActive⟩).take n))) ∨
    headerAt (v.program 0 ((RegionHdr.toBytes ⟨hdrMagic, 1, statusActive⟩).take n)) =
      ⟨hdrMagic, 1, statusActive⟩ := by
  by_cases hn : 9 ≤ n
  · right
    have hfull := headerAt_program hv ⟨hdrMagic, 1, statusActive⟩
    refine Eq.trans (headerAt_congr_nine ?_) hfull
    intro i _ hi
    have h := @Memory.program_take_at v 0 i n (RegionHdr.toBytes ⟨hdrMagic, 1, statusActive⟩)
      (by omega)
    rwa [Nat.zero_add] at h
  · left
    have hstatus : (headerAt (v.program 0
        ((RegionHdr.toBytes ⟨hdrMagic, 1, statusActive⟩).take n))).status = 0xFF := by
      have hsize := regionHdrSize_le cfg
      simp only [regionHdrSize] at hsize
      rw [headerAt_status, Memory.program_of_ge (by rw [List.length_take]; omega)]
      exact hv 8 (by omega) (by omega)
    refine ⟨fun ha => ?_, fun hval => ?_⟩
    · have := ha.2
      rw [hstatus] at this
      exact absurd this (by decide)
    · have := hval.2.2
      rw [hstatus] at this
      exact absurd this (by decide)

section Programs

variable {ctx : FlashqCtx} {m : Memory} {Q : List StoredMessage → Prop}
  {P : Post FlashqCtx Memory EspErr Unit}

theorem wp_eraseRegion {r : Fin 2} (hok : P.ok () ctx (m.erase (cfg.regionOffset r) cfg.regionSize))
    (hcut : P.cut m) (hcut' : P.cut (m.erase (cfg.regionOffset r) cfg.regionSize)) :
    wp cfg.device R.env (eraseRegion cfg r) P ctx m := by
  unfold eraseRegion
  simp only [Prog.bind_eq, wp_bind]
  refine wp_espPartitionEraseRange R (cfg.regionOffset_add_le (Nat.le_refl _)) ?_ hcut hcut'
  simpa using hok

theorem isValid_erase (m : Memory) (r a : Fin 2)
    (h : IsValid (view cfg (m.erase (cfg.regionOffset r) cfg.regionSize) a)) :
    IsValid (view cfg m a) := by
  by_cases ha : a = r
  · subst ha
    exact absurd (@blank_of_erased cfg _ fun i _ hi => view_erase_self hi) h.1
  · refine (isValid_congr ?_).mp h
    intro i _ hi
    exact view_erase_other ha (Nat.lt_of_lt_of_le hi (regionHdrSize_le cfg))

/-- The branch of `op_recover` that initializes the partition. -/
theorem wp_reinitialize (hvalid : ∀ r, ¬ IsValid (view cfg m r)) (hQ : Q [])
    (hok : ∀ (ctx' : FlashqCtx) m', ctx'.core = Core.initialized ctx.claimScratch →
      Base R ctx'.core m' [] → P.ok () ctx' m')
    (herr : R.mayFail → ∀ err ctx' m', Image R m' Q → P.error err ctx' m')
    (hcut : ∀ m', Image R m' Q → P.cut m') :
    wp cfg.device R.env ( reinitialize cfg) P ctx m := by
  have himage : ∀ m', (∀ r, ¬ IsValid (view cfg m' r)) → Image R m' Q := fun m' h =>
    Image.of_none (fun r hr => h r hr.isValid) h hQ
  have hv1 : ∀ r, ¬ IsValid (view cfg (m.erase (cfg.regionOffset 0) cfg.regionSize) r) :=
    fun r h => hvalid r (isValid_erase m 0 r h)
  have hv2 : ∀ r, ¬ IsValid (view cfg ((m.erase (cfg.regionOffset 0) cfg.regionSize).erase
      (cfg.regionOffset 1) cfg.regionSize) r) := fun r h => hv1 r (isValid_erase _ 1 r h)
  have he0 : ErasedFrom cfg (view cfg ((m.erase (cfg.regionOffset 0) cfg.regionSize).erase
      (cfg.regionOffset 1) cfg.regionSize) 0) 0 := by
    intro i _ hi
    rw [view_erase_other (by decide) hi, view_erase_self hi]
  have he1 : ErasedFrom cfg (view cfg ((m.erase (cfg.regionOffset 0) cfg.regionSize).erase
      (cfg.regionOffset 1) cfg.regionSize) 1) 0 := fun i _ hi => view_erase_self hi
  unfold reinitialize
  simp only [Prog.bind_eq, wp_bind]
  refine wp_eraseRegion ?_ (hcut _ (himage _ hvalid)) (hcut _ (himage _ hv1))
  refine wp_eraseRegion ?_ (hcut _ (himage _ hv1)) (hcut _ (himage _ hv2))
  generalize ((m.erase (cfg.regionOffset 0) cfg.regionSize).erase
      (cfg.regionOffset 1) cfg.regionSize) = m2 at hv2 he0 he1
  have hsize := cfg.dataStart_add_le
  simp only [dataStart, sectorSize] at hsize
  have hlen : (RegionHdr.toBytes ⟨hdrMagic, 1, statusActive⟩).length = 12 :=
    RegionHdr.length_toBytes _
  have hwritten : ∀ n, headerAt (view cfg (m2.program (cfg.regionOffset 0 + 0)
      ((RegionHdr.toBytes ⟨hdrMagic, 1, statusActive⟩).take n)) 0) = ⟨hdrMagic, 1, statusActive⟩ →
      ∀ cs, Base R (Core.initialized cs) (m2.program (cfg.regionOffset 0 + 0)
        ((RegionHdr.toBytes ⟨hdrMagic, 1, statusActive⟩).take n)) [] := by
    intro n hhdr cs
    refine base_initialized hhdr ?_ ?_ cs
    · rw [view_program_self]
      exact (he0.program _).mono (by rw [List.length_take, hlen, dataStart, sectorSize]; omega)
    · intro i hlo hi
      rw [view_program_other (by decide) (by rw [List.length_take]; omega) hi]
      exact he1 i hlo hi
  have hwhole := hwritten 12 (by
    rw [List.take_of_length_le (by omega), view_program_self]
    exact headerAt_program he0 _)
  rw [List.take_of_length_le (by omega)] at hwhole
  refine wp_partitionWriteVerify_erased (r := 0) R he0 (by omega) ?_ ?_ ?_
  · intro vs
    simp only [wp_modify]
    exact hok _ _ rfl (hwhole _)
  · exact fun hmay => herr hmay _ _ _ ((hwhole []).image hQ)
  · intro n
    rcases torn_active he0 n with ⟨hna, hnv⟩ | hhdr
    · refine hcut _ (himage _ fun r hr => ?_)
      rcases eq_or_eq_other r 0 with rfl | rfl
      · rw [view_program_self] at hr
        exact hnv hr
      · refine hv2 (1 - 0) ((isValid_congr ?_).mp hr)
        intro i _ hi
        refine view_program_other (by decide) (by rw [List.length_take]; omega)
          (Nat.lt_of_lt_of_le hi (regionHdrSize_le cfg))
    · refine hcut _ ((hwritten n ?_ []).image hQ)
      rw [view_program_self]
      exact hhdr

/-! ## Opening a log -/

/-- The flash once a region is chosen and the other one is erased. -/
structure Chosen (cfg : FlashqConfig) (m : Memory) (r : Fin 2) (m' : Memory) : Prop where
  active : IsActive (view cfg m r)
  agree : AgreeOn (view cfg m' r) (view cfg m r) 0 cfg.regionSize
  erased : ErasedFrom cfg (view cfg m' (1 - r)) 0

theorem Chosen.isActive {r : Fin 2} {m' : Memory} (h : Chosen cfg m r m') :
    IsActive (view cfg m' r) :=
  (isActive_congr (h.agree.mono (Nat.le_refl _) (regionHdrSize_le cfg))).mpr h.active

theorem Image.of_chosen {r : Fin 2} {m' : Memory} (img : Image R m Q) (h : Chosen cfg m r m') :
    Image R m' Q := by
  obtain ⟨q, hq, hg⟩ := img.active r h.active
  exact Image.of_one h.isActive hq (hg.congr (h.agree.mono (Nat.zero_le _) (Nat.le_refl _)))
    (not_isActive_of_erased h.erased) fun _ => h.erased

/-- `op_recover`, with a scan. -/
theorem wp_recoverWith {scan : Fin 2 → UInt32 → FlashqM Unit} (img : Image R m Q)
    (hfresh : (∀ r, ¬ IsActive (view cfg m r)) → ∀ (ctx' : FlashqCtx) m',
      ctx'.core = Core.initialized ctx.claimScratch → Base R ctx'.core m' [] → P.ok () ctx' m')
    (hscan : ∀ r m', Chosen cfg m r m' →
      wp cfg.device R.env (scan r (headerAt (view cfg m r)).generation) P ctx m')
    (herr : R.mayFail → ∀ err ctx' m', Image R m' Q → P.error err ctx' m')
    (hcut : ∀ m', Image R m' Q → P.cut m') :
    wp cfg.device R.env (recoverWith cfg scan) P ctx m := by
  unfold recoverWith
  simp only [Prog.bind_eq, wp_bind]
  refine wp_readRegionHeader (fun h0 v0 hs0 => ?_) (hcut _ img)
  simp only
  refine wp_readRegionHeader (fun h1 v1 hs1 => ?_) (hcut _ img)
  simp only
  cases hch : chooseRegion h0 v0 h1 v1 with
  | none =>
    have hlost := chooseRegion_none hs0 hs1 hch
    have hnone : ∀ r, ¬ IsActive (view cfg m r) := by
      intro r hact
      by_cases hr : IsActive (view cfg m (1 - r)) → r = R.guarded
      · obtain ⟨k, hk⟩ := hlost r hact
        exact R.header_guard hact hr hk
      · -- both are ACTIVE, and the other one could be read
        obtain ⟨hother, hne⟩ := Classical.not_imp.mp hr
        obtain ⟨k, hk⟩ := hlost _ hother
        refine R.header_guard hother (fun _ => ?_) hk
        rcases eq_or_eq_other R.guarded r with h | h
        · exact absurd h.symm hne
        · exact h.symm
    obtain ⟨hvalid, hQ⟩ := img.fresh hnone
    exact wp_reinitialize hvalid hQ (hfresh hnone) herr hcut
  | some r =>
    obtain ⟨hact, hgen⟩ := chooseRegion_some hs0 hs1 hch
    simp only [wp_bind]
    have herase : ErasedFrom cfg (view cfg (m.erase (cfg.regionOffset (1 - r)) cfg.regionSize)
        (1 - r)) 0 := fun i _ hi => view_erase_self hi
    have hchosen : Chosen cfg m r (m.erase (cfg.regionOffset (1 - r)) cfg.regionSize) :=
      ⟨hact, fun i _ hi => view_erase_other (other_ne r).symm hi, herase⟩
    rw [hgen]
    refine wp_ensureRegionErased R (fun hblank => hscan r m ⟨hact, AgreeOn.refl _ _ _, ?_⟩)
      (hscan r _ hchosen) (hcut _ img) (hcut _ (img.of_chosen hchosen))
    refine img.spare _ (fun ha => not_blank_of_magic ha.1 hblank) ?_ hblank
    rw [other_other]
    exact hact

/-- The log `scan_region` finds, and the context it makes of it. -/
structure Opened (R : Regime cfg) (m : Memory) (c0 : Core) (m0 : Memory)
    (recs0 : List (Nat × RecordHdr)) : Prop where
  chosen : Chosen cfg m c0.region m0
  base : Base R c0 m0 recs0
  replay_eq : replay cfg recs0 = ⟨c0.index, c0.awaitingGcCount⟩
  nextSeq_eq : c0.nextSeq = maxSeq recs0 + 1

/-- The log of the region in the original flash. -/
theorem Opened.log {c0 : Core} {m0 : Memory} {recs0 : List (Nat × RecordHdr)}
    (o : Opened R m c0 m0 recs0) : Log cfg (view cfg m c0.region) dataStart recs0 c0.cursor :=
  o.base.log.congr ((o.chosen.agree.mono (Nat.zero_le _) o.base.cursor_le).symm)

/-- Scanning a chosen region. -/
theorem wp_scanLog_chosen {r : Fin 2} {m' : Memory} (img : Image R m Q) (hc : Chosen cfg m r m')
    (hok : ∀ (ctx0 : FlashqCtx) recs0, Opened R m ctx0.core m' recs0 →
      ctx0.claimScratch = ctx.claimScratch →
      Q (contents (view cfg m' ctx0.activeRegion) ctx0.index) → P.ok () ctx0 m')
    (hcut : ∀ m', Image R m' Q → P.cut m') :
    wp cfg.device R.env (scanLog cfg r (headerAt (view cfg m r)).generation) P ctx m' := by
  obtain ⟨q, hq, hg⟩ := (img.of_chosen hc).active r hc.isActive
  obtain ⟨recs, e, hlog, htail, hloc, hfit, hqe⟩ := hg.exists_log
  refine wp_scanLog hc.isActive hlog (R.tail_stop htail) ?_ (hcut _ (img.of_chosen hc))
  intro ctx0 hcore
  have hreg : ctx0.activeRegion = r := congrArg Core.region hcore
  have hidx : ctx0.index = (replay cfg recs).index := congrArg Core.index hcore
  refine hok ctx0 recs ?_ (congrArg Core.claimScratch hcore) ?_
  · rw [hcore]
    refine ⟨hc, ⟨⟨hc.isActive, ?_, not_isActive_of_erased hc.erased, fun _ => hc.erased, hlog,
      htail, hloc, hfit⟩, rfl⟩, rfl, rfl⟩
    exact congrArg RegionHdr.generation
      (headerAt_congr (hc.agree.mono (Nat.le_refl _) (regionHdrSize_le cfg)))
  · rw [hreg, hidx, hqe]
    exact hq

end Programs

end EdgeSync
