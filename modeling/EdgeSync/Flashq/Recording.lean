/-
  Flashq/Recording.lean --- what it takes to record a change of state.

  An UPDATE record is appended where the flash driver works and the bytes at the cursor take
  it.  Where a compaction comes first, the other region has to be erased as far as it is
  going to be filled, every record has to be readable by its entry and fit the encoder, and
  there has to be room behind them.  Nothing else is asked of the log, and the calls that a
  compaction makes for the sake of the old region may fail.
-/
import EdgeSync.Encodable
import EdgeSync.Flashq.Drain
import EdgeSync.Flashq.Ram

set_option autoImplicit false

namespace EdgeSync

open Foundation

/-! ## The condition -/

/-- Programming the bytes makes them readable. -/
def Takes (m : Memory) (addr : Nat) (data : Bytes) : Prop :=
  (m.program addr data).bytesAt addr data.length = data

section Condition

variable (cfg : FlashqConfig)

/-- The calls that need not work where region `r` is active: those at its header and its
erasure, which a compaction makes when it is done, and the first look at the header of the
other region. -/
def Dispensable (r : Fin 2) (generation : UInt32) (m : Memory) : FlashCall → Prop
  | .read addr len =>
      (addr = cfg.regionOffset r ∧ len = regionHdrSize) ∨
      (addr = cfg.regionOffset r + statusOffset ∧ len = 1) ∨
      (addr = cfg.regionOffset (1 - r) ∧ len = regionHdrSize ∧
        m.bytesAt addr len ≠ RegionHdr.toBytes ⟨hdrMagic, generation + 1, statusCompacting⟩)
  | .write addr data => addr = cfg.regionOffset r + statusOffset ∧ data = [statusStale]
  | .erase addr _ => addr = cfg.regionOffset r

/-- No other call fails. -/
def FlashWorks (env : Env FlashCall Memory FlashEvent) (ctx : FlashqCtx) : Prop :=
  ∀ m c n, env m c (.fail n) → Dispensable cfg ctx.activeRegion ctx.activeGeneration m c

/-- The record of the entry can be read, and encoded again. -/
structure FlashqIndexEntry.Copyable (e : FlashqIndexEntry) : Prop where
  readable : e.messageOffset.toNat + (hdrSize + (e.destinationLen.toNat + e.payloadLen.toNat)) ≤
    cfg.regionSize
  encodable : e.toEntryMeta.Encodable cfg.scratchSize

/-- What a compaction, and an UPDATE record behind it, need. -/
structure Compactable (ctx : FlashqCtx) (m : Memory) : Prop where
  spare : Blank (view cfg m (1 - ctx.activeRegion)) → ∀ i, dataStart ≤ i →
    i < dataStart + liveBytes ctx.index + updateSize + updateSize →
    view cfg m (1 - ctx.activeRegion) i = 0xFF
  copyable : ∀ e ∈ ctx.index, e.Copyable cfg
  reserve : HasReserve cfg ctx.index

/-- There is room for the record. -/
def RoomFor (ctx : FlashqCtx) (m : Memory) (h : RecordHdr) : Prop :=
  (ctx.WantsCompaction cfg updateSize → Compactable cfg ctx m) ∧
  (¬ ctx.WantsCompaction cfg updateSize →
    Takes m (cfg.regionOffset ctx.activeRegion + ctx.cursor) (recordBytes h []))

/-- There is room for what the settlement records. -/
def Recordable (ctx : FlashqCtx) (m : Memory) : StorageOp → Prop
  | .markDelivered id => ∀ e ∈ ctx.index, e.id = id →
      RoomFor cfg ctx m (progressHdr id (e.progress.inState .delivered) ctx.nextSeq)
  | .scheduleRetry id nextRetryTimeUs deadLetter lastError => ∀ e ∈ ctx.index, e.id = id →
      RoomFor cfg ctx m
        (progressHdr id (e.progress.retried nextRetryTimeUs deadLetter lastError) ctx.nextSeq)
  | _ => True

variable {cfg}

theorem FlashqIndexEntry.copyable_iff {e : FlashqIndexEntry} : e.Copyable cfg ↔
    e.messageOffset.toNat + (hdrSize + (e.destinationLen.toNat + e.payloadLen.toNat)) ≤
      cfg.regionSize ∧ e.destinationLen.toNat ≤ maxDestinationLen ∧
    recordTotalSize e.destinationLen e.payloadLen ≤ cfg.scratchSize := by
  constructor
  · intro h
    exact ⟨h.readable, h.encodable.destination, h.encodable.record⟩
  · rintro ⟨hread, hdest, hrecord⟩
    exact ⟨hread, hdest, hrecord⟩

instance (e : FlashqIndexEntry) : Decidable (e.Copyable cfg) :=
  decidable_of_iff _ FlashqIndexEntry.copyable_iff.symm

theorem compactable_iff {ctx : FlashqCtx} {m : Memory} : Compactable cfg ctx m ↔
    (Blank (view cfg m (1 - ctx.activeRegion)) →
      ∀ n < liveBytes ctx.index + updateSize + updateSize,
        view cfg m (1 - ctx.activeRegion) (dataStart + n) = 0xFF) ∧
    (∀ e ∈ ctx.index, e.Copyable cfg) ∧
    liveBytes ctx.index + updateSize + updateSize ≤ cfg.dataCapacity := by
  constructor
  · intro h
    refine ⟨fun hblank n hn => ?_, h.copyable, h.reserve⟩
    exact h.spare hblank _ (Nat.le_add_right _ _) (by omega)
  · rintro ⟨hspare, hcopy, hreserve⟩
    refine ⟨fun hblank i hi hlim => ?_, hcopy, hreserve⟩
    obtain ⟨n, rfl⟩ := Nat.exists_eq_add_of_le hi
    exact hspare hblank n (by omega)

instance (v : Memory) : Decidable (Blank v) := inferInstanceAs (Decidable (_ = _))

instance (ctx : FlashqCtx) (m : Memory) : Decidable (Compactable cfg ctx m) :=
  decidable_of_iff _ compactable_iff.symm

instance (m : Memory) (addr : Nat) (data : Bytes) : Decidable (Takes m addr data) :=
  inferInstanceAs (Decidable (_ = _))

instance (ctx : FlashqCtx) (m : Memory) (h : RecordHdr) : Decidable (RoomFor cfg ctx m h) :=
  inferInstanceAs (Decidable (_ ∧ _))

instance (ctx : FlashqCtx) (m : Memory) (op : StorageOp) : Decidable (Recordable cfg ctx m op) :=
  match op with
  | .markDelivered _ => inferInstanceAs (Decidable (∀ e ∈ ctx.index, _ → _))
  | .scheduleRetry _ _ _ _ => inferInstanceAs (Decidable (∀ e ∈ ctx.index, _ → _))
  | .enqueue _ => isTrue trivial
  | .claimNext _ => isTrue trivial
  | .remove _ => isTrue trivial
  | .findDropCandidate _ => isTrue trivial
  | .getStats _ => isTrue trivial

end Condition

/-! ## Calls of the driver -/

section Driver

variable {cfg : FlashqConfig} {env : Env FlashCall Memory FlashEvent} {ctx : FlashqCtx} {m : Memory}
  {addr len : Nat} {data : Bytes}

theorem wp_flashRead {P : Post FlashqCtx Memory EspErr (Option Bytes)}
    (hfit : addr + len ≤ cfg.partitionSize.toNat) (hok : P.ok (some (m.bytesAt addr len)) ctx m)
    (hfail : ∀ n, env m (.read addr len) (.fail n) → P.ok none ctx m) (hcut : ∀ m', P.cut m') :
    wp cfg.device env (espPartitionRead addr len) P ctx m := by
  refine wp_call.mpr fun ev hev => ?_
  cases ev with
  | run =>
    simp only [FlashqConfig.device, flashDevice, if_pos hfit]
    exact wp_ret.mpr hok
  | fail n =>
    simp only [FlashqConfig.device, flashDevice, if_pos hfit]
    exact wp_ret.mpr (hfail n hev)
  | cut n =>
    simp only [FlashqConfig.device, flashDevice, if_pos hfit]
    exact hcut _
  | tear n =>
    simp only [FlashqConfig.device, flashDevice, if_pos hfit]
    exact hcut _

theorem wp_flashErase {P : Post FlashqCtx Memory EspErr Bool}
    (hfit : addr + len ≤ cfg.partitionSize.toNat) (hok : P.ok true ctx (m.erase addr len))
    (hfail : ∀ n, ¬ env m (.erase addr len) (.fail n)) (hcut : ∀ m', P.cut m') :
    wp cfg.device env (espPartitionEraseRange addr len) P ctx m := by
  refine wp_call.mpr fun ev hev => ?_
  cases ev with
  | run =>
    simp only [FlashqConfig.device, flashDevice, if_pos hfit]
    exact wp_ret.mpr hok
  | fail n => exact absurd hev (hfail n)
  | cut n =>
    simp only [FlashqConfig.device, flashDevice, if_pos hfit]
    exact hcut _
  | tear n =>
    simp only [FlashqConfig.device, flashDevice, if_pos hfit]
    exact hcut _

/-- A verified write of bytes that the flash takes. -/
theorem wp_writeTaken {P : Post FlashqCtx Memory EspErr Unit}
    (hfit : addr + data.length ≤ cfg.partitionSize.toNat) (htakes : Takes m addr data)
    (hwrite : ∀ n, ¬ env m (.write addr data) (.fail n))
    (hread : ∀ n, ¬ env (m.program addr data) (.read addr data.length) (.fail n))
    (hok : ∀ b, P.ok () { ctx with verifyScratch := b } (m.program addr data))
    (hcut : ∀ m', P.cut m') : wp cfg.device env (partitionWriteVerify addr data) P ctx m := by
  unfold partitionWriteVerify
  simp only [Prog.bind_eq, wp_bind]
  refine wp_call.mpr fun ev hev => ?_
  cases ev with
  | run =>
    simp only [FlashqConfig.device, flashDevice, if_pos hfit]
    refine wp_ret.mpr ?_
    simp only [if_true, wp_bind]
    refine wp_flashRead hfit ?_ (fun n hn => absurd hn (hread n)) hcut
    have htake : (overlay ctx.verifyScratch 0 data).take data.length = data :=
      take_overlay_zero _ _
    simp only [show (m.program addr data).bytesAt addr data.length = data from htakes, wp_bind,
      wp_modify, wp_read, htake, if_true, Prog.pure_eq, wp_ret]
    exact hok _
  | fail n => exact absurd hev (hwrite n)
  | cut n =>
    simp only [FlashqConfig.device, flashDevice, if_pos hfit]
    exact hcut _
  | tear n =>
    simp only [FlashqConfig.device, flashDevice, if_pos hfit]
    exact hcut _

end Driver

/-! ## The compaction -/

section Compaction

variable {cfg : FlashqConfig} {env : Env FlashCall Memory FlashEvent} {ctx : FlashqCtx} {m : Memory}
  {r t : Fin 2} {generation : UInt32} {addr len cursor limit : Nat} {data : Bytes}

/-- A region offset determines the region. -/
theorem regionOffset_ne (cfg : FlashqConfig) {r a : Fin 2} (h : r ≠ a) {i j : Nat}
    (hi : i < cfg.regionSize) (hj : j < cfg.regionSize) :
    cfg.regionOffset r + i ≠ cfg.regionOffset a + j := by
  rcases regionOffset_other cfg h with hle | hle
  · omega
  · omega

theorem statusOffset_lt (cfg : FlashqConfig) : statusOffset < cfg.regionSize :=
  Nat.lt_of_lt_of_le (show statusOffset < regionHdrSize by decide) (regionHdrSize_le cfg)

/-- Longer writes are not dispensable. -/
theorem not_dispensable_write (h : data.length ≠ 1) :
    ¬ Dispensable cfg r generation m (.write addr data) := by
  rintro ⟨-, rfl⟩
  exact h rfl

/-- Nor are reads of any other length. -/
theorem not_dispensable_read (h : len ≠ regionHdrSize) (h' : len ≠ 1) :
    ¬ Dispensable cfg r generation m (.read addr len) := by
  rintro (⟨-, hlen⟩ | ⟨-, hlen⟩ | ⟨-, hlen, -⟩)
  · exact h hlen
  · exact h' hlen
  · exact h hlen

/-- Erased flash takes anything. -/
theorem takes_of_erased {off : Nat}
    (h : ∀ i, off ≤ i → i < off + data.length → view cfg m t i = 0xFF) :
    Takes m (cfg.regionOffset t + off) data := by
  rw [Takes, bytesAt_region, view_program_self]
  refine Memory.bytesAt_eq_iff.mpr fun i hi => ?_
  exact Memory.program_at_of_erased hi (h _ (Nat.le_add_right _ _) (Nat.add_lt_add_left hi _))

variable (cfg) in
/-- The region is being filled: erased from the cursor to the limit. -/
structure Filling (m : Memory) (t : Fin 2) (cursor limit : Nat) : Prop where
  status : view cfg m t statusOffset = statusCompacting
  start : dataStart ≤ cursor
  erased : ∀ i, cursor ≤ i → i < limit → view cfg m t i = 0xFF
  within : limit ≤ cfg.regionSize

theorem Filling.program (h : Filling cfg m t cursor limit) (data : Bytes) :
    Filling cfg (m.program (cfg.regionOffset t + cursor) data) t (cursor + data.length) limit where
  status := by
    rw [view_program_self, Memory.program_of_lt, h.status]
    have hstart := h.start
    simp only [statusOffset, dataStart, sectorSize] at *
    omega
  start := h.start.trans (Nat.le_add_right _ _)
  erased i hi hlim := by
    rw [view_program_self, Memory.program_of_ge hi]
    exact h.erased i (by omega) hlim
  within := h.within

/-- One more record. -/
theorem wp_fill {P : Post FlashqCtx Memory EspErr Unit}
    (hworks : ∀ m c n, env m c (.fail n) → Dispensable cfg r generation m c)
    (h : Filling cfg m t cursor limit) (hlen : regionHdrSize < data.length)
    (hroom : cursor + data.length ≤ limit)
    (hok : ∀ b m', Filling cfg m' t (cursor + data.length) limit →
      P.ok () { ctx with verifyScratch := b } m') (hcut : ∀ m', P.cut m') :
    wp cfg.device env (partitionWriteVerify (cfg.regionOffset t + cursor) data) P ctx m := by
  have hone : data.length ≠ 1 := by
    simp only [regionHdrSize] at hlen
    omega
  refine wp_writeTaken ?_ (takes_of_erased fun i hi hlim => h.erased i hi (by omega)) ?_ ?_
    (fun b => hok b _ (h.program data)) hcut
  · rw [Nat.add_assoc]
    exact cfg.regionOffset_add_le (hroom.trans h.within)
  · exact fun n hn => not_dispensable_write hone (hworks _ _ n hn)
  · exact fun n hn => not_dispensable_read (Nat.ne_of_gt hlen) hone (hworks _ _ n hn)

/-- One turn of the copy loop. -/
theorem wp_copyEntry_fills {e : FlashqIndexEntry} {seq : UInt32} {i : Nat}
    (hworks : ∀ m c n, env m c (.fail n) → Dispensable cfg r generation m c)
    (h : Filling cfg m t cursor limit) (he : e.Copyable cfg)
    (hroom : cursor + e.recordSize ≤ limit) :
    wp cfg.device env (copyEntry cfg r t cursor seq i e)
      ⟨fun len _ m' => len ≤ e.recordSize ∧ Filling cfg m' t (cursor + len) limit,
        fun _ _ _ => False, fun _ => True⟩ ctx m := by
  have hread : hdrSize + (e.destinationLen.toNat + e.payloadLen.toNat) ≠ 1 := by
    simp only [hdrSize]
    omega
  have hread' : hdrSize + (e.destinationLen.toNat + e.payloadLen.toNat) ≠ regionHdrSize := by
    simp only [hdrSize, regionHdrSize]
    omega
  unfold copyEntry
  simp only [Prog.bind_eq, wp_bind]
  refine wp_flashRead ?_ ?_
    (fun n hn => absurd (hworks _ _ n hn) (not_dispensable_read hread' hread)) fun _ => trivial
  · rw [Nat.add_assoc]
    exact cfg.regionOffset_add_le he.readable
  · simp only [wp_bind, wp_modify, wp_read]
    generalize hvs : overlay ctx.verifyScratch 0 _ = vs
    have hd : strlen (overlay (List.replicate (maxDestinationLen + 1) 0) 0
        (slice vs hdrSize e.destinationLen.toNat)) ≤ e.destinationLen.toNat := by
      refine (strlen_overlay_zeros _ _).trans ?_
      rw [length_slice]
      exact Nat.min_le_left _ _
    obtain ⟨hdest, hsize⟩ := he.encodable.encodes hd
    obtain ⟨⟨buf, encLen⟩, henc⟩ := @encodeMessageFull_isSome ctx.writeScratch _ e.id _ e.priority
      e.state e.attemptCount e.createdAtUs e.lastAttemptAtUs e.nextRetryAtUs e.lastError
      (.bytes (slice vs (hdrSize + e.destinationLen.toNat) e.payloadLen.toNat)) _ seq hdest
      (hsize.trans he.encodable.record)
    obtain ⟨hlen, hrec⟩ := encodeMessageFull_length henc
    rw [← hrec] at hsize
    have hlong : regionHdrSize < encLen := by
      have := le_round4 (hdrSize + (UInt16.ofNat (strlen (overlay
        (List.replicate (maxDestinationLen + 1) 0) 0
        (slice vs hdrSize e.destinationLen.toNat)))).toNat + e.payloadLen.toNat + 4)
      rw [← recordTotalSize, ← hrec] at this
      simp only [hdrSize] at this
      simp only [regionHdrSize]
      omega
    simp only [henc, wp_bind, wp_modify]
    have hroom' : cursor + encLen ≤ limit := (Nat.add_le_add_left hsize _).trans hroom
    refine wp_fill hworks h (by rw [hlen]; exact hlong) (by rw [hlen]; exact hroom')
      (fun b m' hm' => ?_) fun _ => trivial
    rw [hlen] at hm'
    simp only [assignEntry, wp_modify, Prog.pure_eq, wp_ret]
    exact ⟨hsize, hm'⟩

/-- The copy loop. -/
theorem wp_copyLoop_fills {entries : List FlashqIndexEntry} {seq : UInt32} {i : Nat}
    (hworks : ∀ m c n, env m c (.fail n) → Dispensable cfg r generation m c)
    (h : Filling cfg m t cursor limit) (hcopy : ∀ e ∈ entries, e.Copyable cfg)
    (hroom : cursor + liveBytes entries ≤ limit) :
    wp cfg.device env (copyLoop cfg r t entries i cursor seq)
      ⟨fun out _ m' => out.1 ≤ cursor + liveBytes entries ∧ Filling cfg m' t out.1 limit,
        fun _ _ _ => False, fun _ => True⟩ ctx m := by
  induction entries generalizing ctx m cursor seq i with
  | nil => exact wp_ret.mpr ⟨Nat.le_add_right _ _, h⟩
  | cons e entries ih =>
    have hlive : liveBytes (e :: entries) = e.recordSize + liveBytes entries := rfl
    rw [hlive] at hroom ⊢
    unfold copyLoop
    simp only [Prog.bind_eq]
    refine wp_seq (wp_copyEntry_fills hworks h (hcopy e List.mem_cons_self) (by omega))
      (fun len c m' hc => ?_) (fun _ _ _ hfalse => hfalse) fun _ _ => trivial
    obtain ⟨hlen, hfill⟩ := hc
    refine wp_mono (ih hfill (fun e he => hcopy e (List.mem_cons_of_mem _ he)) (by omega))
      (fun out c' m'' hc' => ?_) (fun _ _ _ hfalse => hfalse) fun _ _ => trivial
    obtain ⟨hout, hfill'⟩ := hc'
    exact ⟨by omega, hfill'⟩

/-- The region that a compaction goes to is erased. -/
theorem wp_ensureErased_works {P : Post FlashqCtx Memory EspErr Unit} (hlimit : limit ≤ cfg.regionSize)
    (hblank : Blank (view cfg m t) → ∀ i, dataStart ≤ i → i < limit → view cfg m t i = 0xFF)
    (herase : ∀ m n, ¬ env m (.erase (cfg.regionOffset t) cfg.regionSize) (.fail n))
    (hok : ∀ m', (∀ i < regionHdrSize, view cfg m' t i = 0xFF) →
      (∀ i, dataStart ≤ i → i < limit → view cfg m' t i = 0xFF) → P.ok () ctx m')
    (hcut : ∀ m', P.cut m') : wp cfg.device env (ensureRegionErased cfg t) P ctx m := by
  have hhdr := regionHdrSize_le cfg
  have hdo : wp cfg.device env (eraseRegion cfg t) P ctx m := by
    unfold eraseRegion
    simp only [Prog.bind_eq, wp_bind]
    refine wp_flashErase (cfg.regionOffset_add_le (Nat.le_refl _)) ?_ (herase m) hcut
    simp only [if_true, Prog.pure_eq, wp_ret]
    exact hok _ (fun i hi => view_erase_self (by omega)) fun i _ hi => view_erase_self (by omega)
  unfold ensureRegionErased regionHeaderRead
  simp only [Prog.bind_eq, wp_bind, wp_attempt]
  refine wp_flashRead (cfg.regionOffset_add_le hhdr) ?_ (fun _ _ => wp_fail.mpr hdo) hcut
  have hb := @bytesAt_region cfg m t 0 regionHdrSize
  rw [Nat.add_zero] at hb
  simp only [Prog.pure_eq, wp_ret, hb]
  refine wp_ite.mpr ⟨fun hall => wp_ret.mpr (hok m (fun i hi => ?_) (hblank hall)), fun _ => hdo⟩
  have hget := Memory.getElem?_bytesAt (view cfg m t) 0 hi
  rw [Nat.zero_add] at hget
  exact beq_iff_eq.mp (List.all_eq_true.mp hall _ (List.mem_of_getElem? hget))

/-- The header of the region that a compaction goes to. -/
theorem wp_startRegion {P : Post FlashqCtx Memory EspErr Unit}
    (hworks : ∀ m c n, env m c (.fail n) → Dispensable cfg r generation m c)
    (hlimit : limit ≤ cfg.regionSize) (hhead : ∀ i < regionHdrSize, view cfg m (1 - r) i = 0xFF)
    (herased : ∀ i, dataStart ≤ i → i < limit → view cfg m (1 - r) i = 0xFF)
    (hok : ∀ b m', Filling cfg m' (1 - r) dataStart limit → P.ok () { ctx with verifyScratch := b } m')
    (hcut : ∀ m', P.cut m') :
    wp cfg.device env (partitionWriteVerify (cfg.regionOffset (1 - r))
      (RegionHdr.toBytes ⟨hdrMagic, generation + 1, statusCompacting⟩)) P ctx m := by
  have hpos : 0 < cfg.regionSize := Nat.zero_lt_of_lt (statusOffset_lt cfg)
  generalize hhdr : RegionHdr.toBytes ⟨hdrMagic, generation + 1, statusCompacting⟩ = hdr
  have hlen : hdr.length = regionHdrSize := by
    rw [← hhdr]
    exact RegionHdr.length_toBytes _
  have htakes : Takes m (cfg.regionOffset (1 - r)) hdr :=
    @takes_of_erased cfg m (1 - r) hdr 0 fun i _ hi => hhead i (by omega)
  have hne : cfg.regionOffset (1 - r) ≠ cfg.regionOffset r :=
    @regionOffset_ne cfg _ _ (other_ne r) 0 0 hpos hpos
  have hview := @view_program_self cfg m (1 - r) 0 hdr
  rw [Nat.add_zero] at hview
  refine wp_writeTaken ?_ htakes (fun n hn => ?_) (fun n hn => ?_) (fun b => hok b _ ⟨?_, le_rfl,
    fun i hi hlim => ?_, hlimit⟩) hcut
  · refine cfg.regionOffset_add_le ?_
    rw [hlen]
    exact regionHdrSize_le cfg
  · exact not_dispensable_write (by rw [hlen]; decide) (hworks _ _ n hn)
  · -- the header that is read back is the new one
    rcases hworks _ _ n hn with ⟨haddr, _⟩ | ⟨_, hone⟩ | ⟨_, _, hbytes⟩
    · exact hne haddr
    · rw [hlen] at hone
      exact absurd hone (by decide)
    · rw [hhdr] at hbytes
      exact hbytes htakes
  · have hnew : headerAt (view cfg (m.program (cfg.regionOffset (1 - r)) hdr) (1 - r)) =
        ⟨hdrMagic, generation + 1, statusCompacting⟩ := by
      refine headerAt_of_bytes ?_
      rw [← bytesAt_region, Nat.add_zero, hhdr, ← hlen]
      exact htakes
    exact (headerAt_status _).symm.trans (congrArg RegionHdr.status hnew)
  · rw [hview, Memory.program_of_ge]
    · exact herased i hi hlim
    · rw [hlen]
      exact hdr_lt_dataStart.trans hi

/-- The end of a compaction is at the old region, and its errors are caught. -/
theorem wp_superseded {P : Post FlashqCtx Memory EspErr Unit} (hlimit : limit ≤ cfg.regionSize)
    (h : ∀ i, cursor ≤ i → i < limit → view cfg m (1 - r) i = 0xFF)
    (hok : ∀ c m', (∀ i, cursor ≤ i → i < limit → view cfg m' (1 - r) i = 0xFF) → P.ok () c m')
    (hcut : ∀ m', P.cut m') : wp cfg.device env
      ((partitionWriteVerify (cfg.regionOffset r + statusOffset) [statusStale]).attempt.bind
        fun _ => (ensureRegionErased cfg r).attempt.bind fun _ => Prog.ret ()) P ctx m := by
  have hstatus : statusOffset + 1 ≤ cfg.regionSize := statusOffset_lt cfg
  generalize hprog : (partitionWriteVerify (cfg.regionOffset r + statusOffset)
    [statusStale]).attempt.bind (fun _ => (ensureRegionErased cfg r).attempt.bind
      fun _ => (Prog.ret () : FlashqM Unit)) = prog
  have honly : Only (Sparing cfg (1 - r)) prog := by
    have hwrite := @only_partitionWriteVerify cfg (1 - r) statusOffset [statusStale] hstatus
    have herase := @only_ensureRegionErased cfg (1 - r)
    rw [other_other] at hwrite herase
    rw [← hprog]
    exact Only.bind hwrite.attempt fun _ => Only.bind herase.attempt fun _ => Only.ret _
  have hraises : Raises (fun _ : EspErr => False) prog := by
    rw [← hprog]
    exact Raises.bind (Raises.attempt _) fun _ => Raises.bind (Raises.attempt _) fun _ =>
      Raises.ret _
  have hspared : wp cfg.device env prog
      (.always fun d => ∀ i, cursor ≤ i → i < limit → view cfg d (1 - r) i = 0xFF) ctx m := by
    refine honly.keeps (fun d c ev hc hd i hi hlim => ?_) h
    rw [hc.respond d ev i (Nat.zero_le _) (hlim.trans_le hlimit)]
    exact hd i hi hlim
  exact wp_mono (wp_and hspared (leaves_wp (hraises _))) (fun _ c m' hc => hok c m' hc.1)
    (fun _ _ _ hc => hc.2.elim) fun m' _ => hcut m'

/-- The status flips and the erasure.  What follows the first flip may fail. -/
theorem wp_commitTarget_works {P : Post FlashqCtx Memory EspErr Unit}
    (hworks : ∀ m c n, env m c (.fail n) → Dispensable cfg r generation m c)
    (h : Filling cfg m (1 - r) cursor limit)
    (hok : ∀ c m', (∀ i, cursor ≤ i → i < limit → view cfg m' (1 - r) i = 0xFF) → P.ok () c m')
    (hcut : ∀ m', P.cut m') : wp cfg.device env (commitTarget cfg r (1 - r)) P ctx m := by
  have hstatus : statusOffset + 1 ≤ cfg.regionSize := statusOffset_lt cfg
  have hne : ∀ i < cfg.regionSize,
      cfg.regionOffset (1 - r) + statusOffset ≠ cfg.regionOffset r + i := fun i hi =>
    regionOffset_ne cfg (other_ne r) hstatus hi
  have htakes : Takes m (cfg.regionOffset (1 - r) + statusOffset) [statusActive] := by
    rw [Takes, bytesAt_region, view_program_self]
    refine Memory.bytesAt_eq_iff.mpr fun i hi => ?_
    obtain rfl : i = 0 := Nat.lt_one_iff.mp hi
    rw [Memory.program_at hi, Nat.add_zero, h.status]
    exact compacting_and_active
  have hflipped : ∀ i, cursor ≤ i → i < limit → view cfg (m.program
      (cfg.regionOffset (1 - r) + statusOffset) [statusActive]) (1 - r) i = 0xFF := by
    intro i hi hlim
    have hstart := h.start
    have hbehind : statusOffset + [statusActive].length ≤ i := by
      simp only [statusOffset, dataStart, sectorSize, List.length_singleton] at *
      omega
    rw [view_program_self, Memory.program_of_ge hbehind]
    exact h.erased i hi hlim
  unfold commitTarget
  simp only [Prog.bind_eq, Prog.pure_eq]
  refine wp_bind.mpr (wp_writeTaken ?_ htakes (fun n hn => ?_) (fun n hn => ?_) (fun b => ?_) hcut)
  · rw [Nat.add_assoc]
    exact cfg.regionOffset_add_le hstatus
  · obtain ⟨haddr, _⟩ := hworks _ _ n hn
    exact hne statusOffset hstatus haddr
  · rcases hworks _ _ n hn with ⟨_, hlen⟩ | ⟨haddr, _⟩ | ⟨_, hlen, _⟩
    · exact absurd hlen (by decide)
    · exact hne statusOffset hstatus haddr
    · exact absurd hlen (by decide)
  · exact wp_superseded h.within hflipped hok hcut

/-- A compaction succeeds, and leaves room for an UPDATE record. -/
theorem wp_compactLocked_works {P : Post FlashqCtx Memory EspErr Unit} (hworks : FlashWorks cfg env ctx)
    (h : Compactable cfg ctx m)
    (hok : ∀ c m', c.cursor + updateSize ≤ cfg.regionSize → (∀ i, c.cursor ≤ i →
      i < c.cursor + updateSize → view cfg m' c.activeRegion i = 0xFF) → P.ok () c m')
    (hcut : ∀ m', P.cut m') : wp cfg.device env (compactLocked cfg) P ctx m := by
  have hcap := cfg.dataCapacity_eq
  have hlimit : dataStart + liveBytes ctx.index + updateSize + updateSize ≤ cfg.regionSize := by
    have hreserve := h.reserve
    simp only [HasReserve] at hreserve
    omega
  have hpos : 0 < cfg.regionSize := Nat.zero_lt_of_lt (statusOffset_lt cfg)
  unfold compactLocked
  simp only [Prog.bind_eq, wp_bind, wp_read]
  refine wp_ensureErased_works hlimit h.spare (fun m n hn => ?_) (fun m1 hhead herased => ?_) hcut
  · exact @regionOffset_ne cfg _ _ (other_ne ctx.activeRegion) 0 0 hpos hpos (hworks _ _ n hn)
  refine wp_startRegion hworks hlimit hhead herased (fun b m2 hfill => ?_) hcut
  refine wp_mono (wp_copyLoop_fills hworks hfill h.copyable (by omega)) (fun out c m3 hc => ?_)
    (fun _ _ _ hfalse => hfalse.elim) fun m' _ => hcut m'
  obtain ⟨hcursor, hfill'⟩ := hc
  refine wp_encodeToWriteScratch (encodeEnd_eq (updateSize_le_scratch cfg)) ?_
  dsimp only
  rw [take_recordBytes (n := updateSize) rfl rfl]
  have hlen : (recordBytes (endHdr out.2) []).length = updateSize := length_recordBytes rfl
  refine wp_fill hworks hfill' (by rw [hlen]; decide) (by rw [hlen]; omega) (fun b m4 hend => ?_) hcut
  rw [hlen] at hend
  refine wp_commitTarget_works hworks hend (fun c' m5 hc' => ?_) hcut
  simp only [wp_modify]
  exact hok _ m5 (by dsimp only; omega) fun i hi hlim => hc' i hi (by dsimp only at hlim; omega)

end Compaction

/-! ## The record -/

section Record

variable {cfg : FlashqConfig} {env : Env FlashCall Memory FlashEvent} {ctx : FlashqCtx} {m : Memory}
  {pos : Nat} {e : FlashqIndexEntry} {id : UInt64} {newState : FlashqState}

/-- Space is made, and the record of the entry will be taken where the log ends. -/
theorem wp_ensureSpace_works (hworks : FlashWorks cfg env ctx) (he : ctx.index[pos]? = some e)
    (hroom : RoomFor cfg ctx m (progressHdr e.id (e.progress.inState newState) ctx.nextSeq)) :
    wp cfg.device env (ensureSpaceLocked cfg updateSize)
      ⟨fun _ c m' => c.metas = ctx.metas ∧ c.cursor + updateSize ≤ cfg.regionSize ∧
        ∀ e', c.index[pos]? = some e' → Takes m' (cfg.regionOffset c.activeRegion + c.cursor)
          (recordBytes (progressHdr e'.id (e'.progress.inState newState) c.nextSeq) []),
        fun _ _ _ => False, fun _ => True⟩ ctx m := by
  have hcap := cfg.dataCapacity_eq
  have hsize := cfg.dataStart_add_le
  have hsector : updateSize ≤ sectorSize := by decide
  have hmetas : wp cfg.device env (ensureSpaceLocked cfg updateSize)
      ⟨fun _ c _ => c.metas = ctx.metas, fun _ c _ => c.metas = ctx.metas, fun _ => True⟩ ctx m :=
    leaves_wp (keeps_ensureSpaceLocked cfg updateSize ctx)
  refine wp_mono (wp_and hmetas (Q := ⟨fun _ c m' => c.cursor + updateSize ≤ cfg.regionSize ∧
    ∀ e', c.index[pos]? = some e' → Takes m' (cfg.regionOffset c.activeRegion + c.cursor)
      (recordBytes (progressHdr e'.id (e'.progress.inState newState) c.nextSeq) []),
    fun _ _ _ => False, fun _ => True⟩) ?_) (fun _ _ _ h => h) (fun _ _ _ h => h.2)
    fun _ h => h.2
  unfold ensureSpaceLocked
  simp only [Prog.bind_eq, Prog.pure_eq, wp_bind, wp_read]
  refine wp_ite.mpr ⟨fun hwants => ?_, fun hnot => ?_⟩
  · refine wp_bind.mpr (wp_compactLocked_works hworks (hroom.1 hwants) (fun c m' hfit herased => ?_)
      fun _ => trivial)
    have hfree : ¬ c.freeBytes cfg < updateSize := by
      simp only [FlashqCtx.freeBytes]
      omega
    simp only [wp_bind, wp_read, if_neg hfree, wp_ret]
    refine ⟨hfit, fun e' _ => takes_of_erased ?_⟩
    rw [length_recordBytes rfl]
    exact herased
  · have hlow : ¬ ctx.freeBytes cfg < updateSize + reserveBytes := fun hlow => hnot (.inl hlow)
    have hfree : ¬ ctx.freeBytes cfg < updateSize := by omega
    have hpos : 0 < updateSize := by decide
    simp only [wp_bind, wp_read, if_neg hfree, wp_ret]
    refine ⟨?_, fun e' he' => ?_⟩
    · simp only [FlashqCtx.freeBytes] at hlow
      omega
    · obtain rfl : e' = e := Option.some.inj (he'.symm.trans he)
      exact hroom.2 hnot

/-- The record is appended. -/
theorem wp_appendStateUpdate_works (hworks : FlashWorks cfg env ctx) (he : ctx.index[pos]? = some e)
    (hroom : RoomFor cfg ctx m (progressHdr e.id (e.progress.inState newState) ctx.nextSeq)) :
    wp cfg.device env (appendStateUpdateLocked cfg pos newState)
      ⟨fun _ _ _ => True, fun _ _ _ => False, fun _ => True⟩ ctx m := by
  unfold appendStateUpdateLocked
  simp only [Prog.bind_eq]
  refine wp_seq (wp_ensureSpace_works hworks he hroom) (fun _ c m' hc => ?_)
    (fun _ _ _ hfalse => hfalse) fun _ h => h
  obtain ⟨hmetas, hfit, htakes⟩ := hc
  have hx : c.metas[pos]? = some e.toEntryMeta := by
    rw [hmetas, FlashqCtx.metas, List.getElem?_map, he]
    rfl
  obtain ⟨e', he', -⟩ := FlashqCtx.getElem?_metas hx
  have htake := htakes e' he'
  have hlen : (recordBytes (progressHdr e'.id (e'.progress.inState newState) c.nextSeq) []).length =
      updateSize := length_recordBytes rfl
  have hone : updateSize ≠ 1 := by decide
  have hhdr : updateSize ≠ regionHdrSize := by decide
  refine wp_bind.mpr (wp_entryAt he' ?_)
  simp only [wp_bind, wp_read]
  refine wp_encodeToWriteScratch (encodeUpdate_eq (updateSize_le_scratch cfg)) ?_
  unfold appendLocked
  simp only [Prog.bind_eq, wp_bind, wp_read]
  rw [take_recordBytes (n := updateSize) rfl rfl]
  refine wp_writeTaken ?_ htake (fun n hn => ?_) (fun n hn => ?_) (fun b => ?_) fun _ => trivial
  · rw [Nat.add_assoc]
    exact cfg.regionOffset_add_le ((Nat.add_le_add_left (Nat.le_of_eq hlen) _).trans hfit)
  · exact not_dispensable_write (hlen ▸ hone) (hworks _ _ n hn)
  · exact not_dispensable_read (hlen ▸ hhdr) (hlen ▸ hone) (hworks _ _ n hn)
  · simp only [assignEntry, wp_modify]

theorem wp_opMarkDelivered_works (hworks : FlashWorks cfg env ctx)
    (hroom : Recordable cfg ctx m (.markDelivered id)) (hfound : findEntry ctx.index id = some pos) :
    wp cfg.device env (opMarkDelivered cfg id) ⟨fun _ _ _ => True, fun _ _ _ => False, fun _ => True⟩
      ctx m := by
  obtain ⟨e, he, rfl⟩ := findEntry_some hfound
  unfold opMarkDelivered retireEntry
  simp only [Prog.bind_eq, wp_bind, wp_read, hfound]
  refine wp_mono (wp_appendStateUpdate_works hworks he (hroom e (List.mem_of_getElem? he) rfl))
    (fun _ _ _ _ => ?_) (fun _ _ _ h => h) fun _ h => h
  simp only [removeEntryAt, wp_modify]

/-- Fields that are staged take no room. -/
theorem RoomFor.staged {h : RecordHdr} (hroom : RoomFor cfg ctx m h)
    (p : FlashqIndexEntry → Progress) : RoomFor cfg
      { ctx with index := ctx.index.modify pos fun e => e.withProgress (p e) } m h := by
  have hlive := liveBytes_modify ctx.index pos p
  refine ⟨fun hwants => ?_, hroom.2⟩
  obtain ⟨hspare, hcopy, hreserve⟩ := hroom.1 hwants
  refine ⟨?_, fun e he => ?_, ?_⟩
  · rw [hlive]
    exact hspare
  · rcases mem_of_mem_modify he with he | ⟨x, hx, rfl⟩
    · exact hcopy e he
    · obtain ⟨hreadable, hencodable⟩ := hcopy x (List.mem_of_getElem? hx)
      exact ⟨hreadable, (EntryMeta.encodable_change fun _ => p x).mpr hencodable⟩
  · rw [HasReserve, hlive]
    exact hreserve

theorem wp_opScheduleRetry_works {nextRetryTimeUs : Int64} {deadLetter : Bool} {lastError : Int32}
    (hworks : FlashWorks cfg env ctx)
    (hroom : Recordable cfg ctx m (.scheduleRetry id nextRetryTimeUs deadLetter lastError))
    (hfound : findEntry ctx.index id = some pos) :
    wp cfg.device env (opScheduleRetry cfg id nextRetryTimeUs deadLetter lastError)
      ⟨fun _ _ _ => True, fun _ _ _ => False, fun _ => True⟩ ctx m := by
  obtain ⟨e, he, rfl⟩ := findEntry_some hfound
  have hretried : (e.withProgress (e.progress.staged nextRetryTimeUs deadLetter
      lastError)).progress.inState (if deadLetter then .deadLetter else .pending) =
      e.progress.retried nextRetryTimeUs deadLetter lastError := by
    cases deadLetter <;> rfl
  have hstaged : (ctx.index.modify pos fun e => { e with
      nextRetryAtUs := if deadLetter then 0 else nextRetryTimeUs
      lastError := lastError })[pos]? =
      some (e.withProgress (e.progress.staged nextRetryTimeUs deadLetter lastError)) := by
    simp only [List.getElem?_modify, if_true, he]
    rfl
  unfold opScheduleRetry
  simp only [Prog.bind_eq, wp_bind, wp_read, hfound, assignEntry, wp_modify]
  refine wp_appendStateUpdate_works hworks hstaged ?_
  rw [hretried]
  exact (hroom e (List.mem_of_getElem? he) rfl).staged fun e =>
    e.progress.staged nextRetryTimeUs deadLetter lastError

end Record

end EdgeSync
