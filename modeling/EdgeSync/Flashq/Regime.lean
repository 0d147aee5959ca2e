/-
  Flashq/Regime.lean --- under which conditions the backend runs.

  A `Regime` says which events the world may choose (whole calls, power cuts,
  failing reads) and what is known of the bytes behind the end of a log.  Its
  `append` field is the one obligation that ties the two together: a record
  written at the end of a log either is there afterwards, or the scan still
  stops where it did.  `Base` is the invariant of a running backend under a
  regime, `Image` the invariant of the flash once the power is gone.
-/
import EdgeSync.Flashq.Replay

set_option autoImplicit false

namespace EdgeSync

open Foundation

/-! ## The meaningful part of the context -/

/-- The context without its work buffers and its statistics. -/
structure Core where
  region : Fin 2
  generation : UInt32
  cursor : Nat
  nextSeq : UInt32
  index : List FlashqIndexEntry
  awaitingGcCount : UInt32
  claimScratch : Bytes

/-- The meaningful part. -/
def FlashqCtx.core (ctx : FlashqCtx) : Core where
  region := ctx.activeRegion
  generation := ctx.activeGeneration
  cursor := ctx.cursor
  nextSeq := ctx.nextSeq
  index := ctx.index
  awaitingGcCount := ctx.awaitingGcCount
  claimScratch := ctx.claimScratch

/-- The context compaction leaves. -/
def Core.compacted (c : Core) : Core where
  region := 1 - c.region
  generation := c.generation + 1
  cursor := dataStart + liveBytes c.index + updateSize
  nextSeq := c.nextSeq + UInt32.ofNat c.index.length + 1
  index := placed dataStart c.index
  awaitingGcCount := 0
  claimScratch := c.claimScratch

/-- What an entry keeps for as long as its record is not moved. -/
def FlashqIndexEntry.key (e : FlashqIndexEntry) :
    (UInt64 × UInt8 × UInt16 × UInt32 × Int64) × UInt32 := (e.identity, e.messageOffset)

@[simp] theorem FlashqIndexEntry.key_withProgress (p : Progress) (e : FlashqIndexEntry) :
    (e.withProgress p).key = e.key := rfl

/-! ## Regimes -/

/-- What a torn write may make of a byte: the byte itself, or the erased byte. -/
def Landed (data data' : Bytes) : Prop :=
  List.Forall₂ (fun b b' => b' = b ∨ b' = 0xFF) data data'

/-- The events a run may meet, and what they leave of a log's tail. -/
structure Regime (cfg : FlashqConfig) where
  /-- the events -/
  env : Env FlashCall Memory FlashEvent
  /-- reads may report errors -/
  mayFail : Prop
  /-- a whole write at the end of a log may be spoilt by what was there -/
  lossy : Prop
  /-- what is known from the end of a log on -/
  Tail : Memory → Nat → Prop
  /-- what an interrupted append may have made of a body -/
  Torn : Bytes → Bytes → Prop
  read_events : ∀ {m a n ev}, env m (.read a n) ev →
    ev = .run ∨ (∃ k, ev = .cut k) ∨ (mayFail ∧ ∃ k, ev = .fail k)
  write_events : ∀ {m a d ev}, env m (.write a d) ev → ev = .run ∨ ∃ k, ev = .cut k
  erase_events : ∀ {m a n ev}, env m (.erase a n) ev → ev = .run ∨ (∃ k, ev = .cut k) ∨
    ∃ k, ev = .tear k ∧ (m.erase a (min n (k * sectorSize)) = m ∨
      m.erase a (min n (k * sectorSize)) = m.erase a n)
  tail_stop : ∀ {v e}, Tail v e → acceptAt cfg v e = none
  tail_erased : ∀ {v e}, ErasedFrom cfg v e → Tail v e
  tail_congr : ∀ {v w e}, AgreeOn w v e cfg.regionSize → Tail v e → Tail w e
  torn_refl : ∀ d, Torn d d
  torn_landed : ∀ {d d'}, Torn d d' → Landed d d'
  /-- a whole write at the end of the log of an ACTIVE region -/
  append_run : ∀ {m r recs e h data}, IsActive (view cfg m r) →
    Log cfg (view cfg m r) dataStart recs e → Tail (view cfg m r) e → h.Sealed →
    data.length = h.bodyBytes → e + h.totalSize ≤ cfg.regionSize →
    env m (.write (cfg.regionOffset r + e) (recordBytes h data)) .run →
    (lossy ∧ Tail ((view cfg m r).program e (recordBytes h data)) e) ∨
    (((view cfg m r).program e (recordBytes h data)).bytesAt e h.totalSize = recordBytes h data ∧
      Tail ((view cfg m r).program e (recordBytes h data)) (e + h.totalSize))
  /-- an interrupted write there -/
  append_cut : ∀ {m r recs e h data n}, IsActive (view cfg m r) →
    Log cfg (view cfg m r) dataStart recs e → Tail (view cfg m r) e → h.Sealed →
    data.length = h.bodyBytes → e + h.totalSize ≤ cfg.regionSize →
    env m (.write (cfg.regionOffset r + e) (recordBytes h data)) (.cut n) →
    Tail ((view cfg m r).program e ((recordBytes h data).take n)) e ∨
    (acceptAt cfg ((view cfg m r).program e ((recordBytes h data).take n)) e = some h ∧
      Torn data (((view cfg m r).program e ((recordBytes h data).take n)).bytesAt (e + hdrSize)
        h.bodyBytes) ∧
      Tail ((view cfg m r).program e ((recordBytes h data).take n)) (e + h.totalSize))
  /-- where both regions are ACTIVE, the one whose header read works -/
  guarded : Fin 2
  /-- the header read of an ACTIVE region works -/
  header_guard : ∀ {m r k}, IsActive (view cfg m r) →
    (IsActive (view cfg m (1 - r)) → r = guarded) →
    ¬ env m (.read (cfg.regionOffset r) regionHdrSize) (.fail k)
  /-- the scan reads the records of the log -/
  scan_guard : ∀ {m r recs e off h k}, IsActive (view cfg m r) →
    Log cfg (view cfg m r) dataStart recs e → (off, h) ∈ recs →
    ¬ env m (.read (cfg.regionOffset r + off) hdrSize) (.fail k) ∧
    ¬ env m (.read (cfg.regionOffset r + off + hdrSize) (h.bodyBytes + 4)) (.fail k)

variable {cfg : FlashqConfig} (R : Regime cfg)

/-! ## Device calls under a regime -/

section Calls

variable {α : Type} {P : Post FlashqCtx Memory EspErr α} {ctx : FlashqCtx} {m : Memory}
  {addr len : Nat} {data : Bytes}

theorem wp_espPartitionRead {P : Post FlashqCtx Memory EspErr (Option Bytes)}
    (hfit : addr + len ≤ cfg.partitionSize.toNat)
    (hok : P.ok (some (m.bytesAt addr len)) ctx m) (hcut : P.cut m)
    (hfail : (∃ k, R.env m (.read addr len) (.fail k)) → P.ok none ctx m) :
    wp cfg.device R.env (espPartitionRead addr len) P ctx m := by
  refine wp_call.mpr fun ev hev => ?_
  rcases R.read_events hev with rfl | ⟨k, rfl⟩ | ⟨_, k, rfl⟩
  · simp only [FlashqConfig.device, flashDevice, if_pos hfit]
    exact wp_ret.mpr hok
  · simp only [FlashqConfig.device, flashDevice, if_pos hfit]
    exact hcut
  · simp only [FlashqConfig.device, flashDevice, if_pos hfit]
    exact wp_ret.mpr (hfail ⟨k, hev⟩)

theorem wp_espPartitionWrite {P : Post FlashqCtx Memory EspErr Bool}
    (hfit : addr + data.length ≤ cfg.partitionSize.toNat)
    (hok : R.env m (.write addr data) .run → P.ok true ctx (m.program addr data))
    (hcut : ∀ n, R.env m (.write addr data) (.cut n) → P.cut (m.program addr (data.take n))) :
    wp cfg.device R.env (espPartitionWrite addr data) P ctx m := by
  refine wp_call.mpr fun ev hev => ?_
  rcases R.write_events hev with rfl | ⟨k, rfl⟩
  · simp only [FlashqConfig.device, flashDevice, if_pos hfit]
    exact wp_ret.mpr (hok hev)
  · simp only [FlashqConfig.device, flashDevice, if_pos hfit]
    exact hcut k hev

theorem wp_espPartitionEraseRange {P : Post FlashqCtx Memory EspErr Bool}
    (hfit : addr + len ≤ cfg.partitionSize.toNat)
    (hok : P.ok true ctx (m.erase addr len)) (hcut : P.cut m)
    (hcut' : P.cut (m.erase addr len)) :
    wp cfg.device R.env (espPartitionEraseRange addr len) P ctx m := by
  refine wp_call.mpr fun ev hev => ?_
  rcases R.erase_events hev with rfl | ⟨k, rfl⟩ | ⟨k, rfl, htear⟩
  · simp only [FlashqConfig.device, flashDevice, if_pos hfit]
    exact wp_ret.mpr hok
  · simp only [FlashqConfig.device, flashDevice, if_pos hfit]
    by_cases hk : k = 0
    · rw [if_pos hk]
      exact hcut
    · rw [if_neg hk]
      exact hcut'
  · simp only [FlashqConfig.device, flashDevice, if_pos hfit]
    rcases htear with h | h
    · rw [h]
      exact hcut
    · rw [h]
      exact hcut'

theorem take_overlay_zero (buf data : Bytes) : (overlay buf 0 data).take data.length = data := by
  simp [overlay]

/-- A verified write: the read-back compares what is there now. -/
theorem wp_partitionWriteVerify {P : Post FlashqCtx Memory EspErr Unit}
    (hfit : addr + data.length ≤ cfg.partitionSize.toNat)
    (hok : R.env m (.write addr data) .run → (m.program addr data).bytesAt addr data.length = data →
      ∀ b, P.ok () { ctx with verifyScratch := b } (m.program addr data))
    (hbad : R.env m (.write addr data) .run →
      (m.program addr data).bytesAt addr data.length ≠ data →
      ∀ b, P.error .storage { ctx with verifyScratch := b } (m.program addr data))
    (hfail : R.mayFail → R.env m (.write addr data) .run →
      P.error .storage ctx (m.program addr data))
    (hread : R.env m (.write addr data) .run → P.cut (m.program addr data))
    (hcut : ∀ n, R.env m (.write addr data) (.cut n) → P.cut (m.program addr (data.take n))) :
    wp cfg.device R.env (partitionWriteVerify addr data) P ctx m := by
  unfold partitionWriteVerify
  simp only [Prog.bind_eq, wp_bind]
  refine wp_espPartitionWrite R hfit (fun hrun => ?_) hcut
  simp only [if_true, wp_bind]
  refine wp_espPartitionRead R hfit ?_ (hread hrun) ?_
  · simp only [wp_bind, wp_modify, wp_read]
    have htake : (overlay ctx.verifyScratch 0 ((m.program addr data).bytesAt addr data.length)).take
        data.length = (m.program addr data).bytesAt addr data.length := by
      have h := take_overlay_zero ctx.verifyScratch
        ((m.program addr data).bytesAt addr data.length)
      rwa [Memory.length_bytesAt] at h
    rw [htake]
    by_cases hb : (m.program addr data).bytesAt addr data.length = data
    · rw [if_pos hb]
      exact wp_ret.mpr (hok hrun hb _)
    · rw [if_neg hb]
      exact wp_fail.mpr (hbad hrun hb _)
  · rintro ⟨k, hk⟩
    simp only [wp_fail]
    rcases R.read_events hk with h | ⟨_, h⟩ | ⟨hmay, _⟩
    · exact absurd h (by simp)
    · exact absurd h (by simp)
    · exact hfail hmay hrun

/-- A verified write into the erased part of a region. -/
theorem wp_partitionWriteVerify_erased {P : Post FlashqCtx Memory EspErr Unit} {r : Fin 2}
    {off : Nat} (hv : ErasedFrom cfg (view cfg m r) off)
    (hfit : off + data.length ≤ cfg.regionSize)
    (hok : ∀ b, P.ok () { ctx with verifyScratch := b }
      (m.program (cfg.regionOffset r + off) data))
    (hfail : R.mayFail → P.error .storage ctx (m.program (cfg.regionOffset r + off) data))
    (hcut : ∀ n, P.cut (m.program (cfg.regionOffset r + off) (data.take n))) :
    wp cfg.device R.env (partitionWriteVerify (cfg.regionOffset r + off) data) P ctx m := by
  have hin : cfg.regionOffset r + off + data.length ≤ cfg.partitionSize.toNat := by
    rw [Nat.add_assoc]
    exact cfg.regionOffset_add_le hfit
  have hback : (m.program (cfg.regionOffset r + off) data).bytesAt (cfg.regionOffset r + off)
      data.length = data := by
    rw [bytesAt_region, view_program_self]
    exact hv.bytesAt_program data hfit
  have hfull := hcut data.length
  rw [List.take_length] at hfull
  exact wp_partitionWriteVerify R hin (fun _ _ => hok) (fun _ h => absurd hback h)
    (fun hmay _ => hfail hmay) (fun _ => hfull) (fun n _ => hcut n)

/-- `ensure_region_erased` on a region that is erased if it looks blank. -/
theorem wp_ensureRegionErased {P : Post FlashqCtx Memory EspErr Unit} {r : Fin 2}
    (hkeep : Blank (view cfg m r) → P.ok () ctx m)
    (herase : P.ok () ctx (m.erase (cfg.regionOffset r) cfg.regionSize))
    (hcut : P.cut m) (hcut' : P.cut (m.erase (cfg.regionOffset r) cfg.regionSize)) :
    wp cfg.device R.env (ensureRegionErased cfg r) P ctx m := by
  have hsize := cfg.dataStart_add_le
  have hhdr : regionHdrSize ≤ cfg.regionSize := by
    simp only [regionHdrSize, dataStart, sectorSize] at *
    omega
  have hdo : wp cfg.device R.env (eraseRegion cfg r) P ctx m := by
    unfold eraseRegion
    simp only [Prog.bind_eq, wp_bind]
    refine wp_espPartitionEraseRange R (cfg.regionOffset_add_le (Nat.le_refl _)) ?_ hcut hcut'
    simpa using herase
  unfold ensureRegionErased regionHeaderRead
  simp only [Prog.bind_eq, wp_bind, wp_attempt]
  refine wp_espPartitionRead R (cfg.regionOffset_add_le hhdr) ?_ hcut ?_
  · have hb := @bytesAt_region cfg m r 0 regionHdrSize
    rw [Nat.add_zero] at hb
    simp only [Prog.pure_eq, wp_ret, hb]
    by_cases hblank : bytesAllFf ((view cfg m r).bytesAt 0 regionHdrSize) = true
    · rw [if_pos hblank]
      exact wp_ret.mpr (hkeep hblank)
    · rw [if_neg hblank]
      exact hdo
  · intro _
    simp only [wp_fail]
    exact hdo

end Calls

/-! ## The invariants -/

/-- The region holds a log of the messages `q`, and room to compact it. -/
structure GoodRegion (v : Memory) (q : List StoredMessage) : Prop where
  exists_log : ∃ recs e, Log cfg v dataStart recs e ∧ R.Tail v e ∧
    (∀ x ∈ (replay cfg recs).index, Located cfg v e x) ∧
    liveBytes (replay cfg recs).index + updateSize ≤ cfg.dataCapacity ∧
    contents v (replay cfg recs).index = q

/-- The flash after the power went: every region marked ACTIVE holds one of the
queues `Q` allows. -/
structure Image (m : Memory) (Q : List StoredMessage → Prop) : Prop where
  active : ∀ r, IsActive (view cfg m r) → ∃ q, Q q ∧ GoodRegion R (view cfg m r) q
  spare : ∀ r, ¬ IsActive (view cfg m r) → IsActive (view cfg m (1 - r)) →
    Blank (view cfg m r) → ErasedFrom cfg (view cfg m r) 0
  fresh : (∀ r, ¬ IsActive (view cfg m r)) → (∀ r, ¬ IsValid (view cfg m r)) ∧ Q []

/-- A running backend: `recs` are the records of the active region, and every
entry of the index has its record in place. -/
structure Grown (c : Core) (m : Memory) (recs : List (Nat × RecordHdr)) : Prop where
  active : IsActive (view cfg m c.region)
  generation : (headerAt (view cfg m c.region)).generation = c.generation
  spare : ¬ IsActive (view cfg m (1 - c.region))
  spare_blank : Blank (view cfg m (1 - c.region)) → ErasedFrom cfg (view cfg m (1 - c.region)) 0
  log : Log cfg (view cfg m c.region) dataStart recs c.cursor
  tail : R.Tail (view cfg m c.region) c.cursor
  located : ∀ e ∈ c.index, Located cfg (view cfg m c.region) c.cursor e
  fit : liveBytes c.index + updateSize ≤ cfg.dataCapacity

/-- Between two operations the index has the entries of the log's replay. -/
structure Base (c : Core) (m : Memory) (recs : List (Nat × RecordHdr)) : Prop
    extends Grown R c m recs where
  same : c.index.map FlashqIndexEntry.key = (replay cfg recs).index.map FlashqIndexEntry.key

variable {R}

theorem GoodRegion.congr {v w : Memory} {q : List StoredMessage} (h : GoodRegion R v q)
    (hvw : AgreeOn w v dataStart cfg.regionSize) : GoodRegion R w q := by
  obtain ⟨recs, e, hlog, htail, hloc, hfit, hq⟩ := h.exists_log
  have hstart : dataStart ≤ cfg.regionSize := by have := cfg.dataCapacity_eq; omega
  have hle : dataStart ≤ e := hlog.le
  have hend : e ≤ cfg.regionSize := hlog.le_regionSize rfl hstart
  have hvw' := hvw.mono (Nat.le_refl _) hend
  refine ⟨recs, e, hlog.congr hvw', R.tail_congr (hvw.mono hle (Nat.le_refl _)) htail,
    fun x hx => (hloc x hx).congr hvw', hfit, ?_⟩
  rw [contents_congr hvw' hloc, hq]

theorem Image.mono {m : Memory} {Q Q' : List StoredMessage → Prop} (h : Image R m Q)
    (hQ : ∀ q, Q q → Q' q) : Image R m Q' where
  active r hr := by
    obtain ⟨q, hq, hg⟩ := h.active r hr
    exact ⟨q, hQ q hq, hg⟩
  spare := h.spare
  fresh hr := ⟨(h.fresh hr).1, hQ _ (h.fresh hr).2⟩

/-- An image with exactly one ACTIVE region. -/
theorem Image.of_one {m : Memory} {Q : List StoredMessage → Prop} {r : Fin 2}
    {q : List StoredMessage} (hr : IsActive (view cfg m r)) (hq : Q q)
    (hg : GoodRegion R (view cfg m r) q) (hother : ¬ IsActive (view cfg m (1 - r)))
    (hblank : Blank (view cfg m (1 - r)) → ErasedFrom cfg (view cfg m (1 - r)) 0) :
    Image R m Q where
  active a ha := by
    rcases eq_or_eq_other a r with rfl | rfl
    · exact ⟨q, hq, hg⟩
    · exact absurd ha hother
  spare a hna ha hb := by
    rcases eq_or_eq_other a r with rfl | rfl
    · exact absurd hr hna
    · exact hblank hb
  fresh hnone := absurd hr (hnone r)

/-- An image with both regions ACTIVE. -/
theorem Image.of_both {m : Memory} {Q : List StoredMessage → Prop} {r : Fin 2}
    {q q' : List StoredMessage} (hr : IsActive (view cfg m r)) (hq : Q q)
    (hg : GoodRegion R (view cfg m r) q) (hr' : IsActive (view cfg m (1 - r))) (hq' : Q q')
    (hg' : GoodRegion R (view cfg m (1 - r)) q') : Image R m Q where
  active a ha := by
    rcases eq_or_eq_other a r with rfl | rfl
    · exact ⟨q, hq, hg⟩
    · exact ⟨q', hq', hg'⟩
  spare a hna _ _ := by
    rcases eq_or_eq_other a r with rfl | rfl
    · exact absurd hr hna
    · exact absurd hr' hna
  fresh hnone := absurd hr (hnone r)

section Keys

variable {v : Memory} {limit : Nat} {es fs : List FlashqIndexEntry}

theorem Located.of_key {e f : FlashqIndexEntry} (h : Located cfg v limit e) (hk : f.key = e.key) :
    Located cfg v limit f := by
  simp only [FlashqIndexEntry.key, EntryMeta.identity, Prod.mk.injEq] at hk
  obtain ⟨⟨hid, hprio, hdl, hpl, hcr⟩, hoff⟩ := hk
  obtain ⟨hdr, ha, hf⟩ := h.record
  have hsize : f.recordSize = e.recordSize := by
    rw [EntryMeta.recordSize, EntryMeta.recordSize, hdl, hpl]
  refine ⟨⟨hdr, by rw [hoff]; exact ha, ?_⟩, by rw [hoff]; exact h.lower, ?_, by
    rw [hdl]; exact h.destinationLen_le, by rw [hpl]; exact h.payloadLen_le, ?_⟩
  · obtain ⟨h1, h2, h3⟩ := hf
    refine ⟨by rw [UInt32.ofNat_toNat], h2, ?_⟩
    rw [h3]
    simp only [EntryMeta.identity, hid, hprio, hdl, hpl, hcr]
  · rw [hoff, hsize]
    exact h.upper
  · have hc : (contentOf v f).destination = (contentOf v e).destination := by
      simp only [contentOf, hoff, hdl]
    rw [hc]
    exact h.destination_ne

theorem located_of_keys (hk : es.map FlashqIndexEntry.key = fs.map FlashqIndexEntry.key)
    (h : ∀ e ∈ es, Located cfg v limit e) : ∀ f ∈ fs, Located cfg v limit f := by
  intro f hf
  have hm : f.key ∈ es.map FlashqIndexEntry.key := by
    rw [hk]
    exact List.mem_map_of_mem hf
  obtain ⟨e, he, hke⟩ := List.mem_map.mp hm
  exact (h e he).of_key hke.symm

theorem identities_of_keys (hk : es.map FlashqIndexEntry.key = fs.map FlashqIndexEntry.key) :
    es.map (·.identity) = fs.map (·.identity) := by
  have h := congrArg (List.map Prod.fst) hk
  simpa [List.map_map, FlashqIndexEntry.key, Function.comp_def] using h

end Keys

namespace Grown

variable {c : Core} {m : Memory} {recs : List (Nat × RecordHdr)}

theorem cursor_le (b : Grown R c m recs) : c.cursor ≤ cfg.regionSize := by
  have hstart : dataStart ≤ cfg.regionSize := by have := cfg.dataCapacity_eq; omega
  exact b.log.le_regionSize rfl hstart

theorem start_le (b : Grown R c m recs) : dataStart ≤ c.cursor := b.log.le

end Grown

namespace Base

variable {c : Core} {m : Memory} {recs : List (Nat × RecordHdr)}

theorem cursor_le (b : Base R c m recs) : c.cursor ≤ cfg.regionSize := b.toGrown.cursor_le

/-- The live records take at most the used bytes. -/
theorem used (b : Base R c m recs) : dataStart + liveBytes c.index ≤ c.cursor := by
  have h1 := liveBytes_congr (identities_of_keys b.same)
  have h2 := @liveBytes_replay_le cfg recs
  have h3 := b.log.sum_totalSize
  omega

theorem room (b : Base R c m recs) : c.index.length ≤ cfg.indexCapacity := by
  have h := congrArg List.length b.same
  simp only [List.length_map] at h
  rw [h]
  exact length_replay_le recs

theorem goodRegion (b : Base R c m recs) :
    GoodRegion R (view cfg m c.region) (contents (view cfg m c.region) (replay cfg recs).index) :=
  ⟨recs, c.cursor, b.log, b.tail, located_of_keys b.same b.located, by
    rw [← liveBytes_congr (identities_of_keys b.same)]
    exact b.fit, rfl⟩

theorem image (b : Base R c m recs) {Q : List StoredMessage → Prop}
    (hQ : Q (contents (view cfg m c.region) (replay cfg recs).index)) : Image R m Q :=
  Image.of_one b.active hQ b.goodRegion b.spare b.spare_blank

end Base

end EdgeSync
