/-
  Flashq/Compaction.lean --- `compact_locked` under a regime.

  Until the new region is flipped to ACTIVE the old one is untouched; from then
  on both hold the queue, and the old one is retired.  So the flash is an `Image`
  at every step (`wp_compactLocked`), and a compaction that ends leaves the
  context `Core.compacted` computes, over the records `compactedRecs`.
-/
import EdgeSync.Flashq.Regime

set_option autoImplicit false

namespace EdgeSync

open Foundation

variable {cfg : FlashqConfig} {R : Regime cfg}

/-! ## Buffers -/

theorem slice_overlay_zero {buf data : Bytes} {off n : Nat} (h : off + n ≤ data.length) :
    slice (overlay buf 0 data) off n = slice data off n := by
  rw [overlay, List.take_zero, List.nil_append, slice_append_left h]

/-- Every indexed record fits the scratch buffers. -/
theorem Located.recordSize_le {v : Memory} {limit : Nat} {e : FlashqIndexEntry}
    (h : Located cfg v limit e) : e.recordSize ≤ cfg.scratchSize := by
  have h1 := h.destinationLen_le
  have h2 : e.payloadLen.toNat ≤ cfg.maxMessageSize.toNat := h.payloadLen_le
  have h3 : (UInt16.ofNat maxDestinationLen).toNat = 63 := by decide
  simp only [maxDestinationLen] at h1
  simp only [EntryMeta.recordSize, FlashqConfig.scratchSize, recordTotalSize, round4, h3]
  omega

theorem updateSize_le_scratch (cfg : FlashqConfig) : updateSize ≤ cfg.scratchSize := by
  have h3 : (UInt16.ofNat maxDestinationLen).toNat = 63 := by decide
  rw [updateSize_eq]
  simp only [FlashqConfig.scratchSize, recordTotalSize, round4, hdrSize, h3]
  omega

/-- The encoder's result, cut to its length, is the record. -/
theorem take_recordBytes {h : RecordHdr} {data rest : Bytes} {n : Nat}
    (hd : data.length = h.bodyBytes) (hn : n = h.totalSize) :
    (recordBytes h data ++ rest).take n = recordBytes h data := by
  rw [hn]
  exact List.take_left' (length_recordBytes hd)

/-- The body of an entry's record: destination and payload. -/
def StoredMessage.body (s : StoredMessage) : Bytes := s.destination ++ s.payload

theorem length_body_contentOf (v : Memory) (e : FlashqIndexEntry) :
    (contentOf v e).body.length = e.destinationLen.toNat + e.payloadLen.toNat := by
  simp [StoredMessage.body, contentOf]

/-! ## Programs that spare the other region -/

section Spared

variable {region : Fin 2}

theorem only_ensureRegionErased : Only (Sparing cfg region) (ensureRegionErased cfg (1 - region)) := by
  have hread : Only (Sparing cfg region) (regionHeaderRead cfg (1 - region)) := by
    refine Only.bind (Only.ask (c := FlashCall.read _ _) trivial) fun raw => ?_
    cases raw with
    | none => exact Only.fail _
    | some raw => exact Only.ret _
  have herase : Only (Sparing cfg region) (eraseRegion cfg (1 - region)) :=
    Only.bind (Only.ask (c := FlashCall.erase _ _) ⟨rfl, rfl⟩) fun _ =>
      Only.ite (fun _ => Only.ret _) fun _ => Only.fail _
  refine Only.bind hread.attempt fun res => ?_
  rcases res with err | ⟨hdr, blank⟩
  · exact herase
  · exact Only.ite (fun _ => Only.ret _) fun _ => herase

theorem only_partitionWriteVerify {off : Nat} {data : Bytes}
    (hfit : off + data.length ≤ cfg.regionSize) : Only (Sparing cfg region)
      (partitionWriteVerify (cfg.regionOffset (1 - region) + off) data) := by
  refine Only.bind (Only.ask (c := FlashCall.write _ _) ⟨off, rfl, hfit⟩) fun ok =>
    Only.ite (fun _ => ?_) fun _ => Only.fail _
  refine Only.bind (Only.ask (c := FlashCall.read _ _) trivial) fun raw => ?_
  cases raw with
  | none => exact Only.fail _
  | some raw =>
    exact Only.bind (Only.modify _) fun _ => Only.bind Only.read fun _ =>
      Only.ite (fun _ => Only.ret _) fun _ => Only.fail _

end Spared

/-! ## The copy loop -/

variable (cfg) in
/-- In the middle of the copy loop: the source is as it was in `m0`, and the
target holds the records of the entries `done`, and nothing behind them. -/
structure Copying (m0 m : Memory) (src : Fin 2) (generation seq : UInt32)
    (done : List FlashqIndexEntry) : Prop where
  source : AgreeOn (view cfg m src) (view cfg m0 src) 0 cfg.regionSize
  header : headerAt (view cfg m (1 - src)) = ⟨hdrMagic, generation, statusCompacting⟩
  log : Log cfg (view cfg m (1 - src)) dataStart (copiedRecs dataStart seq done)
    (dataStart + liveBytes done)
  erased : ErasedFrom cfg (view cfg m (1 - src)) (dataStart + liveBytes done)
  located : ∀ e ∈ placed dataStart done,
    Located cfg (view cfg m (1 - src)) (dataStart + liveBytes done) e
  copied : contents (view cfg m (1 - src)) (placed dataStart done) =
    contents (view cfg m0 src) done

/-- As long as the active region is untouched and the other one is not ACTIVE,
the flash is an image of the queue. -/
theorem Base.image_of_source {c : Core} {m0 m : Memory} {recs : List (Nat × RecordHdr)}
    {Q : List StoredMessage → Prop} (b : Base R c m0 recs)
    (hQ : Q (contents (view cfg m0 c.region) (replay cfg recs).index))
    (hsrc : AgreeOn (view cfg m c.region) (view cfg m0 c.region) 0 cfg.regionSize)
    (hother : ¬ IsActive (view cfg m (1 - c.region)))
    (hblank : Blank (view cfg m (1 - c.region)) →
      ErasedFrom cfg (view cfg m (1 - c.region)) 0) : Image R m Q := by
  have hsize := cfg.dataStart_add_le
  have hhdr : regionHdrSize ≤ cfg.regionSize := by
    simp only [regionHdrSize, dataStart, sectorSize] at *
    omega
  refine Image.of_one ((isActive_congr (hsrc.mono (Nat.le_refl _) hhdr)).mpr b.active) hQ ?_
    hother hblank
  exact b.goodRegion.congr (hsrc.mono (Nat.zero_le _) (Nat.le_refl _))

theorem not_isActive_of_compacting {v : Memory} {g : UInt32}
    (h : headerAt v = ⟨hdrMagic, g, statusCompacting⟩) : ¬ IsActive v ∧ ¬ Blank v := by
  refine ⟨fun ha => ?_, not_blank_of_magic (by rw [h])⟩
  have hs := ha.2
  rw [h] at hs
  exact absurd hs (show statusCompacting ≠ statusActive by decide)

theorem Copying.image {c : Core} {m0 m : Memory} {recs : List (Nat × RecordHdr)}
    {Q : List StoredMessage → Prop} {generation seq : UInt32} {done : List FlashqIndexEntry}
    (b : Base R c m0 recs)
    (hQ : Q (contents (view cfg m0 c.region) (replay cfg recs).index))
    (cp : Copying cfg m0 m c.region generation seq done) : Image R m Q :=
  have h := not_isActive_of_compacting cp.header
  b.image_of_source hQ cp.source h.1 fun hb => absurd hb h.2

theorem hdr_lt_dataStart : regionHdrSize ≤ dataStart := by decide

/-- A write into the target's data area leaves source and header alone. -/
theorem Copying.image_of_write {c : Core} {m0 m : Memory} {recs : List (Nat × RecordHdr)}
    {Q : List StoredMessage → Prop} {generation seq : UInt32} {done : List FlashqIndexEntry}
    (b : Base R c m0 recs)
    (hQ : Q (contents (view cfg m0 c.region) (replay cfg recs).index))
    (cp : Copying cfg m0 m c.region generation seq done) {off : Nat} {data : Bytes}
    (hoff : dataStart ≤ off) (hfit : off + data.length ≤ cfg.regionSize) :
    Image R (m.program (cfg.regionOffset (1 - c.region) + off) data) Q := by
  have hne : c.region ≠ 1 - c.region := (other_ne c.region).symm
  have hhdr : AgreeOn (view cfg (m.program (cfg.regionOffset (1 - c.region) + off) data)
      (1 - c.region)) (view cfg m (1 - c.region)) 0 regionHdrSize := by
    rw [view_program_self]
    exact agreeOn_program (.inl (Nat.le_trans hdr_lt_dataStart hoff))
  have h := not_isActive_of_compacting ((headerAt_congr hhdr).trans cp.header)
  refine b.image_of_source hQ ?_ h.1 fun hb => absurd hb h.2
  intro i hlo hhi
  rw [view_program_other hne hfit hhi]
  exact cp.source i hlo hhi

/-- One more record copied. -/
theorem Copying.snoc {m0 m : Memory} {src : Fin 2} {generation seq : UInt32}
    {done : List FlashqIndexEntry} {e : FlashqIndexEntry} {limit : Nat}
    (cp : Copying cfg m0 m src generation seq done)
    (he : Located cfg (view cfg m0 src) limit e)
    (hfit : dataStart + liveBytes done + e.recordSize ≤ cfg.regionSize) :
    Copying cfg m0
      (m.program (cfg.regionOffset (1 - src) + (dataStart + liveBytes done))
        (recordBytes (e.copyHdr (seq + UInt32.ofNat done.length)) (contentOf (view cfg m0 src) e).body))
      src generation seq (done ++ [e]) := by
  have hne : src ≠ 1 - src := (other_ne src).symm
  have hbody : (contentOf (view cfg m0 src) e).body.length =
      (e.copyHdr (seq + UInt32.ofNat done.length)).bodyBytes := length_body_contentOf _ _
  have hlen := length_recordBytes hbody
  have hcur : dataStart + liveBytes (done ++ [e]) =
      dataStart + liveBytes done + e.recordSize := by simp [Nat.add_assoc]
  have hoff : (UInt32.ofNat (dataStart + liveBytes done)).toNat = dataStart + liveBytes done :=
    cfg.toNat_offset (by omega)
  rw [FlashqIndexEntry.totalSize_copyHdr] at hlen
  generalize hrec : recordBytes (e.copyHdr (seq + UInt32.ofNat done.length))
    (contentOf (view cfg m0 src) e).body = rec at hlen
  have hview : view cfg (m.program (cfg.regionOffset (1 - src) + (dataStart + liveBytes done)) rec)
      (1 - src) = (view cfg m (1 - src)).program (dataStart + liveBytes done) rec :=
    view_program_self ..
  -- the bytes before the new record are as before, the new record is in place
  have hkeep : AgreeOn ((view cfg m (1 - src)).program (dataStart + liveBytes done) rec)
      (view cfg m (1 - src)) 0 (dataStart + liveBytes done) :=
    agreeOn_program (.inl (Nat.le_refl _))
  have hback := cp.erased.bytesAt_program rec (by rw [hlen]; exact hfit)
  rw [hlen, ← hrec] at hback
  rw [hrec] at hback
  have hacc := @acceptAt_of_record cfg ((view cfg m (1 - src)).program (dataStart + liveBytes done) rec)
    (dataStart + liveBytes done) _ _ (RecordHdr.sealed_seal _ _ _) hbody (hback.trans hrec.symm) hfit
  have hnewbody := body_of_record hbody (hback.trans hrec.symm)
  have hcontent : contentOf ((view cfg m (1 - src)).program (dataStart + liveBytes done) rec)
      { e with messageOffset := UInt32.ofNat (dataStart + liveBytes done) } =
      contentOf (view cfg m0 src) e := by
    have hsum : (e.copyHdr (seq + UInt32.ofNat done.length)).bodyBytes =
        e.destinationLen.toNat + e.payloadLen.toNat := rfl
    rw [hsum, Memory.bytesAt_add, StoredMessage.body] at hnewbody
    obtain ⟨h1, h2⟩ := List.append_inj hnewbody (by simp [contentOf])
    simp only [contentOf, hoff]
    simp only [contentOf] at h1 h2
    rw [h1, h2]
  have hplaced : placed dataStart (done ++ [e]) = placed dataStart done ++
      [{ e with messageOffset := UInt32.ofNat (dataStart + liveBytes done) }] := by
    rw [placed_append]
    rfl
  refine ⟨?_, ?_, ?_, ?_, ?_, ?_⟩
  · intro i hlo hhi
    rw [view_program_other hne (by omega) hhi]
    exact cp.source i hlo hhi
  · rw [hview, headerAt_congr (hkeep.mono (Nat.le_refl _)
      (Nat.le_trans hdr_lt_dataStart (Nat.le_add_right _ _)))]
    exact cp.header
  · rw [hview, copiedRecs_append, hcur]
    exact (cp.log.congr (hkeep.mono (Nat.zero_le _) (Nat.le_refl _))).snoc hacc
  · rw [hview, hcur, ← hlen]
    exact cp.erased.program rec
  · intro x hx
    rw [hview, hcur]
    rw [hplaced] at hx
    rcases List.mem_append.mp hx with hx | hx
    · exact ((cp.located x hx).congr (hkeep.mono (Nat.zero_le _) (Nat.le_refl _))).mono
        (Nat.le_add_right _ _)
    · rw [List.mem_singleton.mp hx]
      refine ⟨⟨_, by rw [hoff]; exact hacc, by rw [hoff]; exact ⟨rfl, rfl, rfl⟩⟩,
        by rw [hoff]; exact Nat.le_add_right _ _, by rw [hoff],
        he.destinationLen_le, he.payloadLen_le, ?_⟩
      rw [hcontent]
      exact he.destination_ne
  · rw [hview, hplaced, contents, List.map_append, ← contents,
      contents_congr (hkeep.mono (Nat.zero_le _) (Nat.le_refl _)) cp.located, cp.copied,
      List.map_singleton, hcontent]
    simp [contents]

section CopyLoop

variable {c : Core} {m0 : Memory} {recs : List (Nat × RecordHdr)}
  {Q : List StoredMessage → Prop} {generation seq : UInt32}

/-- What the copy loop encodes for an entry. -/
theorem encode_copy {v : Memory} {limit : Nat} {e : FlashqIndexEntry} (he : Located cfg v limit e)
    {buf vs : Bytes} (seq : UInt32)
    (hvs : vs = v.bytesAt e.messageOffset.toNat
      (hdrSize + (e.destinationLen.toNat + e.payloadLen.toNat)) ++
      vs.drop (hdrSize + (e.destinationLen.toNat + e.payloadLen.toNat))) :
    encodeMessageFull buf cfg.scratchSize e.id
        (overlay (List.replicate (maxDestinationLen + 1) 0) 0
          (slice vs hdrSize e.destinationLen.toNat)) e.priority e.state e.attemptCount
        e.createdAtUs e.lastAttemptAtUs e.nextRetryAtUs e.lastError
        (.bytes (slice vs (hdrSize + e.destinationLen.toNat) e.payloadLen.toNat)) e.payloadLen seq =
      some (recordBytes (e.copyHdr seq) (contentOf v e).body ++ buf.drop e.recordSize,
        e.recordSize) := by
  have hraw : ∀ off n, off + n ≤ hdrSize + (e.destinationLen.toNat + e.payloadLen.toNat) →
      slice vs off n = v.bytesAt (e.messageOffset.toNat + off) n := by
    intro off n hle
    rw [hvs, slice_append_left (by simpa using hle), Memory.slice_bytesAt hle]
  have hdest : slice vs hdrSize e.destinationLen.toNat = (contentOf v e).destination :=
    hraw _ _ (by omega)
  have hpay : slice vs (hdrSize + e.destinationLen.toNat) e.payloadLen.toNat =
      (contentOf v e).payload := by
    rw [hraw _ _ (by omega), ← Nat.add_assoc]
    rfl
  have hdl : (contentOf v e).destination.length = e.destinationLen.toNat := by simp [contentOf]
  have hdl63 := he.destinationLen_le
  have hover : overlay (List.replicate (maxDestinationLen + 1) 0) 0 (contentOf v e).destination =
      (contentOf v e).destination ++
        List.replicate (maxDestinationLen + 1 - e.destinationLen.toNat) 0 := by
    rw [overlay, List.take_zero, List.nil_append, Nat.zero_add, hdl, List.drop_replicate]
  have hstr : cString (overlay (List.replicate (maxDestinationLen + 1) 0) 0
      (contentOf v e).destination) = (contentOf v e).destination := by
    rw [hover]
    exact cString_append_zeros he.destination_ne _
  have hlen : strlen (overlay (List.replicate (maxDestinationLen + 1) 0) 0
      (contentOf v e).destination) = e.destinationLen.toNat := by
    rw [strlen_eq_length_cString, hstr, hdl]
  rw [hdest, hpay]
  rw [encodeMessageFull_eq (by rw [hlen]; exact hdl63)
    (by rw [hlen, UInt16.ofNat_toNat]; exact he.recordSize_le) (by simp [contentOf]), hstr, hlen,
    UInt16.ofNat_toNat]
  have hhdr : messageHdr e.id (overlay (List.replicate (maxDestinationLen + 1) 0) 0
      (contentOf v e).destination) e.priority e.state e.attemptCount e.createdAtUs
      e.lastAttemptAtUs e.nextRetryAtUs e.lastError e.payloadLen seq = e.copyHdr seq := by
    rw [messageHdr, hlen, UInt16.ofNat_toNat]
    rfl
  rw [hhdr]
  rfl

/-- One turn of the copy loop. -/
theorem wp_copyEntry {P : Post FlashqCtx Memory EspErr Nat} {ctx : FlashqCtx} {m : Memory}
    {done rest : List FlashqIndexEntry} {e : FlashqIndexEntry} (b : Base R c m0 recs)
    (hQ : Q (contents (view cfg m0 c.region) (replay cfg recs).index))
    (cp : Copying cfg m0 m c.region generation seq done)
    (he : Located cfg (view cfg m0 c.region) c.cursor e)
    (hfit : dataStart + liveBytes done + e.recordSize ≤ cfg.regionSize)
    (hindex : ctx.index = placed dataStart done ++ e :: rest)
    (hok : ∀ ctx' m', ctx'.core =
        { ctx.core with index := placed dataStart (done ++ [e]) ++ rest } →
      Copying cfg m0 m' c.region generation seq (done ++ [e]) → P.ok e.recordSize ctx' m')
    (herr : R.mayFail → ∀ err ctx' m', Image R m' Q → P.error err ctx' m')
    (hcut : ∀ m', Image R m' Q → P.cut m') :
    wp cfg.device R.env (copyEntry cfg c.region (1 - c.region) (dataStart + liveBytes done)
      (seq + UInt32.ofNat done.length) done.length e) P ctx m := by
  have hsize := e.toEntryMeta.le_recordSize
  have hupper := he.upper
  have hcursor := b.cursor_le
  have hread : m.bytesAt (cfg.regionOffset c.region + e.messageOffset.toNat)
      (hdrSize + (e.destinationLen.toNat + e.payloadLen.toNat)) =
      (view cfg m0 c.region).bytesAt e.messageOffset.toNat
        (hdrSize + (e.destinationLen.toNat + e.payloadLen.toNat)) := by
    rw [bytesAt_region]
    exact cp.source.bytesAt (Nat.zero_le _) (by omega)
  unfold copyEntry
  simp only [Prog.bind_eq, wp_bind]
  refine wp_espPartitionRead R ?_ ?_ (hcut _ (cp.image b hQ)) ?_
  · rw [Nat.add_assoc]
    exact cfg.regionOffset_add_le (by omega)
  · rw [hread]
    simp only [wp_bind, wp_modify, wp_read]
    rw [encode_copy he _ (by
      rw [overlay, List.take_zero, List.nil_append, List.drop_left' (by simp)])]
    simp only [wp_bind, wp_modify]
    have hbody : (contentOf (view cfg m0 c.region) e).body.length =
        (e.copyHdr (seq + UInt32.ofNat done.length)).bodyBytes := length_body_contentOf _ _
    have hlen := length_recordBytes hbody
    rw [FlashqIndexEntry.totalSize_copyHdr] at hlen
    rw [take_recordBytes (n := e.recordSize) hbody rfl]
    refine wp_partitionWriteVerify_erased R cp.erased (by rw [hlen]; exact hfit) ?_ ?_ ?_
    · intro vs
      simp only [assignEntry, wp_modify, Prog.pure_eq, wp_ret]
      refine hok _ _ ?_ (cp.snoc he hfit)
      simp only [FlashqCtx.core, Core.mk.injEq, true_and, and_true]
      rw [hindex, placed_append, List.append_assoc]
      rw [← length_placed dataStart done, modify_append_cons]
      rfl
    · exact fun hmay => herr hmay _ _ _ ((cp.snoc he hfit).image b hQ)
    · intro n
      refine hcut _ (cp.image_of_write b hQ (Nat.le_add_right _ _) ?_)
      rw [List.length_take, hlen]
      omega
  · rintro ⟨k, hk⟩
    rcases R.read_events hk with h | ⟨_, h⟩ | ⟨hmay, _⟩
    · exact absurd h (by simp)
    · exact absurd h (by simp)
    · simp only [wp_fail]
      exact herr hmay _ _ _ (cp.image b hQ)

/-- The copy loop. -/
theorem wp_copyLoop {P : Post FlashqCtx Memory EspErr (Nat × UInt32)} {ctx : FlashqCtx}
    {m : Memory} {done rest : List FlashqIndexEntry} (b : Base R c m0 recs)
    (hQ : Q (contents (view cfg m0 c.region) (replay cfg recs).index))
    (cp : Copying cfg m0 m c.region generation seq done)
    (hrest : ∀ e ∈ rest, Located cfg (view cfg m0 c.region) c.cursor e)
    (hfit : dataStart + liveBytes (done ++ rest) ≤ cfg.regionSize)
    (hindex : ctx.index = placed dataStart done ++ rest)
    (hok : ∀ ctx' m', ctx'.core = { ctx.core with index := placed dataStart (done ++ rest) } →
      Copying cfg m0 m' c.region generation seq (done ++ rest) →
      P.ok (dataStart + liveBytes (done ++ rest), seq + UInt32.ofNat (done ++ rest).length) ctx' m')
    (herr : R.mayFail → ∀ err ctx' m', Image R m' Q → P.error err ctx' m')
    (hcut : ∀ m', Image R m' Q → P.cut m') :
    wp cfg.device R.env (copyLoop cfg c.region (1 - c.region) rest done.length
      (dataStart + liveBytes done) (seq + UInt32.ofNat done.length)) P ctx m := by
  induction rest generalizing done ctx m with
  | nil =>
    simp only [List.append_nil] at hindex hok
    rw [copyLoop, Prog.pure_eq, wp_ret]
    refine hok ctx m ?_ cp
    simp only [FlashqCtx.core, hindex]
  | cons e rest ih =>
    have hassoc : done ++ e :: rest = (done ++ [e]) ++ rest := by simp
    have hfit' : dataStart + liveBytes done + e.recordSize ≤ cfg.regionSize := by
      rw [liveBytes_append, liveBytes_cons] at hfit
      omega
    rw [copyLoop]
    simp only [Prog.bind_eq, wp_bind]
    refine wp_copyEntry (Q := Q) b hQ cp (hrest e List.mem_cons_self) hfit' hindex ?_ herr hcut
    intro ctx' m' hcore cp'
    have hidx : ctx'.index = placed dataStart (done ++ [e]) ++ rest := congrArg Core.index hcore
    have hcur : dataStart + liveBytes done + e.recordSize =
        dataStart + liveBytes (done ++ [e]) := by simp [Nat.add_assoc]
    have hseq : seq + UInt32.ofNat done.length + 1 = seq + UInt32.ofNat (done ++ [e]).length := by
      rw [List.length_append, UInt32.ofNat_add, UInt32.add_assoc]
      rfl
    have hlen : done.length + 1 = (done ++ [e]).length := by simp
    dsimp only
    rw [hcur, hseq, hlen]
    rw [hassoc] at hfit hok
    refine ih cp' (fun x hx => hrest x (List.mem_cons_of_mem _ hx)) hfit hidx ?_
    intro ctx'' m'' hcore'' cp''
    refine hok ctx'' m'' ?_ cp''
    rw [hcore'', hcore]

/-- The whole copy loop. -/
theorem wp_copyLoop_all {P : Post FlashqCtx Memory EspErr (Nat × UInt32)} {ctx : FlashqCtx}
    {m : Memory} (b : Base R c m0 recs)
    (hQ : Q (contents (view cfg m0 c.region) (replay cfg recs).index))
    (cp : Copying cfg m0 m c.region generation seq []) (hindex : ctx.index = c.index)
    (hok : ∀ ctx' m', ctx'.core = { ctx.core with index := placed dataStart c.index } →
      Copying cfg m0 m' c.region generation seq c.index →
      P.ok (dataStart + liveBytes c.index, seq + UInt32.ofNat c.index.length) ctx' m')
    (herr : R.mayFail → ∀ err ctx' m', Image R m' Q → P.error err ctx' m')
    (hcut : ∀ m', Image R m' Q → P.cut m') :
    wp cfg.device R.env (copyLoop cfg c.region (1 - c.region) c.index 0 dataStart seq) P ctx m := by
  have hfit := b.fit
  have hcap := cfg.dataCapacity_eq
  have h := @wp_copyLoop _ _ _ _ _ _ _ _ P ctx m [] c.index b hQ cp b.located
    (by rw [List.nil_append]; omega) hindex hok herr hcut
  rwa [List.length_nil, show UInt32.ofNat 0 = 0 from rfl, UInt32.add_zero] at h

end CopyLoop

/-! ## The new region -/

variable (cfg) in
/-- The other region holds the compacted log of `index`, whose messages are the
ones `m0` has in region `src`; its header has the given status. -/
structure Copied (m0 m : Memory) (src : Fin 2) (status : UInt8) (generation seq : UInt32)
    (index : List FlashqIndexEntry) : Prop where
  header : headerAt (view cfg m (1 - src)) = ⟨hdrMagic, generation, status⟩
  log : Log cfg (view cfg m (1 - src)) dataStart (compactedRecs seq index)
    (dataStart + liveBytes index + updateSize)
  erased : ErasedFrom cfg (view cfg m (1 - src)) (dataStart + liveBytes index + updateSize)
  located : ∀ e ∈ placed dataStart index,
    Located cfg (view cfg m (1 - src)) (dataStart + liveBytes index + updateSize) e
  copied : contents (view cfg m (1 - src)) (placed dataStart index) =
    contents (view cfg m0 src) index

theorem headerAt_generation (v : Memory) :
    (headerAt v).generation = UInt32.ofNat (ofLe (v.bytesAt 4 4)) := by
  have h : slice (v.bytesAt 0 regionHdrSize) 4 4 = v.bytesAt 4 4 := by
    rw [Memory.slice_bytesAt (by decide)]
  simp only [headerAt, RegionHdr.ofBytes, h]

/-- A status flip changes the status byte of the header only. -/
theorem headerAt_program_status (v : Memory) (s : UInt8) :
    headerAt (v.program statusOffset [s]) = { headerAt v with status := (headerAt v).status &&& s } := by
  have hlow : AgreeOn (v.program statusOffset [s]) v 0 8 := agreeOn_program (.inl (Nat.le_refl _))
  have hm : (headerAt (v.program statusOffset [s])).magic = (headerAt v).magic := by
    rw [headerAt_magic, headerAt_magic, hlow.bytesAt (Nat.le_refl _) (by omega)]
  have hg : (headerAt (v.program statusOffset [s])).generation = (headerAt v).generation := by
    rw [headerAt_generation, headerAt_generation, hlow.bytesAt (by omega) (by omega)]
  have hs : (headerAt (v.program statusOffset [s])).status = (headerAt v).status &&& s := by
    rw [headerAt_status, headerAt_status]
    have hlt : 0 < [s].length := by simp
    exact @Memory.program_at v 8 0 [s] hlt
  cases hh : headerAt (v.program statusOffset [s])
  rw [hh] at hm hg hs
  simp only at hm hg hs
  rw [hm, hg, hs]

section NewRegion

variable {m0 m m' : Memory} {src : Fin 2} {status : UInt8} {generation seq : UInt32}
  {index : List FlashqIndexEntry}

/-- The END marker completes the compacted log. -/
theorem Copying.copied_end (cp : Copying cfg m0 m src generation seq index)
    (hfit : dataStart + liveBytes index + updateSize ≤ cfg.regionSize) :
    Copied cfg m0
      (m.program (cfg.regionOffset (1 - src) + (dataStart + liveBytes index))
        (recordBytes (endHdr (seq + UInt32.ofNat index.length)) []))
      src statusCompacting generation seq index := by
  have hlen : (recordBytes (endHdr (seq + UInt32.ofNat index.length)) []).length = updateSize :=
    length_recordBytes rfl
  generalize hrec : recordBytes (endHdr (seq + UInt32.ofNat index.length)) [] = rec at hlen
  have hview : view cfg (m.program (cfg.regionOffset (1 - src) + (dataStart + liveBytes index)) rec)
      (1 - src) = (view cfg m (1 - src)).program (dataStart + liveBytes index) rec :=
    view_program_self ..
  have hkeep : AgreeOn ((view cfg m (1 - src)).program (dataStart + liveBytes index) rec)
      (view cfg m (1 - src)) 0 (dataStart + liveBytes index) :=
    agreeOn_program (.inl (Nat.le_refl _))
  have hback := cp.erased.bytesAt_program rec (by rw [hlen]; exact hfit)
  rw [hlen, ← hrec] at hback
  rw [hrec] at hback
  have hacc := @acceptAt_of_record cfg ((view cfg m (1 - src)).program (dataStart + liveBytes index) rec)
    (dataStart + liveBytes index) _ _ (RecordHdr.sealed_seal _ _ _) rfl (hback.trans hrec.symm) hfit
  refine ⟨?_, ?_, ?_, ?_, ?_⟩
  · rw [hview, headerAt_congr (hkeep.mono (Nat.le_refl _)
      (Nat.le_trans hdr_lt_dataStart (Nat.le_add_right _ _)))]
    exact cp.header
  · rw [hview]
    exact (cp.log.congr (hkeep.mono (Nat.zero_le _) (Nat.le_refl _))).snoc hacc
  · rw [hview, ← hlen]
    exact cp.erased.program rec
  · intro x hx
    rw [hview]
    exact ((cp.located x hx).congr (hkeep.mono (Nat.zero_le _) (Nat.le_refl _))).mono
      (Nat.le_add_right _ _)
  · rw [hview, contents_congr (hkeep.mono (Nat.zero_le _) (Nat.le_refl _)) cp.located]
    exact cp.copied

/-- Header and data area are all that matters. -/
theorem Copied.congr (cd : Copied cfg m0 m src status generation seq index) {status' : UInt8}
    (hhdr : headerAt (view cfg m' (1 - src)) = ⟨hdrMagic, generation, status'⟩)
    (hdata : AgreeOn (view cfg m' (1 - src)) (view cfg m (1 - src)) dataStart cfg.regionSize)
    (hfit : dataStart + liveBytes index + updateSize ≤ cfg.regionSize) :
    Copied cfg m0 m' src status' generation seq index := by
  have hlow := hdata.mono (Nat.le_refl _) hfit
  refine ⟨hhdr, cd.log.congr hlow, ?_, fun e he => (cd.located e he).congr hlow, ?_⟩
  · intro i h1 h2
    rw [hdata i (by omega) h2]
    exact cd.erased i h1 h2
  · rw [contents_congr hlow cd.located]
    exact cd.copied

theorem Copied.goodRegion (cd : Copied cfg m0 m src status generation seq index)
    (hroom : index.length ≤ cfg.indexCapacity)
    (hfit : liveBytes index + updateSize ≤ cfg.dataCapacity) :
    GoodRegion R (view cfg m (1 - src)) (contents (view cfg m0 src) index) :=
  ⟨compactedRecs seq index, _, cd.log, R.tail_erased cd.erased, by
    rw [replay_compactedRecs seq hroom]
    exact cd.located, by
    rw [replay_compactedRecs seq hroom, liveBytes_placed]
    exact hfit, by
    rw [replay_compactedRecs seq hroom]
    exact cd.copied⟩

/-- The new region is ACTIVE and the old one no longer is. -/
theorem Copied.image {Q : List StoredMessage → Prop}
    (cd : Copied cfg m0 m src statusActive generation seq index)
    (hroom : index.length ≤ cfg.indexCapacity)
    (hfit : liveBytes index + updateSize ≤ cfg.dataCapacity)
    (hQ : Q (contents (view cfg m0 src) index)) (hsrc : ¬ IsActive (view cfg m src))
    (hblank : Blank (view cfg m src) → ErasedFrom cfg (view cfg m src) 0) : Image R m Q := by
  refine Image.of_one (r := 1 - src) ⟨by rw [cd.header], by rw [cd.header]⟩ hQ
    (cd.goodRegion hroom hfit) ?_ ?_
  · rw [other_other]
    exact hsrc
  · rw [other_other]
    exact hblank

/-- The context after the compaction, over the flash after it. -/
theorem Copied.base {c : Core}
    (cd : Copied cfg m0 m c.region statusActive (c.generation + 1) c.nextSeq c.index)
    (hroom : c.index.length ≤ cfg.indexCapacity)
    (hfit : liveBytes c.index + updateSize ≤ cfg.dataCapacity)
    (hsrc : ErasedFrom cfg (view cfg m c.region) 0) :
    Base R c.compacted m (compactedRecs c.nextSeq c.index) := by
  have hhdr := cfg.dataStart_add_le
  refine
    { active := ⟨?_, ?_⟩
      generation := ?_
      spare := ?_
      spare_blank := ?_
      log := cd.log
      tail := R.tail_erased cd.erased
      same := ?_
      located := cd.located
      fit := ?_ }
  · show (headerAt (view cfg m (1 - c.region))).magic = _
    rw [cd.header]
  · show (headerAt (view cfg m (1 - c.region))).status = _
    rw [cd.header]
  · show (headerAt (view cfg m (1 - c.region))).generation = _
    rw [cd.header]
    rfl
  · show ¬ IsActive (view cfg m (1 - (1 - c.region)))
    rw [other_other]
    intro ha
    refine not_blank_of_magic ha.1 (blank_iff.mpr fun i hi => hsrc i (Nat.zero_le _) ?_)
    have := hdr_lt_dataStart
    omega
  · show Blank (view cfg m (1 - (1 - c.region))) → ErasedFrom cfg (view cfg m (1 - (1 - c.region))) 0
    rw [other_other]
    exact fun _ => hsrc
  · show liveBytes (placed dataStart c.index) + updateSize ≤ _
    rw [liveBytes_placed]
    exact hfit
  · rw [replay_compactedRecs _ hroom]
    rfl

end NewRegion

/-! ## Preparing the target -/

/-- What a torn header write leaves in an erased region. -/
theorem torn_header {v : Memory} (hv : ErasedFrom cfg v 0) (h : RegionHdr)
    (hm : h.magic = hdrMagic) (n : Nat) :
    (v.program 0 (h.toBytes.take n) = v) ∨
    (¬ Blank (v.program 0 (h.toBytes.take n)) ∧
      ((v.program 0 (h.toBytes.take n)) 8 = 0xFF ∨
        (v.program 0 (h.toBytes.take n)) 8 = h.status)) := by
  have hsize := cfg.dataStart_add_le
  simp only [dataStart, sectorSize] at hsize
  cases n with
  | zero => simp
  | succ n =>
    right
    have hbyte : ∀ i b, h.toBytes[i]? = some b → i < n + 1 →
        (v.program 0 (h.toBytes.take (n + 1))) i = b := by
      intro i b hb hi
      have hlt : i < (h.toBytes.take (n + 1)).length := by
        have := (List.getElem?_eq_some_iff.mp hb).1
        rw [List.length_take]
        omega
      have hget : (h.toBytes.take (n + 1))[i] = b := by
        rw [List.getElem_take]
        exact (List.getElem?_eq_some_iff.mp hb).2
      have hlen : h.toBytes.length = 12 := h.length_toBytes
      have hp := @Memory.program_at_of_erased v 0 i _ hlt
        (hv _ (Nat.zero_le _) (by rw [List.length_take] at hlt; omega))
      rw [Nat.zero_add, hget] at hp
      exact hp
    have h0 : h.toBytes[0]? = some 0x48 := by
      rw [RegionHdr.toBytes, hm]
      rfl
    have h8 : h.toBytes[8]? = some h.status := by
      rw [RegionHdr.toBytes, List.getElem?_append_right (by simp), length_leBytes,
        List.getElem?_append_right (by simp), length_leBytes]
      rfl
    refine ⟨fun hb => ?_, ?_⟩
    · have := blank_iff.mp hb 0 (by decide)
      rw [hbyte 0 _ h0 (by omega)] at this
      exact absurd this (by decide)
    · by_cases h8n : 8 < n + 1
      · exact .inr (hbyte 8 _ h8 h8n)
      · left
        rw [Memory.program_of_ge (by rw [List.length_take]; omega)]
        exact hv 8 (by omega) (by omega)

/-- A region header written to an erased region. -/
theorem headerAt_program {v : Memory} (hv : ErasedFrom cfg v 0) (h : RegionHdr) :
    headerAt (v.program 0 h.toBytes) = h := by
  have hsize := cfg.dataStart_add_le
  simp only [dataStart, sectorSize] at hsize
  have hlen : h.toBytes.length = 12 := h.length_toBytes
  have hb := hv.bytesAt_program h.toBytes (by omega)
  exact headerAt_of_bytes (by rw [← h.length_toBytes]; exact hb)

/-- The target is ready for the copy loop. -/
theorem Copying.nil {m0 m : Memory} {src : Fin 2} (generation seq : UInt32)
    (hsrc : AgreeOn (view cfg m src) (view cfg m0 src) 0 cfg.regionSize)
    (herased : ErasedFrom cfg (view cfg m (1 - src)) 0) :
    Copying cfg m0 (m.program (cfg.regionOffset (1 - src) + 0)
      (RegionHdr.toBytes ⟨hdrMagic, generation, statusCompacting⟩)) src generation seq [] := by
  have hne : src ≠ 1 - src := (other_ne src).symm
  have hsize := cfg.dataStart_add_le
  simp only [dataStart, sectorSize] at hsize
  have hlen : (RegionHdr.toBytes ⟨hdrMagic, generation, statusCompacting⟩).length = 12 :=
    RegionHdr.length_toBytes _
  refine ⟨?_, ?_, .nil _, ?_, by simp [placed], rfl⟩
  · intro i hlo hhi
    rw [view_program_other hne (by omega) hhi]
    exact hsrc i hlo hhi
  · rw [view_program_self]
    exact headerAt_program herased _
  · rw [view_program_self, liveBytes_nil]
    have h := herased.program (RegionHdr.toBytes ⟨hdrMagic, generation, statusCompacting⟩)
    exact h.mono (by rw [hlen]; decide)

/-- A header write that was cut leaves the old region in charge. -/
theorem Base.image_of_torn_header {c : Core} {m0 m : Memory} {recs : List (Nat × RecordHdr)}
    {Q : List StoredMessage → Prop} (b : Base R c m0 recs)
    (hQ : Q (contents (view cfg m0 c.region) (replay cfg recs).index))
    (hsrc : AgreeOn (view cfg m c.region) (view cfg m0 c.region) 0 cfg.regionSize)
    (herased : ErasedFrom cfg (view cfg m (1 - c.region)) 0) (generation : UInt32) (n : Nat) :
    Image R (m.program (cfg.regionOffset (1 - c.region) + 0)
      ((RegionHdr.toBytes ⟨hdrMagic, generation, statusCompacting⟩).take n)) Q := by
  have hne : c.region ≠ 1 - c.region := (other_ne c.region).symm
  have hsize := cfg.dataStart_add_le
  simp only [dataStart, sectorSize] at hsize
  have hlen : (RegionHdr.toBytes ⟨hdrMagic, generation, statusCompacting⟩).length = 12 :=
    RegionHdr.length_toBytes _
  have hview := @view_program_self cfg m (1 - c.region) 0
    ((RegionHdr.toBytes ⟨hdrMagic, generation, statusCompacting⟩).take n)
  refine b.image_of_source hQ ?_ ?_ ?_
  · intro i hlo hhi
    rw [view_program_other hne (by rw [List.length_take]; omega) hhi]
    exact hsrc i hlo hhi
  · rw [hview]
    intro ha
    rcases torn_header herased ⟨hdrMagic, generation, statusCompacting⟩ rfl n with h | ⟨_, h | h⟩
    · rw [h] at ha
      exact not_blank_of_magic ha.1 (blank_iff.mpr fun i hi => herased i (Nat.zero_le _)
        (by simp only [regionHdrSize] at hi; omega))
    · have hs := ha.2
      rw [headerAt_status, h] at hs
      exact absurd hs (by decide)
    · have hs := ha.2
      rw [headerAt_status, h] at hs
      exact absurd hs (show statusCompacting ≠ statusActive by decide)
  · rw [hview]
    intro hb
    rcases torn_header herased ⟨hdrMagic, generation, statusCompacting⟩ rfl n with h | ⟨h, _⟩
    · rw [h]
      exact herased
    · exact absurd hb h

/-! ## The whole compaction -/

theorem wp_encodeToWriteScratch {P : Post FlashqCtx Memory EspErr Nat} {ctx : FlashqCtx}
    {env : Env FlashCall Memory FlashEvent} {m : Memory} {encode : Bytes → Option (Bytes × Nat)} {buf : Bytes} {len : Nat}
    (h : encode ctx.writeScratch = some (buf, len))
    (hok : P.ok len { ctx with writeScratch := buf } m) :
    wp cfg.device env (encodeToWriteScratch encode) P ctx m := by
  unfold encodeToWriteScratch
  simp only [Prog.bind_eq, wp_bind, wp_read, h, wp_modify, Prog.pure_eq, wp_ret]
  exact hok

/-- A status flip, read back. -/
theorem wp_flipStatus {P : Post FlashqCtx Memory EspErr Unit} {ctx : FlashqCtx} {m : Memory}
    {r : Fin 2} {s : UInt8} (hs : (headerAt (view cfg m r)).status &&& s = s)
    (hok : ∀ b, P.ok () { ctx with verifyScratch := b }
      (m.program (cfg.regionOffset r + statusOffset) [s]))
    (hfail : R.mayFail → P.error .storage ctx
      (m.program (cfg.regionOffset r + statusOffset) [s]))
    (hcut : P.cut m) (hcut' : P.cut (m.program (cfg.regionOffset r + statusOffset) [s])) :
    wp cfg.device R.env (partitionWriteVerify (cfg.regionOffset r + statusOffset) [s]) P ctx m := by
  have hsize := cfg.dataStart_add_le
  have hin : cfg.regionOffset r + statusOffset + [s].length ≤ cfg.partitionSize.toNat := by
    rw [Nat.add_assoc]
    refine cfg.regionOffset_add_le ?_
    simp only [statusOffset, dataStart, sectorSize, List.length_singleton] at *
    omega
  have hback : (m.program (cfg.regionOffset r + statusOffset) [s]).bytesAt
      (cfg.regionOffset r + statusOffset) [s].length = [s] := by
    rw [bytesAt_region, view_program_self]
    apply Memory.bytesAt_eq_iff.mpr
    intro i hi
    obtain rfl : i = 0 := by simpa using hi
    rw [Memory.program_at (by simp)]
    rw [headerAt_status] at hs
    exact hs
  refine wp_partitionWriteVerify R hin (fun _ _ => hok) (fun _ h => absurd hback h)
    (fun hmay _ => hfail hmay) (fun _ => hcut') (fun n _ => ?_)
  cases n with
  | zero => simpa using hcut
  | succ n => simpa using hcut'

variable {P : Post FlashqCtx Memory EspErr Unit} {ctx : FlashqCtx} {m : Memory}
  {recs : List (Nat × RecordHdr)} {Q : List StoredMessage → Prop}

/-- A status flip in one region, seen from the other. -/
theorem agreeOn_flip (m : Memory) {r a : Fin 2} (h : a ≠ r) (s : UInt8) :
    AgreeOn (view cfg (m.program (cfg.regionOffset r + statusOffset) [s]) a) (view cfg m a) 0
      cfg.regionSize := by
  have hsize := cfg.dataStart_add_le
  intro i _ hi
  refine view_program_other h ?_ hi
  simp only [statusOffset, dataStart, sectorSize, List.length_singleton] at *
  omega

theorem compacting_and_active : statusCompacting &&& statusActive = statusActive := by decide

theorem active_and_stale : statusActive &&& statusStale = statusStale := by decide

/-- The status flips and the erasure, from a complete target on. -/
theorem wp_commitTarget {c : Core} {m0 : Memory} (b : Base R c m0 recs)
    (hQ : Q (contents (view cfg m0 c.region) (replay cfg recs).index))
    (hQ' : Q (contents (view cfg m0 c.region) c.index))
    (hsrc : AgreeOn (view cfg m c.region) (view cfg m0 c.region) 0 cfg.regionSize)
    (cd : Copied cfg m0 m c.region statusCompacting (c.generation + 1) c.nextSeq c.index)
    (hok : ∀ vs m', Copied cfg m0 m' c.region statusActive (c.generation + 1) c.nextSeq c.index →
      ErasedFrom cfg (view cfg m' c.region) 0 → P.ok () { ctx with verifyScratch := vs } m')
    (herr : R.mayFail → ∀ err ctx' m', Image R m' Q → P.error err ctx' m')
    (hcut : ∀ m', Image R m' Q → P.cut m') :
    wp cfg.device R.env (commitTarget cfg c.region (1 - c.region)) P ctx m := by
  have hne : c.region ≠ 1 - c.region := (other_ne _).symm
  have hcap := cfg.dataCapacity_eq
  have hfitD := b.fit
  have hfit : dataStart + liveBytes c.index + updateSize ≤ cfg.regionSize := by omega
  have hhdrSize : regionHdrSize ≤ cfg.regionSize := Nat.le_trans hdr_lt_dataStart (by omega)
  have h4 := not_isActive_of_compacting cd.header
  have hview := @view_program_self cfg m (1 - c.region) statusOffset [statusActive]
  -- the flip: from here on both regions hold the queue
  have hsrc5 := (@agreeOn_flip cfg m _ _ hne statusActive).trans hsrc
  have cd5 : Copied cfg m0 (m.program (cfg.regionOffset (1 - c.region) + statusOffset)
      [statusActive]) c.region statusActive (c.generation + 1) c.nextSeq c.index := by
    refine cd.congr ?_ ?_ hfit
    · rw [hview, headerAt_program_status, cd.header]
      simp only [compacting_and_active]
    · rw [hview]
      exact agreeOn_program (.inr (by decide))
  have hact5 := (isActive_congr (hsrc5.mono (Nat.le_refl _) hhdrSize)).mpr b.active
  have image5 : Image R (m.program (cfg.regionOffset (1 - c.region) + statusOffset)
      [statusActive]) Q :=
    Image.of_both hact5 hQ (b.goodRegion.congr (hsrc5.mono (Nat.zero_le _) (Nat.le_refl _)))
      ⟨by rw [cd5.header], by rw [cd5.header]⟩ hQ' (cd5.goodRegion b.room hfitD)
  unfold commitTarget
  simp only [Prog.bind_eq, Prog.pure_eq, wp_bind, wp_attempt, wp_ret]
  refine wp_flipStatus (by rw [cd.header]; exact compacting_and_active) ?_ (fun hmay => herr hmay _ _ _ image5)
    (hcut _ (b.image_of_source hQ hsrc h4.1 fun hb => absurd hb h4.2)) (hcut _ image5)
  intro vs5
  generalize m.program (cfg.regionOffset (1 - c.region) + statusOffset) [statusActive] = m5
    at hsrc5 cd5 hact5 image5
  -- the old region is marked STALE, whether or not the read-back says so
  have hhdr6 : headerAt (view cfg (m5.program (cfg.regionOffset c.region + statusOffset)
      [statusStale]) c.region) = { headerAt (view cfg m5 c.region) with status := statusStale } := by
    rw [view_program_self, headerAt_program_status, hact5.2, active_and_stale]
  have hinactive6 : ¬ IsActive (view cfg (m5.program (cfg.regionOffset c.region + statusOffset)
      [statusStale]) c.region) := by
    intro ha
    have hs := ha.2
    rw [hhdr6] at hs
    exact absurd hs (show statusStale ≠ statusActive by decide)
  have hfull6 : ¬ Blank (view cfg (m5.program (cfg.regionOffset c.region + statusOffset)
      [statusStale]) c.region) := not_blank_of_magic (by rw [hhdr6]; exact hact5.1)
  have hother6 := @agreeOn_flip cfg m5 _ _ (Ne.symm hne) statusStale
  have cd6 : Copied cfg m0 (m5.program (cfg.regionOffset c.region + statusOffset) [statusStale])
      c.region statusActive (c.generation + 1) c.nextSeq c.index :=
    cd5.congr ((headerAt_congr (hother6.mono (Nat.le_refl _) hhdrSize)).trans cd5.header)
      (hother6.mono (Nat.zero_le _) (Nat.le_refl _)) hfit
  have image6 : Image R (m5.program (cfg.regionOffset c.region + statusOffset) [statusStale]) Q :=
    cd6.image b.room hfitD hQ' hinactive6 fun hb => absurd hb hfull6
  -- the old region is erased
  have hrest : ∀ ctx' vs, ctx' = { ctx with verifyScratch := vs } →
      wp cfg.device R.env (ensureRegionErased cfg c.region)
        ⟨fun _ => P.ok (), fun _ => P.ok (), P.cut⟩ ctx'
        (m5.program (cfg.regionOffset c.region + statusOffset) [statusStale]) := by
    rintro _ vs rfl
    generalize m5.program (cfg.regionOffset c.region + statusOffset) [statusStale] = m6
      at hinactive6 hfull6 cd6 image6
    have herased : ErasedFrom cfg (view cfg (m6.erase (cfg.regionOffset c.region)
        cfg.regionSize) c.region) 0 := fun i _ hi => view_erase_self hi
    have hother7 : AgreeOn (view cfg (m6.erase (cfg.regionOffset c.region) cfg.regionSize)
        (1 - c.region)) (view cfg m6 (1 - c.region)) 0 cfg.regionSize :=
      fun i _ hi => view_erase_other (Ne.symm hne) hi
    have cd7 : Copied cfg m0 (m6.erase (cfg.regionOffset c.region) cfg.regionSize) c.region
        statusActive (c.generation + 1) c.nextSeq c.index :=
      cd6.congr ((headerAt_congr (hother7.mono (Nat.le_refl _) hhdrSize)).trans cd6.header)
        (hother7.mono (Nat.zero_le _) (Nat.le_refl _)) hfit
    refine wp_ensureRegionErased R (fun hb => absurd hb hfull6) (hok _ _ cd7 herased)
      (hcut _ image6) (hcut _ (cd7.image b.room hfitD hQ' (fun ha => ?_) fun _ => herased))
    exact not_blank_of_magic ha.1 (blank_iff.mpr fun i hi => herased i (Nat.zero_le _) (by omega))
  refine wp_flipStatus (by rw [hact5.2]; exact active_and_stale) (fun vs6 => hrest _ vs6 rfl)
    (fun _ => hrest _ vs5 rfl) (hcut _ image5) (hcut _ image6)

/-- `compact_locked`: the flash is always an image of the queue, and a compaction
that ends is `Core.compacted`. -/
theorem wp_compactLocked (b : Base R ctx.core m recs)
    (hQ : Q (contents (view cfg m ctx.activeRegion) (replay cfg recs).index))
    (hQ' : Q (contents (view cfg m ctx.activeRegion) ctx.index))
    (hok : ∀ ctx' m', ctx'.core = ctx.core.compacted →
      Base R ctx'.core m' (compactedRecs ctx.nextSeq ctx.index) →
      contents (view cfg m' ctx'.activeRegion) ctx'.index =
        contents (view cfg m ctx.activeRegion) ctx.index → P.ok () ctx' m')
    (herr : R.mayFail → ∀ err ctx' m', Image R m' Q → P.error err ctx' m')
    (hcut : ∀ m', Image R m' Q → P.cut m') :
    wp cfg.device R.env (compactLocked cfg) P ctx m := by
  have hne : ctx.activeRegion ≠ 1 - ctx.activeRegion := (other_ne _).symm
  have hcap := cfg.dataCapacity_eq
  have hroom : ctx.index.length ≤ cfg.indexCapacity := b.room
  have hfitD : liveBytes ctx.index + updateSize ≤ cfg.dataCapacity := b.fit
  have hfit : dataStart + liveBytes ctx.index + updateSize ≤ cfg.regionSize := by omega
  have hhdrSize : regionHdrSize ≤ cfg.regionSize := Nat.le_trans hdr_lt_dataStart (by omega)
  -- the images before the flip
  have himage : ∀ m', AgreeOn (view cfg m' ctx.activeRegion) (view cfg m ctx.activeRegion) 0
      cfg.regionSize → ¬ IsActive (view cfg m' (1 - ctx.activeRegion)) →
      (Blank (view cfg m' (1 - ctx.activeRegion)) →
        ErasedFrom cfg (view cfg m' (1 - ctx.activeRegion)) 0) → Image R m' Q :=
    fun m' h1 h2 h3 => b.image_of_source hQ h1 h2 h3
  have hstart : Image R m Q := himage m (AgreeOn.refl _ _ _) b.spare b.spare_blank
  have herasedImage : ∀ m', ErasedFrom cfg (view cfg m' (1 - ctx.activeRegion)) 0 →
      AgreeOn (view cfg m' ctx.activeRegion) (view cfg m ctx.activeRegion) 0 cfg.regionSize →
      Image R m' Q := by
    intro m' he ha
    refine himage m' ha (fun hact => ?_) (fun _ => he)
    exact not_blank_of_magic hact.1 (blank_iff.mpr fun i hi => he i (Nat.zero_le _) (by omega))
  have herase : ErasedFrom cfg (view cfg (m.erase (cfg.regionOffset (1 - ctx.activeRegion))
      cfg.regionSize) (1 - ctx.activeRegion)) 0 := fun i _ hi => view_erase_self hi
  have heraseSrc : AgreeOn (view cfg (m.erase (cfg.regionOffset (1 - ctx.activeRegion))
      cfg.regionSize) ctx.activeRegion) (view cfg m ctx.activeRegion) 0 cfg.regionSize :=
    fun i _ hi => view_erase_other hne hi
  unfold compactLocked
  simp only [Prog.bind_eq, wp_bind, wp_read]
  -- the target is erased
  have hprep : wp cfg.device R.env (ensureRegionErased cfg (1 - ctx.activeRegion))
      ⟨fun _ s d => s = ctx ∧ ErasedFrom cfg (view cfg d (1 - ctx.activeRegion)) 0 ∧
        AgreeOn (view cfg d ctx.activeRegion) (view cfg m ctx.activeRegion) 0 cfg.regionSize,
        fun _ _ _ => False, fun d => Image R d Q⟩ ctx m :=
    wp_ensureRegionErased R (fun hb => ⟨rfl, b.spare_blank hb, AgreeOn.refl _ _ _⟩)
      ⟨rfl, herase, heraseSrc⟩ hstart (herasedImage _ herase heraseSrc)
  refine wp_mono hprep ?_ (fun _ _ _ h => h.elim) hcut
  rintro _ s m1 ⟨rfl, he, ha⟩
  -- its header is written, and the records are copied
  refine wp_partitionWriteVerify_erased (r := 1 - s.activeRegion) R he ?_ ?_ ?_
    (fun n => hcut _ (b.image_of_torn_header hQ ha he _ n))
  · rw [RegionHdr.length_toBytes]
    omega
  swap
  · exact fun hmay => herr hmay _ _ _ ((Copying.nil _ s.nextSeq ha he).image b hQ)
  intro vs
  dsimp only
  refine wp_copyLoop_all (Q := Q) b hQ (Copying.nil _ s.nextSeq ha he) rfl ?_ herr hcut
  intro c3 m3 hcore3 cp
  dsimp only
  -- the END marker
  refine wp_encodeToWriteScratch (encodeEnd_eq (updateSize_le_scratch cfg)) ?_
  dsimp only
  rw [take_recordBytes (n := updateSize) rfl rfl]
  have hend : (recordBytes (endHdr (s.nextSeq + UInt32.ofNat s.core.index.length)) []).length =
      updateSize := length_recordBytes rfl
  have cd := cp.copied_end hfit
  have hsrc4 : AgreeOn (view cfg (m3.program (cfg.regionOffset (1 - s.activeRegion) +
      (dataStart + liveBytes s.core.index))
      (recordBytes (endHdr (s.nextSeq + UInt32.ofNat s.core.index.length)) [])) s.activeRegion)
      (view cfg m s.activeRegion) 0 cfg.regionSize := by
    intro i hlo hhi
    rw [view_program_other hne (by rw [hend]; exact hfit) hhi]
    exact cp.source i hlo hhi
  refine wp_partitionWriteVerify_erased R cp.erased (by rw [hend]; exact hfit) ?_ ?_ ?_
  · intro vs4
    refine wp_commitTarget (Q := Q) b hQ hQ' hsrc4 cd ?_ herr hcut
    intro vs5 m5 cd5 herased5
    simp only [wp_modify]
    have hindex : c3.index = placed dataStart s.index := congrArg Core.index hcore3
    have hclaim : c3.claimScratch = s.claimScratch := congrArg Core.claimScratch hcore3
    generalize hc5 : FlashqCtx.mk (1 - s.activeRegion) _ _ _ _ _ _ _ _ _ _ = c5
    have hcore5 : c5.core = s.core.compacted := by
      simp only [← hc5, FlashqCtx.core, Core.compacted, hindex, hclaim]
    refine hok c5 m5 hcore5 ?_ ?_
    · rw [hcore5]
      exact cd5.base hroom hfitD herased5
    · rw [← hc5, hindex]
      exact cd5.copied
  · exact fun hmay => herr hmay _ _ _ (cp.image_of_write b hQ (Nat.le_add_right _ _)
      (by rw [hend]; exact hfit))
  · intro n
    refine hcut _ (cp.image_of_write b hQ (Nat.le_add_right _ _) ?_)
    have hfit' : dataStart + liveBytes s.core.index + updateSize ≤ cfg.regionSize := hfit
    rw [List.length_take, hend]
    omega

end EdgeSync
