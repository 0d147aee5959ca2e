/-
  Flashq/Append.lean --- `append_locked`, `ensure_space_locked` and
  `append_state_update_locked` under a regime.

  An append that worked adds one record to the log (`Written`); one that was
  interrupted leaves the log as it was, or adds the record (`AppendLeft`); one
  whose read-back failed on bytes that were there before leaves the log as it
  was (`Spoilt`).  `ensure_space_locked` leaves everything in place or compacts
  (`Moved`).
-/
import EdgeSync.Flashq.Compaction

set_option autoImplicit false

namespace EdgeSync

open Foundation

variable {cfg : FlashqConfig} {R : Regime cfg}

/-! ## Appending a record -/

section Outcomes

variable (R) (m : Memory) (r : Fin 2) (e : Nat) (h : RecordHdr) (data : Bytes) (m' : Memory)

/-- The record was written behind the log. -/
structure Written : Prop where
  before : AgreeOn (view cfg m' r) (view cfg m r) 0 e
  other : AgreeOn (view cfg m' (1 - r)) (view cfg m (1 - r)) 0 cfg.regionSize
  accepted : acceptAt cfg (view cfg m' r) e = some h
  body : (view cfg m' r).bytesAt (e + hdrSize) h.bodyBytes = data
  tail : R.Tail (view cfg m' r) (e + h.totalSize)

/-- The write left nothing the scan accepts. -/
structure Spoilt : Prop where
  before : AgreeOn (view cfg m' r) (view cfg m r) 0 e
  other : AgreeOn (view cfg m' (1 - r)) (view cfg m (1 - r)) 0 cfg.regionSize
  tail : R.Tail (view cfg m' r) e

/-- What an interrupted append leaves: nothing, or the record with a torn body. -/
structure AppendLeft : Prop where
  before : AgreeOn (view cfg m' r) (view cfg m r) 0 e
  other : AgreeOn (view cfg m' (1 - r)) (view cfg m (1 - r)) 0 cfg.regionSize
  left : R.Tail (view cfg m' r) e ∨
    (acceptAt cfg (view cfg m' r) e = some h ∧
      R.Torn data ((view cfg m' r).bytesAt (e + hdrSize) h.bodyBytes) ∧
      R.Tail (view cfg m' r) (e + h.totalSize))

end Outcomes

section Appending

variable {m m' : Memory} {r : Fin 2} {e : Nat} {h : RecordHdr} {data : Bytes} {c : Core}
  {recs : List (Nat × RecordHdr)}

theorem Written.appendLeft (w : Written R m r e h data m') : AppendLeft R m r e h data m' :=
  ⟨w.before, w.other, .inr ⟨w.accepted, by rw [w.body]; exact R.torn_refl data, w.tail⟩⟩

theorem Spoilt.appendLeft (w : Spoilt R m r e m') : AppendLeft R m r e h data m' :=
  ⟨w.before, w.other, .inl w.tail⟩

variable (m r) in
/-- Nothing but the tail of the region changes. -/
theorem append_frame {bytes : Bytes} (hfit : e + bytes.length ≤ cfg.regionSize) :
    AgreeOn (view cfg (m.program (cfg.regionOffset r + e) bytes) r) (view cfg m r) 0 e ∧
    AgreeOn (view cfg (m.program (cfg.regionOffset r + e) bytes) (1 - r)) (view cfg m (1 - r)) 0
      cfg.regionSize := by
  refine ⟨?_, fun i _ hi => view_program_other (other_ne r) hfit hi⟩
  rw [view_program_self]
  exact agreeOn_program (.inl (Nat.le_refl _))

/-- The header and the spare region are untouched by an append. -/
theorem Grown.of_frame (g : Grown R c m recs) {c' : Core} {recs' : List (Nat × RecordHdr)}
    (hbefore : AgreeOn (view cfg m' c.region) (view cfg m c.region) 0 c.cursor)
    (hother : AgreeOn (view cfg m' (1 - c.region)) (view cfg m (1 - c.region)) 0 cfg.regionSize)
    (hregion : c'.region = c.region) (hgen : c'.generation = c.generation)
    (hindex : c'.index = c.index) (hcursor : c.cursor ≤ c'.cursor)
    (hlog : Log cfg (view cfg m' c.region) dataStart recs' c'.cursor)
    (htail : R.Tail (view cfg m' c.region) c'.cursor) : Grown R c' m' recs' := by
  have hstart := g.start_le
  have hsize := cfg.dataCapacity_eq
  have hhdr := hbefore.mono (Nat.le_refl _) (Nat.le_trans hdr_lt_dataStart hstart)
  have hhdr' : AgreeOn (view cfg m' (1 - c.region)) (view cfg m (1 - c.region)) 0 regionHdrSize :=
    hother.mono (Nat.le_refl _) (by
      have := hdr_lt_dataStart
      omega)
  refine ⟨?_, ?_, ?_, ?_, ?_, ?_, ?_, ?_⟩
  · rw [hregion, isActive_congr hhdr]
    exact g.active
  · rw [hregion, hgen, headerAt_congr hhdr]
    exact g.generation
  · rw [hregion, isActive_congr hhdr']
    exact g.spare
  · rw [hregion, blank_congr hhdr']
    intro hb i _ hi
    rw [hother i (Nat.zero_le _) hi]
    exact g.spare_blank hb i (Nat.zero_le _) hi
  · rw [hregion]
    exact hlog
  · rw [hregion]
    exact htail
  · rw [hregion, hindex]
    exact fun x hx => ((g.located x hx).congr (hbefore.mono (Nat.zero_le _) (Nat.le_refl _))).mono
      hcursor
  · rw [hindex]
    exact g.fit

/-- One more record. -/
theorem Grown.append (g : Grown R c m recs) (w : Written R m c.region c.cursor h data m')
    (seq : UInt32) :
    Grown R { c with cursor := c.cursor + h.totalSize, nextSeq := seq } m'
      (recs ++ [(c.cursor, h)]) :=
  g.of_frame w.before w.other rfl rfl rfl (Nat.le_add_right _ _)
    ((g.log.congr (w.before.mono (Nat.zero_le _) (Nat.le_refl _))).snoc w.accepted) w.tail

theorem Grown.spoilt (g : Grown R c m recs) (w : Spoilt R m c.region c.cursor m') :
    Grown R c m' recs :=
  g.of_frame w.before w.other rfl rfl rfl (Nat.le_refl _)
    (g.log.congr (w.before.mono (Nat.zero_le _) (Nat.le_refl _))) w.tail

theorem Base.spoilt (b : Base R c m recs) (w : Spoilt R m c.region c.cursor m') :
    Base R c m' recs := ⟨b.toGrown.spoilt w, b.same⟩

/-- An interrupted append leaves an image: of the queue before, or of the queue
with the record. -/
theorem Base.image_of_append {Q : List StoredMessage → Prop} (b : Base R c m recs)
    (hQ : Q (contents (view cfg m c.region) (replay cfg recs).index))
    (al : AppendLeft R m c.region c.cursor h data m')
    (hnew : acceptAt cfg (view cfg m' c.region) c.cursor = some h →
      R.Torn data ((view cfg m' c.region).bytesAt (c.cursor + hdrSize) h.bodyBytes) →
      (∀ x ∈ ((replay cfg recs).apply cfg c.cursor h).index,
        Located cfg (view cfg m' c.region) (c.cursor + h.totalSize) x) ∧
      liveBytes ((replay cfg recs).apply cfg c.cursor h).index + updateSize ≤ cfg.dataCapacity ∧
      Q (contents (view cfg m' c.region) ((replay cfg recs).apply cfg c.cursor h).index)) :
    Image R m' Q := by
  have hlow := al.before.mono (Nat.zero_le dataStart) (Nat.le_refl _)
  have hlog := b.log.congr hlow
  have hstored := located_of_keys b.same b.located
  rcases al.left with htail | ⟨hacc, htorn, htail⟩
  · have hb : Base R c m' recs := b.spoilt ⟨al.before, al.other, htail⟩
    refine hb.image ?_
    rw [contents_congr hlow hstored]
    exact hQ
  · obtain ⟨hloc, hfit, hq⟩ := hnew hacc htorn
    have g : Grown R { c with cursor := c.cursor + h.totalSize } m' (recs ++ [(c.cursor, h)]) :=
      b.toGrown.of_frame al.before al.other rfl rfl rfl (Nat.le_add_right _ _) (hlog.snoc hacc) htail
    refine Image.of_one g.active hq ⟨recs ++ [(c.cursor, h)], _, g.log, g.tail, ?_, ?_, ?_⟩ g.spare
      g.spare_blank
    · rw [replay_snoc]
      exact hloc
    · rw [replay_snoc]
      exact hfit
    · rw [replay_snoc]

end Appending

/-- `append_locked` with a complete record in the buffer. -/
theorem wp_appendLocked {P : Post FlashqCtx Memory EspErr Unit} {ctx : FlashqCtx} {m : Memory}
    {recs : List (Nat × RecordHdr)} {h : RecordHdr} {data buf : Bytes}
    (g : Grown R ctx.core m recs) (hs : h.Sealed) (hd : data.length = h.bodyBytes)
    (hfit : ctx.cursor + h.totalSize ≤ cfg.regionSize)
    (hbuf : buf.take h.totalSize = recordBytes h data)
    (hok : ∀ vs m', Written R m ctx.activeRegion ctx.cursor h data m' →
      P.ok () { ctx with verifyScratch := vs, cursor := ctx.cursor + h.totalSize,
                         nextSeq := ctx.nextSeq + 1 } m')
    (hbad : R.lossy → ∀ vs m', Spoilt R m ctx.activeRegion ctx.cursor m' →
      P.error .storage { ctx with verifyScratch := vs } m')
    (hfail : R.mayFail → ∀ m', AppendLeft R m ctx.activeRegion ctx.cursor h data m' →
      P.error .storage ctx m')
    (hcut : ∀ m', AppendLeft R m ctx.activeRegion ctx.cursor h data m' → P.cut m') :
    wp cfg.device R.env (appendLocked cfg buf h.totalSize) P ctx m := by
  have hlen := length_recordBytes hd
  have hin : cfg.regionOffset ctx.activeRegion + ctx.cursor + (recordBytes h data).length ≤
      cfg.partitionSize.toNat := by
    rw [hlen, Nat.add_assoc]
    exact cfg.regionOffset_add_le hfit
  have hfit' : ctx.cursor + (recordBytes h data).length ≤ cfg.regionSize := by
    rw [hlen]
    exact hfit
  have hframe := append_frame m ctx.activeRegion hfit'
  have hview := @view_program_self cfg m ctx.activeRegion ctx.cursor (recordBytes h data)
  have hcomp : (m.program (cfg.regionOffset ctx.activeRegion + ctx.cursor) (recordBytes h data)).bytesAt
      (cfg.regionOffset ctx.activeRegion + ctx.cursor) (recordBytes h data).length =
      ((view cfg m ctx.activeRegion).program ctx.cursor (recordBytes h data)).bytesAt ctx.cursor
        h.totalSize := by
    rw [bytesAt_region, hview, hlen]
  have hrun := fun hev => R.append_run g.active g.log g.tail hs hd hfit hev
  -- a record that reads back is accepted, so the log does not stop before it
  have hwritten : ∀ hev : R.env m (.write (cfg.regionOffset ctx.activeRegion + ctx.cursor)
      (recordBytes h data)) .run,
      ((view cfg m ctx.activeRegion).program ctx.cursor (recordBytes h data)).bytesAt ctx.cursor
        h.totalSize = recordBytes h data →
      Written R m ctx.activeRegion ctx.cursor h data
        (m.program (cfg.regionOffset ctx.activeRegion + ctx.cursor) (recordBytes h data)) := by
    intro hev hb
    have hacc := acceptAt_of_record hs hd hb hfit
    refine ⟨hframe.1, hframe.2, by rw [hview]; exact hacc, by rw [hview]; exact body_of_record hd hb,
      ?_⟩
    rcases hrun hev with ⟨_, htail⟩ | ⟨_, htail⟩
    · exact absurd ((R.tail_stop htail).symm.trans hacc) (by simp)
    · rw [hview]
      exact htail
  have hleft : R.env m (.write (cfg.regionOffset ctx.activeRegion + ctx.cursor)
      (recordBytes h data)) .run → AppendLeft R m ctx.activeRegion ctx.cursor h data
        (m.program (cfg.regionOffset ctx.activeRegion + ctx.cursor) (recordBytes h data)) := by
    intro hev
    rcases hrun hev with ⟨_, htail⟩ | ⟨hb, _⟩
    · exact ⟨hframe.1, hframe.2, .inl (by rw [hview]; exact htail)⟩
    · exact (hwritten hev hb).appendLeft
  unfold appendLocked
  simp only [Prog.bind_eq, wp_bind, wp_read]
  rw [hbuf]
  refine wp_partitionWriteVerify R hin ?_ ?_ (fun hmay hev => hfail hmay _ (hleft hev))
    (fun hev => hcut _ (hleft hev)) ?_
  · intro hev hb vs
    rw [hlen] at hcomp
    rw [hlen, hcomp] at hb
    simp only [wp_modify]
    exact hok vs _ (hwritten hev hb)
  · intro hev hb vs
    rw [hcomp] at hb
    rcases hrun hev with ⟨hlossy, htail⟩ | ⟨hgood, _⟩
    · exact hbad hlossy vs _ ⟨hframe.1, hframe.2, by rw [hview]; exact htail⟩
    · exact absurd hgood hb
  · intro n hev
    have hn : ((recordBytes h data).take n).length ≤ h.totalSize := by
      rw [List.length_take, hlen]
      omega
    have hframe' := append_frame m ctx.activeRegion
      (Nat.le_trans (Nat.add_le_add_left hn ctx.cursor) hfit)
    have hview' := @view_program_self cfg m ctx.activeRegion ctx.cursor
      ((recordBytes h data).take n)
    refine hcut _ ⟨hframe'.1, hframe'.2, ?_⟩
    rw [hview']
    exact R.append_cut g.active g.log g.tail hs hd hfit hev

/-! ## Making space -/

variable (R) in
/-- What `ensure_space_locked` leaves: everything in place, or a compacted
region.  The messages of the index are the same. -/
structure Moved (c : Core) (m : Memory) (recs : List (Nat × RecordHdr)) (c' : Core)
    (m' : Memory) (recs' : List (Nat × RecordHdr)) : Prop where
  base : Base R c' m' recs'
  contents_eq : contents (view cfg m' c'.region) c'.index = contents (view cfg m c.region) c.index
  how : (c' = c ∧ m' = m ∧ recs' = recs) ∨
    (c' = c.compacted ∧ recs' = compactedRecs c.nextSeq c.index)

section Space

variable {P : Post FlashqCtx Memory EspErr Unit} {ctx ctx' : FlashqCtx} {c c' : Core}
  {m m' : Memory} {recs recs' : List (Nat × RecordHdr)} {Q : List StoredMessage → Prop}
  {neededLen : Nat}

theorem Moved.metas (mv : Moved R c m recs c' m' recs') :
    c'.index.map (·.toEntryMeta) = c.index.map (·.toEntryMeta) := by
  rcases mv.how with ⟨rfl, _, _⟩ | ⟨rfl, _⟩
  · rfl
  · exact placed_map_meta _ _

/-- Equal entries have equal ids. -/
theorem ids_of_metas {es fs : List FlashqIndexEntry}
    (h : es.map (·.toEntryMeta) = fs.map (·.toEntryMeta)) : es.map (·.id) = fs.map (·.id) := by
  simpa [List.map_map, Function.comp_def] using congrArg (List.map (·.id)) h

theorem Moved.length_eq (mv : Moved R c m recs c' m' recs') :
    c'.index.length = c.index.length := by
  simpa using congrArg List.length mv.metas

theorem Moved.liveBytes_eq (mv : Moved R c m recs c' m' recs') :
    liveBytes c'.index = liveBytes c.index := by
  rcases mv.how with ⟨rfl, _, _⟩ | ⟨rfl, _⟩
  · rfl
  · exact liveBytes_placed _ _

theorem Moved.claimScratch (mv : Moved R c m recs c' m' recs') :
    c'.claimScratch = c.claimScratch := by
  rcases mv.how with ⟨rfl, _, _⟩ | ⟨rfl, _⟩
  · rfl
  · rfl

/-- After a compaction the index is the replay of the log. -/
theorem replay_of_compacted {c : Core} (hroom : c.index.length ≤ cfg.indexCapacity) :
    replay cfg (compactedRecs c.nextSeq c.index) = ⟨c.compacted.index, c.compacted.awaitingGcCount⟩ :=
  replay_compactedRecs _ hroom

/-- The bytes left behind the cursor. -/
theorem Base.freeBytes_eq (b : Base R ctx.core m recs) :
    ctx.cursor + ctx.freeBytes cfg = cfg.regionSize := by
  have h1 : ctx.cursor ≤ cfg.regionSize := b.cursor_le
  have h2 : dataStart ≤ ctx.cursor := b.toGrown.start_le
  have h3 := cfg.dataCapacity_eq
  simp only [FlashqCtx.freeBytes]
  omega

/-- Where no compaction is wanted, the reserve is free. -/
theorem FlashqCtx.free_of_not_wants (h : ¬ ctx.WantsCompaction cfg neededLen) :
    neededLen + reserveBytes ≤ ctx.freeBytes cfg :=
  Nat.le_of_not_lt fun hlt => h (.inl hlt)

/-- `ensure_space_locked`. -/
theorem wp_ensureSpaceLocked (b : Base R ctx.core m recs)
    (hQ : Q (contents (view cfg m ctx.activeRegion) (replay cfg recs).index))
    (hQ' : Q (contents (view cfg m ctx.activeRegion) ctx.index))
    (hok : ∀ ctx' m' recs', Moved R ctx.core m recs ctx'.core m' recs' →
      ctx'.cursor + neededLen ≤ cfg.regionSize →
      liveBytes ctx.index + neededLen + updateSize ≤ cfg.dataCapacity → P.ok () ctx' m')
    (hfull : ∀ ctx' m' recs', Moved R ctx.core m recs ctx'.core m' recs' →
      ctx'.core = ctx.core.compacted → recs' = compactedRecs ctx.nextSeq ctx.index →
      cfg.dataCapacity < liveBytes ctx.index + updateSize + neededLen → P.error .storage ctx' m')
    (herr : R.mayFail → ∀ err ctx' m', Image R m' Q → P.error err ctx' m')
    (hcut : ∀ m', Image R m' Q → P.cut m') :
    wp cfg.device R.env (ensureSpaceLocked cfg neededLen) P ctx m := by
  have hfree := b.freeBytes_eq
  unfold ensureSpaceLocked
  simp only [Prog.bind_eq, Prog.pure_eq, wp_bind, wp_read, wp_ite, wp_fail, wp_ret]
  refine ⟨fun hwants => ?_, fun hwants => ⟨fun hlow => ?_, fun _ => ?_⟩⟩
  · refine wp_compactLocked b hQ hQ' ?_ herr hcut
    intro ctx' m' hcore hbase hcontents
    have hmoved : Moved R ctx.core m recs ctx'.core m' (compactedRecs ctx.nextSeq ctx.index) :=
      ⟨hbase, hcontents, .inr ⟨hcore, rfl⟩⟩
    have hcur : ctx'.cursor = dataStart + liveBytes ctx.index + updateSize :=
      congrArg Core.cursor hcore
    have hfree' := hbase.freeBytes_eq
    have hcap := cfg.dataCapacity_eq
    exact ⟨fun hlow => hfull _ _ _ hmoved hcore rfl (by omega),
      fun hlow => hok _ _ _ hmoved (by omega) (by omega)⟩
  · have h := FlashqCtx.free_of_not_wants hwants
    omega
  · have hres := FlashqCtx.free_of_not_wants hwants
    have hused : dataStart + liveBytes ctx.index ≤ ctx.cursor := b.used
    have hcap := cfg.dataCapacity_eq
    have hreserve : updateSize ≤ reserveBytes := by decide
    exact hok _ _ _ ⟨b, rfl, .inl ⟨rfl, rfl, rfl⟩⟩ (by omega) (by omega)

end Space

end EdgeSync
