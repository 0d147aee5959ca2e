/-
  Flashq/Claim.lean --- `op_claim_next` under a regime.

  The record of an indexed message is intact, so a claim hands out the message
  the entry stands for; its payload stays in the claim buffer, which the
  compaction inside the claim does not touch.
-/
import EdgeSync.Flashq.Update

set_option autoImplicit false

namespace EdgeSync

open Foundation

variable {cfg : FlashqConfig} {R : Regime cfg}

/-! ## The record in the claim buffer -/

section Buffer

variable {v : Memory} {limit : Nat} {e : FlashqIndexEntry}

/-- The bytes `op_claim_next` reads for an entry. -/
def claimLen (e : EntryMeta) : Nat := hdrSize + (e.destinationLen.toNat + e.payloadLen.toNat) + 4

theorem slice_claimed {buf : Bytes} {off n : Nat} (h : off + n ≤ claimLen e.toEntryMeta) :
    slice (overlay buf 0 (v.bytesAt e.messageOffset.toNat (claimLen e.toEntryMeta))) off n =
      v.bytesAt (e.messageOffset.toNat + off) n := by
  rw [slice_overlay_zero (by rw [Memory.length_bytesAt]; exact h), Memory.slice_bytesAt h]

/-- The record of a located entry passes the checks. -/
theorem Located.recordIntact (he : Located cfg v limit e) (buf : Bytes) :
    recordIntact (overlay buf 0 (v.bytesAt e.messageOffset.toNat (claimLen e.toEntryMeta)))
      (claimLen e.toEntryMeta) = true := by
  obtain ⟨h, hacc, _, _, hid⟩ := he.record
  obtain ⟨hdec, _, hver⟩ := acceptAt_eq_some.mp hacc
  simp only [EntryMeta.identity, Prod.mk.injEq] at hid
  obtain ⟨_, _, hdl, hpl, _⟩ := hid
  have hbody : h.bodyBytes = e.destinationLen.toNat + e.payloadLen.toNat := by
    rw [RecordHdr.bodyBytes, hdl, hpl]
  have hlen : claimLen e.toEntryMeta = hdrSize + (h.bodyBytes + 4) := by
    rw [claimLen, hbody, Nat.add_assoc]
  have hsplit : overlay buf 0 (v.bytesAt e.messageOffset.toNat (claimLen e.toEntryMeta)) =
      v.bytesAt e.messageOffset.toNat hdrSize ++
        (v.bytesAt (e.messageOffset.toNat + hdrSize) (h.bodyBytes + 4) ++
          buf.drop (claimLen e.toEntryMeta)) := by
    rw [overlay, List.take_zero, List.nil_append, Nat.zero_add, Memory.length_bytesAt,
      ← List.append_assoc, ← Memory.bytesAt_add, ← hlen]
  have hdecode : decodeHeader (v.bytesAt e.messageOffset.toNat hdrSize ++
      (v.bytesAt (e.messageOffset.toNat + hdrSize) (h.bodyBytes + 4) ++
        buf.drop (claimLen e.toEntryMeta))) (claimLen e.toEntryMeta) = some h := by
    obtain ⟨_, hof, hsealed⟩ := decodeHeader_eq_some.mp hdec
    refine decodeHeader_eq_some.mpr ⟨by omega, ?_, hsealed⟩
    rw [List.take_left' (Memory.length_bytesAt _ _ _)]
    rwa [List.take_of_length_le (by simp)] at hof
  have hsub : claimLen e.toEntryMeta - hdrSize = h.bodyBytes + 4 := by omega
  unfold EdgeSync.recordIntact
  rw [hsplit, hdecode]
  simp only
  rw [List.drop_left' (Memory.length_bytesAt _ _ _), hsub, verifyBody_append (by simp)]
  exact hver

end Buffer

/-! ## The program -/

section Program

variable {ctx : FlashqCtx} {m : Memory} {recs : List (Nat × RecordHdr)}
  {Q : List StoredMessage → Prop} {nowUs : Int64}

/-- The selected entry is eligible. -/
theorem selectClaim_some {index : List FlashqIndexEntry} {pos : Nat}
    (h : selectClaim nowUs (index.map (·.toEntryMeta)) = some pos) :
    ∃ e, index[pos]? = some e ∧ e.toEntryMeta.eligible nowUs = true := by
  obtain ⟨a, ha, hel⟩ := pick_some h
  rw [List.getElem?_map] at ha
  obtain ⟨e, he, rfl⟩ := Option.map_eq_some_iff.mp ha
  exact ⟨e, he, hel⟩

theorem Base.withClaimScratch {c : Core} (b : Base R c m recs) (claimScratch : Bytes) :
    Base R { c with claimScratch := claimScratch } m recs :=
  ⟨⟨b.active, b.generation, b.spare, b.spare_blank, b.log, b.tail, b.located, b.fit⟩, b.same⟩

/-- `op_claim_next` from the intact record on. -/
theorem wp_claimIntact {P : Post FlashqCtx Memory EspErr ClaimReply} (hquiet : ¬ R.mayFail)
    {pos : Nat} {e : FlashqIndexEntry} (b : Base R ctx.core m recs)
    (he : ctx.index[pos]? = some e)
    (hslice : ∀ off n, off + n ≤ claimLen e.toEntryMeta → slice ctx.claimScratch off n =
      (view cfg m ctx.activeRegion).bytesAt (e.messageOffset.toNat + off) n)
    (hQ : UpdateQueues cfg Q (view cfg m ctx.activeRegion) recs ctx.index e.id
      (e.progress.claimed nowUs))
    (hok : ∀ (ctx1 : FlashqCtx) m1 recs1 (ctx2 : FlashqCtx) m2,
      Moved R ctx.core m recs ctx1.core m1 recs1 →
      Updated R ctx1.core m1 pos e.id (e.progress.claimed nowUs) ctx2.core m2 →
      P.ok (.claimed ((contentOf (view cfg m ctx.activeRegion) e).claimedMessage nowUs)) ctx2 m2)
    (hfull : ∀ (ctx1 : FlashqCtx) m1 recs1, Moved R ctx.core m recs ctx1.core m1 recs1 →
      ctx1.core = ctx.core.compacted → recs1 = compactedRecs ctx.nextSeq ctx.index →
      cfg.dataCapacity < liveBytes ctx.index + updateSize + updateSize → P.error .storage ctx1 m1)
    (hbad : R.lossy → ∀ (ctx1 : FlashqCtx) m1 recs1 (ctx2 : FlashqCtx) m2,
      Moved R ctx.core m recs ctx1.core m1 recs1 →
      Spoilt R m1 ctx1.activeRegion ctx1.cursor m2 → ctx2.core = ctx1.core →
      P.error .storage ctx2 m2)
    (hcut : ∀ m', Image R m' Q → P.cut m') :
    wp cfg.device R.env (claimIntact cfg nowUs pos) P ctx m := by
  unfold claimIntact
  simp only [Prog.bind_eq, Prog.pure_eq, wp_bind]
  refine wp_entryAt he ?_
  dsimp only
  refine wp_ensureSpaceLocked (Q := Q) b hQ.log hQ.ram ?_ hfull (fun hmay => absurd hmay hquiet)
    hcut
  intro ctx1 m1 recs1 mv hroom hlive
  obtain ⟨e1, he1, hmeta⟩ := mv.getElem? (c := ctx.core) he
  have hQ1 := mv.queues b.room hQ
  refine wp_entryAt he1 ?_
  simp only [wp_read]
  rw [hmeta]
  refine wp_writeUpdate (Q := Q) (p := e.progress.claimed nowUs) mv.base hroom hQ1.log
    hQ1.log_progress ?_ (fun hl ctx2 m2 sp hc => hbad hl _ _ _ _ _ mv sp hc)
    (fun hmay => absurd hmay hquiet) hcut
  intro ctx2 m2 w hcore
  unfold assignEntry
  simp only [wp_modify, wp_ret]
  have hidx : ctx2.index = ctx1.index := congrArg Core.index hcore
  have hclaim1 : ctx1.claimScratch = ctx.claimScratch := mv.claimScratch
  have hclaim : ctx2.claimScratch = ctx1.claimScratch := congrArg Core.claimScratch hcore
  have hdest : slice ctx2.claimScratch hdrSize e.destinationLen.toNat =
      (contentOf (view cfg m ctx.activeRegion) e).destination := by
    rw [hclaim, hclaim1, hslice _ _ (by rw [claimLen]; omega)]
    rfl
  rw [hdest]
  have hsame : liveBytes ctx1.core.index = liveBytes ctx.core.index := mv.liveBytes_eq
  refine hok _ _ _ _ _ mv ⟨w, ?_, by rw [hsame]; exact hlive⟩
  have hf : { e1 with
      state := FlashqState.inFlight.code
      attemptCount := e.attemptCount + 1
      lastAttemptAtUs := nowUs } = e1.withProgress (e.progress.claimed nowUs) := by
    have hn : e1.nextRetryAtUs = e.nextRetryAtUs := by rw [hmeta]
    have hl : e1.lastError = e.lastError := by rw [hmeta]
    simp only [FlashqIndexEntry.withProgress, EntryMeta.withProgress, Progress.claimed,
      EntryMeta.progress, hn, hl]
  have hmod := core_assign_eq (fun x =>
    { x with
      state := FlashqState.inFlight.code
      attemptCount := e.attemptCount + 1
      lastAttemptAtUs := nowUs }) he1 hf
  have hcur : ctx2.cursor = ctx1.cursor + updateSize := congrArg Core.cursor hcore
  have hseq : ctx2.nextSeq = ctx1.nextSeq + 1 := congrArg Core.nextSeq hcore
  have hreg : ctx2.activeRegion = ctx1.activeRegion := congrArg Core.region hcore
  have hgen : ctx2.activeGeneration = ctx1.activeGeneration := congrArg Core.generation hcore
  have hgc : ctx2.awaitingGcCount = ctx1.awaitingGcCount := congrArg Core.awaitingGcCount hcore
  simp only [FlashqCtx.core] at hmod ⊢
  rw [hidx, hmod, hcur, hseq, hreg, hgen, hgc, hclaim]

/-- `op_claim_next`. -/
theorem wp_opClaimNext {P : Post FlashqCtx Memory EspErr ClaimReply} (hquiet : ¬ R.mayFail)
    (b : Base R ctx.core m recs)
    (hQ : ∀ (pos : Nat) e, selectClaim nowUs (ctx.index.map (·.toEntryMeta)) = some pos →
      ctx.index[pos]? = some e → UpdateQueues cfg Q (view cfg m ctx.activeRegion) recs
        ctx.index e.id (e.progress.claimed nowUs))
    (hnone : selectClaim nowUs (ctx.index.map (·.toEntryMeta)) = none → P.error .notFound ctx m)
    (hok : ∀ (pos : Nat) e claimScratch (ctx1 : FlashqCtx) m1 recs1 (ctx2 : FlashqCtx) m2,
      selectClaim nowUs (ctx.index.map (·.toEntryMeta)) = some pos → ctx.index[pos]? = some e →
      slice claimScratch (hdrSize + e.destinationLen.toNat) e.payloadLen.toNat =
        (contentOf (view cfg m ctx.activeRegion) e).payload →
      Moved R { ctx.core with claimScratch := claimScratch } m recs ctx1.core m1 recs1 →
      Updated R ctx1.core m1 pos e.id (e.progress.claimed nowUs) ctx2.core m2 →
      P.ok (.claimed ((contentOf (view cfg m ctx.activeRegion) e).claimedMessage nowUs)) ctx2 m2)
    (hfull : ∀ claimScratch (ctx1 : FlashqCtx) m1 recs1,
      Moved R { ctx.core with claimScratch := claimScratch } m recs ctx1.core m1 recs1 →
      ctx1.core = Core.compacted { ctx.core with claimScratch := claimScratch } →
      recs1 = compactedRecs ctx.nextSeq ctx.index →
      cfg.dataCapacity < liveBytes ctx.index + updateSize + updateSize → P.error .storage ctx1 m1)
    (hbad : R.lossy → ∀ claimScratch (ctx1 : FlashqCtx) m1 recs1 (ctx2 : FlashqCtx) m2,
      Moved R { ctx.core with claimScratch := claimScratch } m recs ctx1.core m1 recs1 →
      Spoilt R m1 ctx1.activeRegion ctx1.cursor m2 → ctx2.core = ctx1.core →
      P.error .storage ctx2 m2)
    (hcut : ∀ m', Image R m' Q → P.cut m') :
    wp cfg.device R.env (opClaimNext cfg nowUs) P ctx m := by
  unfold opClaimNext
  simp only [Prog.bind_eq, Prog.pure_eq, wp_bind, wp_read]
  cases hsel : selectClaim nowUs (ctx.index.map (·.toEntryMeta)) with
  | none => exact wp_fail.mpr (hnone hsel)
  | some pos =>
    obtain ⟨e, he, _⟩ := selectClaim_some hsel
    simp only [wp_bind]
    refine wp_entryAt he ?_
    have hloc : Located cfg (view cfg m ctx.activeRegion) ctx.cursor e :=
      b.located e (List.mem_of_getElem? he)
    have hcursor : ctx.cursor ≤ cfg.regionSize := b.cursor_le
    have hfit : e.messageOffset.toNat + claimLen e.toEntryMeta ≤ cfg.regionSize := by
      have h1 := hloc.upper
      have h2 := e.toEntryMeta.le_recordSize
      simp only [claimLen]
      omega
    refine wp_espPartitionRead R ?_ ?_ (hcut m (b.image (hQ pos e hsel he).log)) ?_
    · rw [Nat.add_assoc]
      exact cfg.regionOffset_add_le hfit
    · have hraw := @bytesAt_region cfg m ctx.activeRegion e.messageOffset.toNat
        (claimLen e.toEntryMeta)
      have hintact := hloc.recordIntact ctx.claimScratch
      simp only [claimLen] at hraw hintact
      simp only [wp_modify, wp_read, Option.getD_some, Option.isNone_some, Bool.false_or]
      rw [hraw, hintact]
      simp only [Bool.not_true, Bool.false_eq_true, if_false]
      refine wp_claimIntact hquiet (b.withClaimScratch _) he ?_
        (hQ pos e hsel he) ?_ ?_ ?_ hcut
      · intro off n hle
        exact slice_claimed hle
      · intro ctx1 m1 recs1 ctx2 m2 mv up
        refine hok pos e _ ctx1 m1 recs1 ctx2 m2 hsel he ?_ mv up
        rw [slice_overlay_zero (by rw [Memory.length_bytesAt]; omega),
          Memory.slice_bytesAt (by omega), ← Nat.add_assoc]
        rfl
      · intro ctx1 m1 recs1 mv hc hr hlow
        exact hfull _ ctx1 m1 recs1 mv hc hr hlow
      · intro hl ctx1 m1 recs1 ctx2 m2 mv sp hc
        exact hbad hl _ ctx1 m1 recs1 ctx2 m2 mv sp hc
    · rintro ⟨k, hk⟩
      rcases R.read_events hk with h | ⟨_, h⟩ | ⟨hmay, _⟩
      · exact absurd h (by simp)
      · exact absurd h (by simp)
      · exact absurd hmay hquiet

end Program

end EdgeSync
