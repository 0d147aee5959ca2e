/-
  Flashq/Reopen.lean --- the index in RAM is the replay of the log.

  After any calls on flash without faults, opening the partition again and
  running the scan loop yields the context the backend has.  The invariant is
  `Live`: the log replays to the index and to the count of retired messages, and
  `next_seq` is one more than the largest sequence number, as long as the
  sequence numbers have not wrapped.
-/
import EdgeSync.Flashq.Quiet

set_option autoImplicit false

namespace EdgeSync

open Foundation

variable {cfg : FlashqConfig}

/-! ## Sequence numbers -/

/-- `next_seq` continues the log, and is at most `bound`. -/
def Numbered (c : Core) (recs : List (Nat × RecordHdr)) (bound : Nat) : Prop :=
  bound < 2 ^ 32 → c.nextSeq = maxSeq recs + 1 ∧ 0 < c.nextSeq.toNat ∧ c.nextSeq.toNat ≤ bound

theorem toNat_succ {a : UInt32} (h : a.toNat + 1 < 2 ^ 32) : (a + 1).toNat = a.toNat + 1 := by
  rw [UInt32.toNat_add]
  exact Nat.mod_eq_of_lt h

/-- A record with the next number is the largest. -/
theorem maxSeq_next {recs : List (Nat × RecordHdr)} {seq : UInt32} (hseq : seq = maxSeq recs + 1)
    (hpos : 0 < seq.toNat) (off : Nat) {h : RecordHdr} (hh : h.seq = seq) :
    maxSeq (recs ++ [(off, h)]) = seq := by
  have hlt : maxSeq recs < seq := by
    rw [UInt32.lt_iff_toNat_lt]
    have hm := (maxSeq recs).toNat_lt
    have hadd : seq.toNat = ((maxSeq recs).toNat + 1) % 2 ^ 32 := by
      rw [hseq, UInt32.toNat_add]
      rfl
    by_cases hw : (maxSeq recs).toNat + 1 < 2 ^ 32
    · rw [Nat.mod_eq_of_lt hw] at hadd
      omega
    · have : (maxSeq recs).toNat + 1 = 2 ^ 32 := by omega
      rw [this, Nat.mod_self] at hadd
      omega
  rw [maxSeq_snoc, hh, if_pos hlt]

/-- Copied records have ascending numbers. -/
theorem foldl_copiedRecs_seq (es : List FlashqIndexEntry) (off : Nat) {seq s : UInt32}
    (hs : s.toNat + 1 = seq.toNat) (hfit : seq.toNat + es.length < 2 ^ 32) :
    ((copiedRecs off seq es).foldl (fun s x => if s < x.2.seq then x.2.seq else s) s).toNat + 1 =
      seq.toNat + es.length := by
  induction es generalizing off seq s with
  | nil => exact hs
  | cons e es ih =>
    rw [List.length_cons] at hfit ⊢
    have hlt : s < (e.copyHdr seq).seq := by
      rw [UInt32.lt_iff_toNat_lt]
      show s.toNat < seq.toNat
      omega
    have hsucc : (seq + 1).toNat = seq.toNat + 1 := toNat_succ (by omega)
    rw [copiedRecs, List.foldl_cons]
    simp only
    rw [if_pos hlt]
    have h := ih (off + e.recordSize) hsucc.symm (by omega)
    rw [hsucc] at h
    have hseq : (e.copyHdr seq).seq = seq := rfl
    rw [hseq]
    omega

/-- Compaction keeps the numbering. -/
theorem Numbered.compacted {c : Core} {recs : List (Nat × RecordHdr)} {bound : Nat}
    (h : Numbered c recs bound) :
    Numbered c.compacted (compactedRecs c.nextSeq c.index) (bound + c.index.length + 1) := by
  intro hb
  obtain ⟨_, hpos, hle⟩ := h (by omega)
  have hlen : (UInt32.ofNat c.index.length).toNat = c.index.length :=
    UInt32.toNat_ofNat_of_lt' (by simp only [UInt32.size]; omega)
  have hend : (c.nextSeq + UInt32.ofNat c.index.length).toNat = c.nextSeq.toNat + c.index.length := by
    rw [UInt32.toNat_add, hlen]
    exact Nat.mod_eq_of_lt (by omega)
  have hnext : (c.nextSeq + UInt32.ofNat c.index.length + 1).toNat =
      c.nextSeq.toNat + c.index.length + 1 := by
    rw [toNat_succ (by omega), hend]
  have hcopied : (maxSeq (copiedRecs dataStart c.nextSeq c.index)).toNat <
      c.nextSeq.toNat + c.index.length := by
    cases hidx : c.index with
    | nil =>
      show (0 : UInt32).toNat < _
      simpa using hpos
    | cons e es =>
      have hlt : (0 : UInt32) < c.nextSeq := by
        rw [UInt32.lt_iff_toNat_lt]
        simpa using hpos
      rw [hidx, List.length_cons] at hend hnext hb
      have hsucc : (c.nextSeq + 1).toNat = c.nextSeq.toNat + 1 := toNat_succ (by omega)
      have hfold := foldl_copiedRecs_seq es (dataStart + e.recordSize) hsucc.symm (by omega)
      have hfirst : (e.copyHdr c.nextSeq).seq = c.nextSeq := rfl
      rw [maxSeq, copiedRecs, List.foldl_cons]
      simp only
      rw [hfirst, if_pos hlt, List.length_cons]
      omega
  refine ⟨?_, ?_, ?_⟩
  · show c.nextSeq + UInt32.ofNat c.index.length + 1 = maxSeq (compactedRecs _ _) + 1
    have hlt : maxSeq (copiedRecs dataStart c.nextSeq c.index) <
        (endHdr (c.nextSeq + UInt32.ofNat c.index.length)).seq := by
      rw [UInt32.lt_iff_toNat_lt]
      show _ < (c.nextSeq + UInt32.ofNat c.index.length).toNat
      omega
    rw [compactedRecs, maxSeq_snoc, if_pos hlt]
    rfl
  · show 0 < (c.nextSeq + UInt32.ofNat c.index.length + 1).toNat
    omega
  · show (c.nextSeq + UInt32.ofNat c.index.length + 1).toNat ≤ _
    omega

theorem Numbered.mono {c : Core} {recs : List (Nat × RecordHdr)} {bound bound' : Nat}
    (h : Numbered c recs bound) (hle : bound ≤ bound') : Numbered c recs bound' := by
  intro hb
  obtain ⟨h1, h2, h3⟩ := h (by omega)
  exact ⟨h1, h2, by omega⟩

/-- One more record. -/
theorem Numbered.append {c c' : Core} {recs : List (Nat × RecordHdr)} {bound : Nat}
    (h : Numbered c recs bound) (hseq : c'.nextSeq = c.nextSeq + 1) (off : Nat) {hdr : RecordHdr}
    (hh : hdr.seq = c.nextSeq) : Numbered c' (recs ++ [(off, hdr)]) (bound + 1) := by
  intro hb
  obtain ⟨h1, h2, h3⟩ := h (by omega)
  have hsucc : (c.nextSeq + 1).toNat = c.nextSeq.toNat + 1 := toNat_succ (by omega)
  rw [maxSeq_next h1 h2 off hh, hseq]
  exact ⟨rfl, by omega, by omega⟩

section Effects

variable {R : Regime cfg} {c cS c' : Core} {m m' : Memory} {recs recs' : List (Nat × RecordHdr)}
  {op : StorageOp} {res : Except EspErr StorageReply} {bound : Nat}

theorem Numbered.moved {c1 : Core} {m1 : Memory} {recs1 : List (Nat × RecordHdr)}
    (h : Numbered c recs bound) (hroom : c.index.length ≤ cfg.indexCapacity)
    (mv : Moved R c m recs c1 m1 recs1) :
    Numbered c1 recs1 (bound + cfg.indexCapacity + 1) := by
  rcases mv.how with ⟨rfl, _, rfl⟩ | ⟨rfl, rfl⟩
  · exact h.mono (by omega)
  · exact h.compacted.mono (by omega)

theorem Updated.nextSeq {c1 c2 : Core} {m1 m2 : Memory} {pos : Nat} {id : UInt64} {p : Progress}
    (up : Updated R c1 m1 pos id p c2 m2) : c2.nextSeq = c1.nextSeq + 1 := by
  rw [up.core_eq]

/-- What a call stages has no number. -/
theorem Prepared.nextSeq (prep : Prepared c cS op) : cS.nextSeq = c.nextSeq := by
  cases op with
  | claimNext nowUs =>
    obtain ⟨claimScratch, rfl⟩ := prep
    rfl
  | scheduleRetry id nextRetryTimeUs deadLetter lastError =>
    obtain ⟨pos, _, rfl⟩ := prep
    rfl
  | findDropCandidate policy => exact prep.elim
  | getStats stats => exact prep.elim
  | _ =>
    cases prep
    rfl

theorem Numbered.congr (h : Numbered c recs bound) (hseq : cS.nextSeq = c.nextSeq) :
    Numbered cS recs bound := by
  rw [Numbered, hseq]
  exact h

/-- A call uses at most one number for each entry and two more. -/
theorem Effect.numbered (ef : Effect R c m recs op res c' m' recs') (b : Base R c m recs)
    (h : Numbered c recs bound) : Numbered c' recs' (bound + (cfg.indexCapacity + 2)) := by
  cases ef with
  | refused why => exact h.mono (by omega)
  | looked seen => exact h.mono (by omega)
  | full prepared moved low =>
    exact ((h.congr prepared.nextSeq).moved (prepared.base b).room moved).mono (by omega)
  | spoilt lossy prepared moved left =>
    exact ((h.congr prepared.nextSeq).moved (prepared.base b).room moved).mono (by omega)
  | enqueued moved enqueued =>
    exact (h.moved b.room moved).append (by rw [enqueued.core_eq]) _ rfl
  | @claimed nowUs pos e claimScratch c1 _ m1 _ recs1 selected entry borrowed moved updated =>
    have hS : Numbered { c with claimScratch := claimScratch } recs bound := h
    exact (hS.moved (b.withClaimScratch claimScratch).room moved).append updated.nextSeq _ rfl
  | @retired _ id newState pos e c1 c2 m1 _ recs1 retires found entry moved updated =>
    have hseq : (c2.retired pos).nextSeq = c1.nextSeq + 1 := updated.nextSeq
    exact (h.moved b.room moved).append hseq _ rfl
  | @retried id nextRetryTimeUs deadLetter lastError pos e c1 _ m1 _ recs1 found entry moved
      updated =>
    have hS : Numbered (c.stagedAt pos nextRetryTimeUs deadLetter lastError) recs bound := h
    exact (hS.moved (b.stagedAt pos nextRetryTimeUs deadLetter lastError).room moved).append
      updated.nextSeq _ rfl

end Effects

/-! ## The live state -/

variable (cfg) in
/-- The context of a backend that has run without faults since the partition was
erased. -/
structure Live cfg (labels : List FlashqStepLabel) (c : Core) (m : Memory)
    (recs : List (Nat × RecordHdr)) : Prop where
  base : Base (quiet cfg) c m recs
  replay_eq : replay cfg recs = ⟨c.index, c.awaitingGcCount⟩
  ids : KnownIds labels (c.queue cfg m)
  numbered : Numbered c recs (1 + labels.length * (cfg.indexCapacity + 2))

theorem Live.initialized {claimScratch : Bytes} {m : Memory}
    (b : Base (quiet cfg) (Core.initialized claimScratch) m []) :
    Live cfg [] (Core.initialized claimScratch) m [] where
  base := b
  replay_eq := rfl
  ids := ⟨List.nodup_nil, fun _ h => absurd h List.not_mem_nil⟩
  numbered := by
    intro _
    exact ⟨rfl, Nat.one_pos, Nat.le_add_right 1 _⟩

/-- Every call keeps the live state. -/
theorem Live.call {labels : List FlashqStepLabel} {c c' : Core} {m m' : Memory}
    {recs recs' : List (Nat × RecordHdr)} {op : StorageOp} {res : Except EspErr StorageReply}
    (live : Live cfg labels c m recs) (hu : (publishedIds (labels ++ [.call op res])).Nodup)
    (ef : Effect (quiet cfg) c m recs op res c' m' recs') :
    Live cfg (labels ++ [.call op res]) c' m' recs' := by
  have hnodup : (c.index.map (·.id)).Nodup := by
    rw [← messageIds_queue]
    exact live.ids.nodup
  have hbase := ef.base live.base
  have hsame : LensEq Lens.all c.index (replay cfg recs).index := by
    rw [live.replay_eq]
    exact LensEq.refl _ _
  have hlens := ef.lensEq live.base hnodup hsame fun h => h.elim
  have hgc := ef.awaitingGcCount live.base hnodup (by rw [live.replay_eq])
  have hindex : (replay cfg recs').index = c'.index := (index_eq_of_lensEq hbase.same hlens).symm
  have hlength : 1 + (labels ++ [FlashqStepLabel.call op res]).length * (cfg.indexCapacity + 2) =
      1 + labels.length * (cfg.indexCapacity + 2) + (cfg.indexCapacity + 2) := by
    rw [List.length_append, List.length_singleton, Nat.add_mul, Nat.one_mul, Nat.add_assoc]
  refine ⟨hbase, ?_, live.ids.call hu ef.queueStep, ?_⟩
  · rw [hgc, ← hindex]
  · rw [hlength]
    exact ef.numbered live.base live.numbered

/-- A run that consists of calls. -/
def OnlyCalls (labels : List FlashqStepLabel) : Prop :=
  ∀ label ∈ labels, ∃ op res, label = .call op res

/-- Every run of calls keeps the live state. -/
theorem Live.run {ctx0 : FlashqCtx} {m0 : Memory} {labels : List FlashqStepLabel}
    {s : FlashqSystem} (live : Live cfg [] ctx0.core m0 [])
    (run : FlashqRun cfg quietWorld (.on ctx0 m0) labels s) (hcalls : OnlyCalls labels)
    (hu : (publishedIds labels).Nodup) (hfit : AllFit cfg labels) :
    ∃ ctx m recs, s = .on ctx m ∧ Live cfg labels ctx.core m recs := by
  induction run with
  | nil => exact ⟨ctx0, m0, [], rfl, live⟩
  | @snoc labels s' s'' label run step ih =>
    obtain ⟨ctx, m, recs, rfl, hlive⟩ := ih
      (fun l hl => hcalls l (List.mem_append_left _ hl)) (unique_init hu) hfit.init
    obtain ⟨op, res, rfl⟩ := hcalls label (List.mem_append_right _ (List.mem_singleton.mpr rfl))
    obtain ⟨ctx', m', recs', rfl, ef⟩ := quiet_effect hlive.base (hfit.last rfl) step
    exact ⟨ctx', m', recs', rfl, hlive.call hu ef⟩

/-- What the scan loop of a fresh backend finds. -/
theorem Live.reopen {labels : List FlashqStepLabel} {ctx : FlashqCtx} {m : Memory}
    {recs : List (Nat × RecordHdr)} (live : Live cfg labels ctx.core m recs) :
    ∃ ctx' m', exec cfg.device (recoverWith cfg (scanLog cfg)) (FlashqCtx.fresh cfg) m [] =
        .ok () ctx' m' ∧
      ctx'.index = ctx.index ∧ ctx'.awaitingGcCount = ctx.awaitingGcCount ∧
      ctx'.cursor = ctx.cursor ∧ ctx'.activeRegion = ctx.activeRegion ∧
      ctx'.activeGeneration = ctx.activeGeneration ∧ ctx'.nextSeq = maxSeq recs + 1 := by
  have b := live.base
  suffices hwp : wp cfg.device calmEnv (recoverWith cfg (scanLog cfg))
      ⟨fun _ (ctx' : FlashqCtx) _ => ctx'.index = ctx.index ∧
        ctx'.awaitingGcCount = ctx.awaitingGcCount ∧ ctx'.cursor = ctx.cursor ∧
        ctx'.activeRegion = ctx.activeRegion ∧ ctx'.activeGeneration = ctx.activeGeneration ∧
        ctx'.nextSeq = maxSeq recs + 1, fun _ _ _ => False, fun _ => True⟩
      (FlashqCtx.fresh cfg) m by
    obtain ⟨_, ctx', m', hexec, hctx⟩ := calm_exec_ok hwp
    exact ⟨ctx', m', hexec, hctx⟩
  refine wp_recoverWith (R := quiet cfg) (Q := fun _ => True) (b.image trivial) ?_ ?_
    (fun h => h.elim) fun _ _ => trivial
  · exact fun hnone => absurd b.active (hnone _)
  · intro r m' chosen
    have hr : r = ctx.activeRegion := by
      rcases eq_or_eq_other r ctx.activeRegion with h | h
      · exact h
      · exact absurd (h ▸ chosen.active) b.spare
    subst hr
    have hlog := b.log.congr (chosen.agree.mono (Nat.zero_le _) b.cursor_le)
    have htail := (quiet cfg).tail_congr
      (chosen.agree.mono (Nat.zero_le ctx.cursor) (Nat.le_refl _)) b.tail
    refine wp_scanLog (R := quiet cfg) chosen.isActive hlog ((quiet cfg).tail_stop htail) ?_ trivial
    intro ctx' hcore
    have hindex : ctx'.index = _ := congrArg Core.index hcore
    have hgc : ctx'.awaitingGcCount = _ := congrArg Core.awaitingGcCount hcore
    refine ⟨?_, ?_, congrArg Core.cursor hcore, congrArg Core.region hcore, ?_,
      congrArg Core.nextSeq hcore⟩
    · rw [hindex, live.replay_eq]
      rfl
    · rw [hgc, live.replay_eq]
      rfl
    · exact (congrArg Core.generation hcore).trans b.generation

/-- The index in RAM is the replay of the log: opening the partition again after
any calls, and scanning it, yields the context the backend has. -/
theorem reopen_eq_live {ctx0 ctx : FlashqCtx} {m0 m : Memory} {labels : List FlashqStepLabel}
    (boot : FlashqStep cfg quietWorld (.off erasedFlash) .booted (.on ctx0 m0))
    (run : FlashqRun cfg quietWorld (.on ctx0 m0) labels (.on ctx m)) (hcalls : OnlyCalls labels)
    (hu : (publishedIds labels).Nodup) (hfit : AllFit cfg labels) :
    ∃ ctx' m', exec cfg.device (recoverWith cfg (scanLog cfg)) (FlashqCtx.fresh cfg) m [] =
        .ok () ctx' m' ∧
      ctx'.index = ctx.index ∧ ctx'.awaitingGcCount = ctx.awaitingGcCount ∧
      ctx'.cursor = ctx.cursor ∧ ctx'.activeRegion = ctx.activeRegion ∧
      ctx'.activeGeneration = ctx.activeGeneration ∧
      (1 + labels.length * (cfg.indexCapacity + 2) < 2 ^ 32 → ctx'.nextSeq = ctx.nextSeq) := by
  cases boot with
  | boot hrun =>
    obtain ⟨hcore, hbase⟩ := boot_erased (R := quiet cfg) hrun
    rw [hcore] at hbase
    have hinit := Live.initialized hbase
    rw [← hcore] at hinit
    obtain ⟨ctx1, m1, recs, heq, live⟩ := hinit.run run hcalls hu hfit
    cases heq
    obtain ⟨ctx', m', hexec, hi, hg, hc, hr, hgen, hseq⟩ := live.reopen
    refine ⟨ctx', m', hexec, hi, hg, hc, hr, hgen, fun hb => ?_⟩
    rw [hseq]
    exact (live.numbered hb).1.symm

/-- A message that was published and claimed is found in flight. -/
theorem reopen_eq_live_claimed : ∃ ctx m ctx' m',
    FlashqRun smallConfig quietWorld (.off erasedFlash)
      [.booted, .call (.enqueue ⟨7, [0x61], 1, 5, [1, 2, 3]⟩) (.ok .done),
        .call (.claimNext 9)
          (.ok (.claim (.claimed ⟨7, [0x61], 1, .inFlight, 1, 5, 9, 0, 0, 3, 63⟩)))]
      (.on ctx m) ∧
    exec smallConfig.device (recoverWith smallConfig (scanLog smallConfig))
      (FlashqCtx.fresh smallConfig) m [] = .ok () ctx' m' ∧
    ctx'.index = ctx.index ∧ ctx'.nextSeq = ctx.nextSeq := by
  have hplay : (FlashqSystem.off erasedFlash).playLabels smallConfig
      [(.boot, []), (.call (.enqueue ⟨7, [0x61], 1, 5, [1, 2, 3]⟩), []),
        (.call (.claimNext 9), [])] =
      some [.booted, .call (.enqueue ⟨7, [0x61], 1, 5, [1, 2, 3]⟩) (.ok .done),
        .call (.claimNext 9)
          (.ok (.claim (.claimed ⟨7, [0x61], 1, .inFlight, 1, 5, 9, 0, 0, 3, 63⟩)))] := by
    decide +kernel
  obtain ⟨s, hs⟩ := FlashqSystem.play_of_labels hplay
  have run := quiet_play (by decide +kernel) hs
  obtain ⟨s0, boot, calls⟩ := run.first
  cases boot with
  | boot hboot =>
    have hlive : ∃ ctx m, s = .on ctx m := by
      obtain ⟨s1, _, rest⟩ := calls.first
      obtain ⟨s2, last, hnil⟩ := rest.first
      obtain rfl := hnil.eq_of_nil
      cases last with
      | returned _ => exact ⟨_, _, rfl⟩
    obtain ⟨ctx, m, rfl⟩ := hlive
    obtain ⟨ctx', m', hexec, hi, _, _, _, _, hseq⟩ := reopen_eq_live (.boot hboot) calls
      (by simp [OnlyCalls]) (by decide) (by simp [AllFit, callsOf, FlashqStepLabel.op?,
        StorageOp.Fits, smallConfig])
    exact ⟨ctx, m, ctx', m', run, hexec, hi, hseq (by decide)⟩

end EdgeSync
