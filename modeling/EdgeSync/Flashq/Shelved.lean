/-
  Flashq/Shelved.lean --- the MESSAGE records of a log, live or not.

  `Located` speaks of the entries of an index.  A scan that sees only part of a log
  indexes messages that are done further on, so what it finds has to be known of
  every MESSAGE record of the log.
-/
import EdgeSync.Flashq.Logged

set_option autoImplicit false

namespace EdgeSync

open Foundation

variable {cfg : FlashqConfig}

/-! ## Parts of a log -/

/-- A log in two parts. -/
theorem Log.split {v : Memory} {off e : Nat} {recs recs' : List (Nat × RecordHdr)}
    (log : Log cfg v off (recs ++ recs') e) :
    ∃ mid, Log cfg v off recs mid ∧ Log cfg v mid recs' e := by
  induction recs generalizing off with
  | nil => exact ⟨off, .nil off, log⟩
  | cons x recs ih =>
    cases log with
    | cons accepted rest =>
      obtain ⟨mid, first, second⟩ := ih rest
      exact ⟨mid, .cons accepted first, second⟩

/-- Two parts of a log. -/
theorem Log.append {v : Memory} {off mid e : Nat} {recs recs' : List (Nat × RecordHdr)}
    (log : Log cfg v off recs mid) (log' : Log cfg v mid recs' e) :
    Log cfg v off (recs ++ recs') e := by
  induction log with
  | nil => exact log'
  | cons accepted _ ih => exact .cons accepted (ih log')

/-- A log up to one of its records. -/
theorem Log.split_at {v : Memory} {off e o : Nat} {h : RecordHdr}
    {before after : List (Nat × RecordHdr)} (log : Log cfg v off (before ++ (o, h) :: after) e) :
    Log cfg v off before o ∧ acceptAt cfg v o = some h ∧ Log cfg v (o + h.totalSize) after e := by
  obtain ⟨mid, first, second⟩ := log.split
  cases second with
  | cons accepted rest => exact ⟨first, accepted, rest⟩

/-! ## Every message in its place -/

/-- An entry finds its record in flash that agrees on the bytes of the record. -/
theorem Located.congr_at {v w : Memory} {limit : Nat} {e : FlashqIndexEntry}
    (h : Located cfg v limit e)
    (hvw : AgreeOn w v e.messageOffset.toNat (e.messageOffset.toNat + e.recordSize)) :
    Located cfg w limit e := by
  obtain ⟨hdr, ha, hf⟩ := h.record
  have hus := hdr.usedSize_le
  have hsize : hdr.totalSize = e.recordSize := by
    have hid := hf.2.2
    simp only [EntryMeta.identity, Prod.mk.injEq] at hid
    rw [RecordHdr.totalSize, EntryMeta.recordSize, hid.2.2.1, hid.2.2.2.1]
  refine ⟨⟨hdr, acceptAt_congr ha (hvw.mono (Nat.le_refl _) (by omega)), hf⟩, h.lower, h.upper,
    h.destinationLen_le, h.payloadLen_le, ?_⟩
  rw [contentOf_congr hvw (Nat.le_refl _) (Nat.le_refl _)]
  exact h.destination_ne

variable (cfg) in
/-- An entry made of any MESSAGE record of the log finds its record. -/
def Shelved (v : Memory) (limit : Nat) (recs : List (Nat × RecordHdr)) : Prop :=
  ∀ off h, (off, h) ∈ recs → h.type = RecordType.message.code →
    Located cfg v limit (h.indexEntry off)

namespace Shelved

variable {v w : Memory} {limit limit' : Nat} {recs recs' : List (Nat × RecordHdr)}

theorem congr (h : Shelved cfg v limit recs) (hvw : AgreeOn w v dataStart limit) :
    Shelved cfg w limit recs := fun off hdr hm ht => (h off hdr hm ht).congr hvw

theorem mono (h : Shelved cfg v limit recs) (hle : limit ≤ limit') : Shelved cfg v limit' recs :=
  fun off hdr hm ht => (h off hdr hm ht).mono hle

theorem append (h : Shelved cfg v limit recs) (h' : Shelved cfg v limit recs') :
    Shelved cfg v limit (recs ++ recs') := by
  intro off hdr hm ht
  rcases List.mem_append.mp hm with hm | hm
  · exact h off hdr hm ht
  · exact h' off hdr hm ht

theorem of_not_message {off : Nat} {hdr : RecordHdr}
    (ht : hdr.type ≠ RecordType.message.code) : Shelved cfg v limit [(off, hdr)] := by
  intro o h hm hmsg
  cases List.mem_singleton.mp hm
  exact absurd hmsg ht

theorem nil : Shelved cfg v limit [] := fun _ _ hm => absurd hm List.not_mem_nil

/-- What a scan indexes finds its records. -/
theorem replay {cfg' : FlashqConfig} (h : Shelved cfg v limit recs) :
    ∀ e ∈ (replay cfg' recs).index, Located cfg v limit e := by
  intro e he
  obtain ⟨off, hdr, hm, hoff, ht, hid⟩ := replay_mem he
  refine (h off hdr hm ht).of_key ?_
  rw [FlashqIndexEntry.key, FlashqIndexEntry.key, hoff, ← hid]
  rfl

end Shelved

/-- Compaction writes one record for each entry. -/
theorem mem_copiedRecs {off o : Nat} {seq : UInt32} {es : List FlashqIndexEntry} {h : RecordHdr}
    (hm : (o, h) ∈ copiedRecs off seq es) : h.indexEntry o ∈ placed off es := by
  induction es generalizing off seq with
  | nil => exact absurd hm List.not_mem_nil
  | cons e es ih =>
    rw [copiedRecs] at hm
    rw [placed]
    rcases List.mem_cons.mp hm with heq | hm
    · cases heq
      exact List.mem_cons_self
    · exact List.mem_cons_of_mem _ (ih hm)

section Steps

variable {R : Regime cfg} {c c' c1 : Core} {m m' m1 : Memory}
  {recs recs' recs1 : List (Nat × RecordHdr)}

variable (R) in
/-- A running backend, and a log with every message in its place. -/
structure ShelvedOn (c : Core) (m : Memory) (recs : List (Nat × RecordHdr)) : Prop where
  base : Base R c m recs
  shelved : Shelved cfg (view cfg m c.region) c.cursor recs

theorem ShelvedOn.moved (h : ShelvedOn R c m recs) (mv : Moved R c m recs c1 m1 recs1) :
    ShelvedOn R c1 m1 recs1 := by
  refine ⟨mv.base, ?_⟩
  rcases mv.how with ⟨rfl, rfl, rfl⟩ | ⟨rfl, rfl⟩
  · exact h.shelved
  · refine Shelved.append (fun off hdr hm _ => ?_) (.of_not_message
      (show RecordType.endMarker.code ≠ RecordType.message.code by decide))
    exact mv.base.located _ (mem_copiedRecs hm)

theorem ShelvedOn.prepared {cS : Core} {op : StorageOp} (h : ShelvedOn R c m recs)
    (prep : Prepared c cS op) : ShelvedOn R cS m recs := by
  refine ⟨prep.base h.base, ?_⟩
  cases op with
  | claimNext nowUs =>
    obtain ⟨claimScratch, rfl⟩ := prep
    exact h.shelved
  | scheduleRetry id nextRetryTimeUs deadLetter lastError =>
    obtain ⟨pos, _, rfl⟩ := prep
    exact h.shelved
  | findDropCandidate policy => exact prep.elim
  | getStats stats => exact prep.elim
  | _ =>
    cases prep
    exact h.shelved

theorem Shelved.updated {c2 : Core} {m2 : Memory} {pos : Nat} {id : UInt64} {p : Progress}
    (h : Shelved cfg (view cfg m1 c1.region) c1.cursor recs1)
    (up : Updated R c1 m1 pos id p c2 m2) :
    Shelved cfg (view cfg m2 c2.region) c2.cursor (updatedRecs c1 recs1 id p) := by
  have hbefore := h.congr (up.written.before.mono (Nat.zero_le _) (Nat.le_refl _))
  rw [up.core_eq]
  exact (hbefore.mono (Nat.le_add_right _ _)).append
    (.of_not_message (show RecordType.update.code ≠ RecordType.message.code by decide))

theorem Shelved.enqueued {c2 : Core} {m2 : Memory} {message : EdgesyncMessage}
    (h : Shelved cfg (view cfg m1 c1.region) c1.cursor recs1) (b : Base R c1 m1 recs1)
    (en : Enqueued R c1 m1 message c2 m2) :
    Shelved cfg (view cfg m2 c2.region) c2.cursor (enqueuedRecs c1 recs1 message) := by
  have hbefore := h.congr (en.written.before.mono (Nat.zero_le _) (Nat.le_refl _))
  rw [en.core_eq]
  refine (hbefore.mono (Nat.le_add_right _ _)).append fun off hdr hm _ => ?_
  cases List.mem_singleton.mp hm
  exact en.located b

/-- Every call keeps the messages in their places. -/
theorem ShelvedOn.call {op : StorageOp} {res : Except EspErr StorageReply}
    (h : ShelvedOn R c m recs) (ef : Effect R c m recs op res c' m' recs') :
    ShelvedOn R c' m' recs' := by
  refine ⟨ef.base h.base, ?_⟩
  cases ef with
  | refused why => exact h.shelved
  | looked seen => exact h.shelved
  | full prepared moved low => exact ((h.prepared prepared).moved moved).shelved
  | spoilt lossy prepared moved left =>
    refine ((h.prepared prepared).moved moved).shelved.congr ?_
    exact left.before.mono (Nat.zero_le _) (Nat.le_refl _)
  | enqueued moved enqueued => exact (h.moved moved).shelved.enqueued moved.base enqueued
  | @claimed nowUs _ _ claimScratch _ _ _ _ _ selected entry borrowed moved updated =>
    have hS : ShelvedOn R { c with claimScratch := claimScratch } m recs :=
      @ShelvedOn.prepared _ _ _ _ _ _ (.claimNext nowUs) h ⟨claimScratch, rfl⟩
    exact (hS.moved moved).shelved.updated updated
  | retired retires found entry moved updated =>
    have hup := (h.moved moved).shelved.updated updated
    exact hup
  | @retried id nextRetryTimeUs deadLetter lastError pos _ _ _ _ _ _ found entry moved updated =>
    have hS : ShelvedOn R (c.stagedAt pos nextRetryTimeUs deadLetter lastError) m recs :=
      @ShelvedOn.prepared _ _ _ _ _ _ (.scheduleRetry id nextRetryTimeUs deadLetter lastError) h
        ⟨pos, found, rfl⟩
    exact (hS.moved moved).shelved.updated updated

end Steps

/-! ## Runs without faults -/

/-- The log of a region, with every message in its place. -/
structure ShelvedRegion (cfg : FlashqConfig) (v : Memory) : Prop where
  exists_log : ∃ recs e, Log cfg v dataStart recs e ∧ acceptAt cfg v e = none ∧
    Shelved cfg v e recs

/-- What a run keeps. -/
def ShelvedSystem (cfg : FlashqConfig) : FlashqSystem → Prop
  | .on ctx m => ∃ recs, ShelvedOn (quiet cfg) ctx.core m recs
  | .off m => Image (quiet cfg) m (fun _ => True) ∧
      ∀ r, IsActive (view cfg m r) → ShelvedRegion cfg (view cfg m r)

section Runs

variable {c : Core} {m : Memory} {recs : List (Nat × RecordHdr)} {labels : List FlashqStepLabel}

theorem ShelvedOn.off (h : ShelvedOn (quiet cfg) c m recs) : ShelvedSystem cfg (.off m) := by
  refine ⟨h.base.image trivial, fun r hr => ?_⟩
  rcases eq_or_eq_other r c.region with rfl | rfl
  · exact ⟨recs, c.cursor, h.base.log, (quiet cfg).tail_stop h.base.tail, h.shelved⟩
  · exact absurd hr h.base.spare

/-- `op_recover` keeps the messages in their places, also where it fails. -/
theorem ShelvedSystem.boot (h : ShelvedSystem cfg (.off m)) :
    wp cfg.device calmEnv (opRecover cfg)
      ⟨fun _ ctx' m' => ShelvedSystem cfg (.on ctx' m'),
        fun _ _ m' => ShelvedSystem cfg (.off m'), fun _ => True⟩ (FlashqCtx.fresh cfg) m := by
  obtain ⟨himg, hlog⟩ := h
  have hstaged : ∀ {c : Core} {m recs} (pos : Nat) (e : FlashqIndexEntry),
      ShelvedOn (quiet cfg) c m recs →
      ShelvedOn (quiet cfg) (c.stagedAt pos 0 false e.lastError) m recs :=
    fun pos e h => ⟨h.base.stagedAt pos 0 false e.lastError, h.shelved⟩
  have hrequeue : RequeueInvariant (quiet cfg) (ShelvedOn (quiet cfg)) fun _ => True := by
    refine ⟨fun _ _ => trivial, fun _ _ _ _ => updateQueues_true, ?_⟩
    intro c m recs pos e c1 m1 recs1 c2 m2 hJ _ he hin mv up
    exact ⟨up.base mv.base (isFinal_requeued hin),
      ((hstaged pos e hJ).moved mv).shelved.updated up⟩
  refine wp_opRecover (R := quiet cfg) (J := ShelvedOn (quiet cfg)) himg hrequeue
    (fun _ _ => trivial) ?_ ?_ ?_ ?_ (fun hl => hl.elim) (fun hm => hm.elim) fun _ _ => trivial
  · intro c0 m0 recs0 ho _
    obtain ⟨recs, e, log, hstop, hshelved⟩ := (hlog c0.region ho.chosen.active).exists_log
    have hstop0 : acceptAt cfg (view cfg m c0.region) c0.cursor = none := by
      refine (quiet cfg).tail_stop ((quiet cfg).tail_congr ?_ ho.base.tail)
      exact (ho.chosen.agree.mono (Nat.zero_le _) (Nat.le_refl _)).symm
    obtain ⟨rfl, rfl⟩ := ho.log.unique log hstop0 hstop
    exact ⟨ho.base, hshelved.congr (ho.chosen.agree.mono (Nat.zero_le _) ho.base.cursor_le)⟩
  · intro hnone ctx' m' hcore b
    exact ⟨[], b, .nil⟩
  · exact fun _ _ _ _ _ recs' _ _ _ hJ _ => ⟨recs', hJ⟩
  · intro _ _ _ _ _ _ _ _ m' _ ⟨c, m1, recs, pos, e, c1, recs1, hJ, _, _, _, mv⟩
    exact ((hstaged pos e hJ).moved mv).off

/-- One step without faults. -/
theorem ShelvedSystem.step {label : FlashqStepLabel} {s s' : FlashqSystem}
    (h : ShelvedSystem cfg s) (step : FlashqStep cfg quietWorld s label s')
    (hfit : ∀ op, label.op? = some op → op.Fits cfg.maxMessageSize) : ShelvedSystem cfg s' := by
  have hcall : ∀ {ctx : FlashqCtx} {m : Memory} {op : StorageOp}
      {res : Except EspErr StorageReply} {s' : FlashqSystem}, ShelvedSystem cfg (.on ctx m) →
      op.Fits cfg.maxMessageSize → FlashqStep cfg quietWorld (.on ctx m) (.call op res) s' →
      ShelvedSystem cfg s' := by
    intro ctx m op res s' ⟨recs, hon⟩ hfit step
    obtain ⟨ctx', m', recs', rfl, ef⟩ := quiet_effect hon.base hfit step
    exact ⟨recs', hon.call ef⟩
  have hstep := step
  cases step with
  | returned run => exact hcall h (hfit _ rfl) hstep
  | failed run => exact hcall h (hfit _ rfl) hstep
  | cut run => exact absurd hstep quiet_not_callCut
  | stop =>
    obtain ⟨recs, hon⟩ := h
    exact hon.off
  | boot run => exact wp_sound run h.boot
  | bootFail run => exact wp_sound run h.boot
  | bootCut run => exact absurd hstep quiet_not_bootCut

/-- Every run without faults from an erased partition. -/
theorem ShelvedSystem.run {s : FlashqSystem}
    (run : FlashqRun cfg quietWorld (.off erasedFlash) labels s) (hfit : AllFit cfg labels) :
    ShelvedSystem cfg s := by
  induction run with
  | nil => exact ⟨image_erased trivial, fun r hr => absurd hr (erased_not_active r)⟩
  | snoc run step ih => exact (ih hfit.init).step step fun op hop => hfit.last hop

end Runs

end EdgeSync
