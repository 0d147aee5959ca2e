/-
  Flashq/Damage.lean --- one damaged record.

  The scan stops at the first record it does not accept.  Damage to the body of one
  MESSAGE record is contained as long as the scan still accepts the record; where it
  does not, the records behind it are out of reach, and the cursor stands on bytes
  that are not erased.
-/
import EdgeSync.Flashq.PowerCut
import EdgeSync.Flashq.Shelved

set_option autoImplicit false

namespace EdgeSync

open Foundation

/-! ## Appends to erased flash -/

section Clean

variable (cfg : FlashqConfig)

/-- The write puts a record at the end of the log of an ACTIVE region. -/
structure EndsLog (m : Memory) (addr : Nat) (bytes : Bytes) (r : Fin 2) (e : Nat) : Prop where
  active : IsActive (view cfg m r)
  log : ∃ recs, Log cfg (view cfg m r) dataStart recs e
  addr_eq : addr = cfg.regionOffset r + e
  bytes_eq : ∃ h data, bytes = recordBytes h data

/-- Every call works, and no record is appended to flash that is not erased. -/
def cleanAppends : Env FlashCall Memory FlashEvent := fun m c ev =>
  ev = .run ∧ match c with
    | .write addr bytes => ∀ r e, EndsLog cfg m addr bytes r e → ErasedFrom cfg (view cfg m r) e
    | _ => True

variable {cfg}

theorem acceptAt_none_congr {v w : Memory} {off : Nat} (hvw : AgreeOn w v off cfg.regionSize)
    (h : acceptAt cfg v off = none) : acceptAt cfg w off = none := by
  cases hw : acceptAt cfg w off with
  | none => rfl
  | some hdr =>
    have hused := acceptAt_used_le hw
    have hv := acceptAt_congr hw ((hvw.mono (Nat.le_refl _) hused).symm)
    rw [hv] at h
    exact absurd h (by simp)

variable (cfg) in
/-- The regime of runs whose appends go to erased flash. -/
def clean : Regime cfg where
  env := cleanAppends cfg
  mayFail := False
  lossy := False
  Tail := fun v e => acceptAt cfg v e = none
  Torn := Eq
  read_events := fun h => .inl h.1
  write_events := fun h => .inl h.1
  erase_events := fun h => .inl h.1
  tail_stop := fun h => h
  tail_erased := acceptAt_of_erasedFrom
  tail_congr := acceptAt_none_congr
  torn_refl := fun _ => rfl
  torn_landed := landed_of_eq
  append_run := by
    intro m r recs e h data hact hlog _ _ hd hfit hev
    have herased := hev.2 r e ⟨hact, ⟨recs, hlog⟩, rfl, h, data, rfl⟩
    obtain ⟨hread, htail⟩ := append_to_erased herased hd hfit
    exact .inr ⟨hread, acceptAt_of_erasedFrom htail⟩
  append_cut := fun _ _ _ _ _ _ hev => absurd hev.1 (by simp)
  guarded := 0
  header_guard := fun _ _ hev => absurd hev.1 (by simp)
  scan_guard := fun _ _ _ => ⟨fun hev => absurd hev.1 (by simp), fun hev => absurd hev.1 (by simp)⟩

theorem clean_not_cut {α : Type} {x : FlashqM α} {ctx : FlashqCtx} {m m' : Memory} :
    ¬ Runs cfg.device (clean cfg).env x ctx m (.cut m') :=
  Runs.not_cut fun _ _ _ _ h => calm_respond h.1

end Clean

/-! ## What is owed, but for one message -/

/-- The ids are unique and were published, and of what is owed only `d` may be missing. -/
structure HoldsBut (d : UInt64) (labels : List FlashqStepLabel) (ids : List UInt64) : Prop where
  nodup : ids.Nodup
  published : ∀ id ∈ ids, id ∈ publishedIds labels
  owed : ∀ id ∈ liveIds labels, id ≠ d → id ∈ ids

section Owed

variable {d : UInt64} {labels : List FlashqStepLabel} {label : FlashqStepLabel} {ids : List UInt64}

/-- A step that is no call. -/
theorem HoldsBut.restart (h : HoldsBut d labels ids) (hop : label.op? = none) :
    HoldsBut d (labels ++ [label]) ids := by
  refine ⟨h.nodup, fun id hid => mem_published_init (h.published id hid) label, ?_⟩
  rw [liveIds_snoc, liveAfter_of_op hop]
  exact h.owed

/-- A call. -/
theorem HoldsBut.call {q q' : List StoredMessage} {op : StorageOp}
    {res : Except EspErr StorageReply} (h : HoldsBut d labels (messageIds q))
    (hu : (publishedIds (labels ++ [.call op res])).Nodup) (step : QueueStep q op res q') :
    HoldsBut d (labels ++ [.call op res]) (messageIds q') := by
  have hknown : KnownIds labels q := ⟨h.nodup, h.published⟩
  have hlive := (nodup_liveIds (unique_init hu)).1
  have hknown' := hknown.call hu step
  refine ⟨hknown'.nodup, hknown'.published, ?_⟩
  rw [liveIds_snoc]
  cases step with
  | refused =>
    rw [liveAfter_error]
    exact h.owed
  | staged found =>
    rw [messageIds_modify]
    exact h.owed
  | candidate selected entry => exact h.owed
  | stats => exact h.owed
  | enqueued =>
    rw [messageIds, List.map_append]
    intro id hid hne
    rcases List.mem_append.mp hid with hid | hid
    · exact List.mem_append_left _ (h.owed id hid hne)
    · exact List.mem_append_right _ hid
  | claimed selected entry =>
    rw [messageIds_modify]
    exact h.owed
  | retired retires found =>
    rw [retires.liveAfter]
    intro id hid hne
    obtain ⟨hdiff, hid⟩ := hlive.mem_erase_iff.mp hid
    refine (erase_perm_messageIds found).mem_iff.mpr ?_
    exact (List.mem_erase_of_ne hdiff).mpr (h.owed id hid hne)
  | retried found =>
    rw [messageIds_modify]
    exact h.owed

end Owed

/-! ## Runs with clean appends -/

/-- What a run with clean appends keeps. -/
def CleanSystem (cfg : FlashqConfig) (d : UInt64) (labels : List FlashqStepLabel) :
    FlashqSystem → Prop
  | .on ctx m => (∃ recs, Base (clean cfg) ctx.core m recs) ∧ HoldsBut d labels (ctx.index.map (·.id))
  | .off m => Image (clean cfg) m fun q => HoldsBut d labels (messageIds q)

section Runs

variable {cfg : FlashqConfig} {d : UInt64} {labels : List FlashqStepLabel}

/-- The ids of the log are those of the index. -/
theorem Base.messageIds_log {R : Regime cfg} {c : Core} {m : Memory} {recs : List (Nat × RecordHdr)}
    (b : Base R c m recs) (v : Memory) :
    messageIds (contents v (replay cfg recs).index) = c.index.map (·.id) := by
  rw [messageIds_contents, ids_of_keys b.same]

/-- A requeue changes no id. -/
theorem requeueInvariant_ids {R : Regime cfg} (I : List UInt64 → Prop) :
    RequeueInvariant R (fun c _ _ => I (c.index.map (·.id))) fun q => I (messageIds q) where
  log h b := by rwa [b.messageIds_log]
  queues {c m recs pos e} h b _ hin := by
    have hlog := b.messageIds_log (view cfg m c.region)
    have hram : messageIds (contents (view cfg m c.region)
        (c.stagedAt pos 0 false e.lastError).index) = c.index.map (·.id) := by
      rw [messageIds_contents, stagedAt_ids]
    have hfinal := isFinal_requeued hin
    refine ⟨?_, ?_, ?_, ?_⟩
    · rwa [hlog]
    · rwa [hram]
    · rwa [messageIds_progressTo hfinal, hlog]
    · rwa [messageIds_progressTo hfinal, hram]
  step {c m recs pos e c1 m1 recs1 c2 m2} h _ he _ mv up := by
    have hids : c2.index.map (·.id) = c.index.map (·.id) := by
      rw [ids_of_keys up.keys, mv.ids, stagedAt_ids]
    rwa [hids]

/-- A call keeps what is owed. -/
theorem Effect.holdsBut {R : Regime cfg} {c c' : Core} {m m' : Memory}
    {recs recs' : List (Nat × RecordHdr)} {op : StorageOp} {res : Except EspErr StorageReply}
    (ef : Effect R c m recs op res c' m' recs') (h : HoldsBut d labels (c.index.map (·.id)))
    (hu : (publishedIds (labels ++ [.call op res])).Nodup) :
    HoldsBut d (labels ++ [.call op res]) (c'.index.map (·.id)) := by
  rw [← @messageIds_queue cfg c m] at h
  rw [← @messageIds_queue cfg c' m']
  exact h.call hu ef.queueStep

theorem CleanSystem.step {s s' : FlashqSystem} {label : FlashqStepLabel}
    (h : CleanSystem cfg d labels s) (step : FlashqStep cfg (clean cfg).world s label s')
    (hu : (publishedIds (labels ++ [label])).Nodup)
    (hfit : ∀ op, label.op? = some op → op.Fits cfg.maxMessageSize) :
    CleanSystem cfg d (labels ++ [label]) s' := by
  have hquiet : ¬ (clean cfg).mayFail := fun h => h
  cases step with
  | returned run =>
    obtain ⟨⟨recs, b⟩, hids⟩ := h
    obtain ⟨recs', ef⟩ := call_returned hquiet b (hfit _ rfl) run
    exact ⟨⟨recs', ef.base b⟩, ef.holdsBut hids hu⟩
  | failed run =>
    obtain ⟨⟨recs, b⟩, hids⟩ := h
    obtain ⟨recs', ef⟩ := call_failed hquiet b (hfit _ rfl) run
    exact ⟨⟨recs', ef.base b⟩, ef.holdsBut hids hu⟩
  | cut run => exact absurd run clean_not_cut
  | stop =>
    obtain ⟨⟨recs, b⟩, hids⟩ := h
    refine b.image ?_
    rw [b.messageIds_log]
    exact hids.restart rfl
  | @boot ctx' m m' g run =>
    have himg := h.mono fun q (hq : HoldsBut d labels (messageIds q)) =>
      hq.restart (show FlashqStepLabel.booted.op? = none from rfl)
    have hb := boot_meets (J := fun c _ _ => HoldsBut d (labels ++ [.booted]) (c.index.map (·.id)))
      himg (requeueInvariant_ids _) (fun _ hq => hq)
      (fun _ _ _ _ hq => by rwa [messageIds_queue] at hq) run
    cases hb with
    | fresh none core_eq base =>
      have hnil : ctx'.index = [] := congrArg Core.index core_eq
      refine ⟨⟨_, base⟩, ?_⟩
      rw [hnil]
      exact (himg.fresh none).2
    | replayed opened durable base inv metas => exact ⟨⟨_, base⟩, inv⟩
  | bootFail run =>
    exact boot_meets (J := fun c _ _ => HoldsBut d (labels ++ [_]) (c.index.map (·.id)))
      (h.mono fun q hq => hq.restart rfl) (requeueInvariant_ids _) (fun _ hq => hq)
      (fun _ _ _ _ hq => by rwa [messageIds_queue] at hq) run
  | bootCut run => exact absurd run clean_not_cut

theorem CleanSystem.run {s s' : FlashqSystem} {labels' : List FlashqStepLabel}
    (h : CleanSystem cfg d labels s) (run : FlashqRun cfg (clean cfg).world s labels' s')
    (hu : (publishedIds (labels ++ labels')).Nodup) (hfit : AllFit cfg labels') :
    CleanSystem cfg d (labels ++ labels') s' := by
  induction run with
  | nil => rwa [List.append_nil]
  | @snoc labels' s1 s2 label run step ih =>
    rw [← List.append_assoc] at hu ⊢
    exact (ih (unique_init hu) hfit.init).step step hu fun op hop => hfit.last hop

end Runs

/-! ## Damage to one record -/

/-- The bytes behind the header of a MESSAGE record of the log changed, and no others. -/
structure Damaged (cfg : FlashqConfig) (m : Memory) (r : Fin 2) (off : Nat) (h : RecordHdr)
    (m' : Memory) : Prop where
  active : IsActive (view cfg m r)
  logged : ∃ recs e, Log cfg (view cfg m r) dataStart recs e ∧
    acceptAt cfg (view cfg m r) e = none ∧ (off, h) ∈ recs
  message : h.type = RecordType.message.code
  other : AgreeOn (view cfg m' (1 - r)) (view cfg m (1 - r)) 0 cfg.regionSize
  before : AgreeOn (view cfg m' r) (view cfg m r) 0 (off + hdrSize)
  behind : AgreeOn (view cfg m' r) (view cfg m r) (off + h.usedSize) cfg.regionSize

/-- The scan accepts the damaged record, and its destination is still a string. -/
def StillAccepted (cfg : FlashqConfig) (v : Memory) (off : Nat) (h : RecordHdr) : Prop :=
  acceptAt cfg v off = some h ∧ ∀ b ∈ v.bytesAt (off + hdrSize) h.destinationLen.toNat, b ≠ 0

/-- Behind the record the log has no MESSAGE record of a message that is owed. -/
def NoneBehind (cfg : FlashqConfig) (v : Memory) (off : Nat) (ids : List UInt64) : Prop :=
  ∀ recs e, Log cfg v dataStart recs e → acceptAt cfg v e = none → ∀ o h, (o, h) ∈ recs → off < o →
    h.type = RecordType.message.code → h.messageId ∉ ids

/-- The damage takes no other message that is owed out of the reach of the scan. -/
def Spared (cfg : FlashqConfig) (v v' : Memory) (off : Nat) (h : RecordHdr) (ids : List UInt64) :
    Prop :=
  StillAccepted cfg v' off h ∨ (acceptAt cfg v' off = none ∧ NoneBehind cfg v off ids)

section Records

variable {cfg : FlashqConfig} {before rest : List (Nat × RecordHdr)} {id : UInt64}

theorem mem_recordedIds {recs : List (Nat × RecordHdr)} :
    id ∈ recordedIds recs ↔ ∃ o h, (o, h) ∈ recs ∧ h.type = RecordType.message.code ∧
      h.messageId = id := by
  rw [recordedIds, List.mem_map]
  constructor
  · rintro ⟨⟨o, h⟩, hm, hid⟩
    obtain ⟨hm, ht⟩ := List.mem_filter.mp hm
    exact ⟨o, h, hm, of_decide_eq_true ht, hid⟩
  · rintro ⟨o, h, hm, ht, hid⟩
    exact ⟨(o, h), List.mem_filter.mpr ⟨hm, decide_eq_true ht⟩, hid⟩

theorem recordedIds_append (before rest : List (Nat × RecordHdr)) :
    recordedIds (before ++ rest) = recordedIds before ++ recordedIds rest := by
  rw [recordedIds, List.filter_append, List.map_append]
  rfl

theorem Unrefused.init (h : Unrefused cfg (before ++ rest)) : Unrefused cfg before := by
  induction rest using List.reverseRecOn with
  | nil => rwa [List.append_nil] at h
  | append_singleton rest x ih =>
    rw [← List.append_assoc] at h
    generalize hl : before ++ rest ++ [x] = all at h
    cases h with
    | nil => simp at hl
    | snoc first room =>
      obtain ⟨rfl, _⟩ := List.append_inj' hl rfl
      exact ih first

/-- A message that is indexed at the end was indexed ever since its record. -/
theorem mem_replay_of_recorded (hu : (recordedIds (before ++ rest)).Nodup)
    (hrec : id ∈ recordedIds before) (hm : id ∈ (replay cfg (before ++ rest)).index.map (·.id)) :
    id ∈ (replay cfg before).index.map (·.id) := by
  induction rest using List.reverseRecOn with
  | nil => rwa [List.append_nil] at hm
  | append_singleton rest x ih =>
    obtain ⟨o, h⟩ := x
    rw [← List.append_assoc, recordedIds_append] at hu
    have ih := ih hu.of_append_left
    rw [← List.append_assoc, replay_snoc] at hm
    rcases @Replay.apply_cases cfg (replay cfg (before ++ rest)) o h with
      hr | ⟨ht, _, hr⟩ | ⟨pos, hr⟩ | ⟨pos, _, hr⟩
    · exact ih (by rwa [hr] at hm)
    · rw [hr, List.map_append] at hm
      rcases List.mem_append.mp hm with hm | hm
      · exact ih hm
      · -- the id would be recorded twice
        have hid : id = h.messageId := List.mem_singleton.mp hm
        refine absurd ?_ (List.disjoint_of_nodup_append hu (a := id) ?_)
        · exact mem_recordedIds.mpr ⟨o, h, List.mem_singleton.mpr rfl, ht, hid.symm⟩
        · rw [recordedIds_append]
          exact List.mem_append_left _ hrec
    · rw [hr] at hm
      refine ih ?_
      have hsame : ((replay cfg (before ++ rest)).index.modify pos
          (·.withProgress h.progress)).map (·.id) =
          (replay cfg (before ++ rest)).index.map (·.id) := map_modify_of_eq fun _ _ => rfl
      rwa [← hsame]
    · rw [hr] at hm
      obtain ⟨e, he, hid⟩ := List.mem_map.mp hm
      exact ih (List.mem_map.mpr ⟨e, mem_of_mem_swapRemove he, hid⟩)

end Records

section Damaged

variable {cfg : FlashqConfig} {labels : List FlashqStepLabel} {m m' : Memory} {r : Fin 2} {off : Nat}
  {h : RecordHdr}

/-- The log of the damaged region, before the damage and behind it. -/
theorem Damaged.parts (dmg : Damaged cfg m r off h m') : ∃ before after e,
    Log cfg (view cfg m r) dataStart (before ++ (off, h) :: after) e ∧
    acceptAt cfg (view cfg m r) e = none ∧
    Log cfg (view cfg m' r) dataStart before off ∧
    Log cfg (view cfg m' r) (off + h.totalSize) after e ∧
    acceptAt cfg (view cfg m' r) e = none := by
  obtain ⟨recs, e, log, hstop, hm⟩ := dmg.logged
  obtain ⟨before, after, rfl⟩ := List.append_of_mem hm
  obtain ⟨first, accepted, rest⟩ := log.split_at
  have hused := h.usedSize_le
  have hle := rest.le
  have hstart : dataStart ≤ cfg.regionSize := by have := cfg.dataCapacity_eq; omega
  have hend : e ≤ cfg.regionSize := log.le_regionSize rfl hstart
  refine ⟨before, after, e, log, hstop, first.congr ?_, rest.congr ?_, acceptAt_none_congr ?_ hstop⟩
  · exact dmg.before.mono (Nat.zero_le _) (Nat.le_add_right _ _)
  · exact dmg.behind.mono (by omega) hend
  · exact dmg.behind.mono (by omega) (Nat.le_refl _)

/-- The log of the region, as the fault-free run left it; `h` is the record to be damaged. -/
structure RunLog (cfg : FlashqConfig) (h : RecordHdr) (labels : List FlashqStepLabel) (v : Memory)
    (recs : List (Nat × RecordHdr)) (e : Nat) : Prop where
  ok : LogOk cfg labels recs
  shelved : Shelved cfg v e recs
  known : HoldsBut h.messageId labels ((replay cfg recs).index.map (·.id))
  fit : liveBytes (replay cfg recs).index + updateSize ≤ cfg.dataCapacity

/-- What a run without faults says of the log of its ACTIVE region. -/
theorem Logged.runLog (h : RecordHdr) {recs : List (Nat × RecordHdr)} {e : Nat} (hl : Logged cfg labels (.off m))
    (hs : ShelvedSystem cfg (.off m)) (hr : IsActive (view cfg m r))
    (log : Log cfg (view cfg m r) dataStart recs e) (hstop : acceptAt cfg (view cfg m r) e = none) :
    RunLog cfg h labels (view cfg m r) recs e := by
  obtain ⟨recs1, e1, log1, hstop1, ok⟩ := (hl.2 r hr).exists_log
  obtain ⟨rfl, rfl⟩ := log.unique log1 hstop hstop1
  obtain ⟨recs2, e2, log2, hstop2, hshelved⟩ := (hs.2 r hr).exists_log
  obtain ⟨rfl, rfl⟩ := log.unique log2 hstop hstop2
  obtain ⟨q, ⟨hids, hlive⟩, hg⟩ := hl.1.active r hr
  obtain ⟨recs3, e3, log3, htail, _, hfit, rfl⟩ := hg.exists_log
  obtain ⟨rfl, rfl⟩ := log.unique log3 hstop ((quiet cfg).tail_stop htail)
  refine ⟨ok, hshelved, ?_, hfit⟩
  rw [← messageIds_contents (view cfg m r)]
  exact ⟨hids.nodup, hids.published, fun id hid _ => hlive.mem_iff.mpr hid⟩

/-- What the scan sees in front of the damaged record. -/
theorem RunLog.front {v : Memory} {before after : List (Nat × RecordHdr)} {e : Nat}
    (run : RunLog cfg h labels v (before ++ (off, h) :: after) e)
    (hbehind : ∀ o x, (o, x) ∈ after → x.type = RecordType.message.code →
      x.messageId ∉ liveIds labels) :
    HoldsBut h.messageId labels ((replay cfg before).index.map (·.id)) := by
  have hunique := run.ok.unique
  have hsub : Subscan cfg cfg before := by
    refine run.ok.unrefused.init.subscan ?_
    rw [recordedIds_append] at hunique
    exact hunique.of_append_left
  have hall : Subscan cfg cfg (before ++ (off, h) :: after) := run.ok.unrefused.subscan hunique
  refine ⟨hsub.ids, fun id hid => ?_, fun id hid hne => ?_⟩
  · obtain ⟨x, hx, rfl⟩ := List.mem_map.mp hid
    refine run.ok.published _ ?_
    rw [recordedIds_append]
    exact List.mem_append_left _ (hsub.recorded x hx)
  · have hindexed := run.known.owed id hid hne
    refine mem_replay_of_recorded hunique ?_ hindexed
    obtain ⟨x, hx, rfl⟩ := List.mem_map.mp hindexed
    obtain ⟨o, y, hm, ht, hy⟩ := mem_recordedIds.mp (hall.recorded x hx)
    rcases List.mem_append.mp hm with hm | hm
    · exact mem_recordedIds.mpr ⟨o, y, hm, ht, hy⟩
    · rcases List.mem_cons.mp hm with heq | hm
      · cases heq
        exact absurd hy.symm hne
      · rw [← hy] at hid
        exact absurd hid (hbehind o y hm ht)

/-- The rest of the partition is as the run left it. -/
theorem Damaged.image {recs : List (Nat × RecordHdr)} {e : Nat} (dmg : Damaged cfg m r off h m')
    (hl : Logged cfg labels (.off m)) (log : Log cfg (view cfg m' r) dataStart recs e)
    (hstop : acceptAt cfg (view cfg m' r) e = none) (hshelved : Shelved cfg (view cfg m' r) e recs)
    (hfit : liveBytes (replay cfg recs).index + updateSize ≤ cfg.dataCapacity)
    {Q : List UInt64 → Prop} (hQ : Q ((replay cfg recs).index.map (·.id))) :
    Image (clean cfg) m' fun q => Q (messageIds q) := by
  have hsize := regionHdrSize_le cfg
  have hhdr : AgreeOn (view cfg m' r) (view cfg m r) 0 regionHdrSize := by
    obtain ⟨recs, e, log, _, hm⟩ := dmg.logged
    have hlow := (log.mem hm).2.1
    exact dmg.before.mono (Nat.le_refl _) (by have := hdr_lt_dataStart; omega)
  have hother : AgreeOn (view cfg m' (1 - r)) (view cfg m (1 - r)) 0 regionHdrSize :=
    dmg.other.mono (Nat.le_refl _) hsize
  have hone := (hl.2 r dmg.active).one
  refine Image.of_one (r := r) (q := contents (view cfg m' r) (replay cfg recs).index) ?_ ?_ ?_ ?_ ?_
  · exact (isActive_congr hhdr).mpr dmg.active
  · rwa [messageIds_contents]
  · exact ⟨recs, e, log, hstop, hshelved.replay, hfit, rfl⟩
  · exact fun ha => hone ((isActive_congr hother).mp ha)
  · intro hb i _ hi
    rw [dmg.other i (Nat.zero_le _) hi]
    refine hl.1.spare (1 - r) hone ?_ ((blank_congr hother).mp hb) i (Nat.zero_le _) hi
    rw [other_other]
    exact dmg.active

/-- Where the scan still accepts the record, it finds the whole log. -/
theorem Damaged.accepted (dmg : Damaged cfg m r off h m') (hl : Logged cfg labels (.off m))
    (hs : ShelvedSystem cfg (.off m)) (acc : StillAccepted cfg (view cfg m' r) off h) :
    CleanSystem cfg h.messageId labels (.off m') := by
  obtain ⟨before, after, e, log, hstop, first, rest, hstop'⟩ := dmg.parts
  have run := hl.runLog h hs dmg.active log hstop
  have hall : Log cfg (view cfg m' r) dataStart (before ++ (off, h) :: after) e :=
    first.append (.cons acc.1 rest)
  refine dmg.image hl hall hstop' ?_ run.fit run.known
  have hused := h.usedSize_le
  have hend : e ≤ cfg.regionSize :=
    log.le_regionSize rfl (by have := cfg.dataCapacity_eq; omega)
  intro o x hm ht
  have hx := run.shelved o x hm ht
  have hbounds := log.mem hm
  have hoff : (UInt32.ofNat o).toNat = o := cfg.toNat_offset (by omega)
  rcases List.mem_append.mp hm with hm | hm
  · -- in front of the damaged record
    have hbefore := (first.mem hm).2
    refine hx.congr_at ?_
    show AgreeOn _ _ (UInt32.ofNat o).toNat ((UInt32.ofNat o).toNat + x.totalSize)
    rw [hoff]
    exact dmg.before.mono (Nat.zero_le _) (by omega)
  rcases List.mem_cons.mp hm with heq | hm
  · -- the damaged record itself
    cases heq
    refine ⟨⟨h, ?_, ?_, ht, rfl⟩, hx.lower, hx.upper, hx.destinationLen_le, hx.payloadLen_le, ?_⟩
    · show acceptAt cfg (view cfg m' r) (UInt32.ofNat off).toNat = _
      rw [hoff]
      exact acc.1
    · show UInt32.ofNat off = UInt32.ofNat (UInt32.ofNat off).toNat
      rw [hoff]
    · show ∀ b ∈ (view cfg m' r).bytesAt ((UInt32.ofNat off).toNat + hdrSize) h.destinationLen.toNat,
        b ≠ 0
      rw [hoff]
      exact acc.2
  · -- behind it
    have hbehind := (rest.mem hm).2
    refine hx.congr_at ?_
    show AgreeOn _ _ (UInt32.ofNat o).toNat ((UInt32.ofNat o).toNat + x.totalSize)
    rw [hoff]
    exact dmg.behind.mono (by omega) (by omega)

/-- Where it does not, it finds the log in front of the record. -/
theorem Damaged.rejected (dmg : Damaged cfg m r off h m') (hl : Logged cfg labels (.off m))
    (hs : ShelvedSystem cfg (.off m)) (hrej : acceptAt cfg (view cfg m' r) off = none)
    {Q : List UInt64 → Prop} (hQ : ∀ before after e, Log cfg (view cfg m r) dataStart
      (before ++ (off, h) :: after) e → acceptAt cfg (view cfg m r) e = none →
      RunLog cfg h labels (view cfg m r) (before ++ (off, h) :: after) e →
      Q ((replay cfg before).index.map (·.id))) :
    Image (clean cfg) m' fun q => Q (messageIds q) := by
  obtain ⟨before, after, e, log, hstop, first, rest, _⟩ := dmg.parts
  have run := hl.runLog h hs dmg.active log hstop
  have hbounds := log.mem (List.mem_append_right before List.mem_cons_self)
  have hend : e ≤ cfg.regionSize :=
    log.le_regionSize rfl (by have := cfg.dataCapacity_eq; omega)
  refine dmg.image hl first hrej ?_ ?_ (hQ before after e log hstop run)
  · intro o x hm ht
    have hx := run.shelved o x (List.mem_append_left _ hm) ht
    have hbefore := (first.mem hm).2
    have hoff : (UInt32.ofNat o).toNat = o := cfg.toNat_offset (by omega)
    have hle : (x.indexEntry o).messageOffset.toNat + (x.indexEntry o).recordSize ≤ off := by
      show (UInt32.ofNat o).toNat + x.totalSize ≤ off
      rw [hoff]
      exact hbefore.2
    have hx' : Located cfg (view cfg m r) off (x.indexEntry o) :=
      ⟨hx.record, hx.lower, hle, hx.destinationLen_le, hx.payloadLen_le, hx.destination_ne⟩
    exact hx'.congr (dmg.before.mono (Nat.zero_le _) (Nat.le_add_right _ _))
  · have hlive := @liveBytes_replay_le cfg before
    have hsum := first.sum_totalSize
    have hcap := cfg.dataCapacity_eq
    have hmin : updateSize ≤ h.totalSize := h.updateSize_le
    omega

/-- Damage that spares the others leaves a partition with all of them. -/
theorem Damaged.clean (dmg : Damaged cfg m r off h m') (hl : Logged cfg labels (.off m))
    (hs : ShelvedSystem cfg (.off m))
    (spared : Spared cfg (view cfg m r) (view cfg m' r) off h (liveIds labels)) :
    CleanSystem cfg h.messageId labels (.off m') := by
  rcases spared with hacc | ⟨hrej, hnone⟩
  · exact dmg.accepted hl hs hacc
  · refine dmg.rejected hl hs hrej fun before after e log hstop run => run.front fun o x hm hx => ?_
    have hlow := (log.split_at.2.2.mem hm).2.1
    have hmin : updateSize ≤ h.totalSize := h.updateSize_le
    have hpos : 0 < updateSize := by decide
    exact hnone _ e log hstop o x (List.mem_append_right _ (List.mem_cons_of_mem _ hm)) (by omega) hx

end Damaged

/-- A running backend accepts every message that it has room for. -/
def FlashqSystem.accepts (cfg : FlashqConfig) : FlashqSystem → Prop
  | .on ctx m => ∀ (message : EdgesyncMessage) res s', message.Encodes cfg →
      (StorageOp.enqueue message).Fits cfg.maxMessageSize → ctx.index.length < cfg.indexCapacity →
      liveBytes ctx.index + updateSize + message.recordSize ≤ cfg.dataCapacity →
      FlashqStep cfg (clean cfg).world (.on ctx m) (.call (.enqueue message) res) s' → res = .ok .done
  | .off _ => True

section Contained

variable {cfg : FlashqConfig} {d : UInt64} {labels : List FlashqStepLabel}

/-- An append to erased flash works. -/
theorem Effect.enqueue_ok {R : Regime cfg} {c c' : Core} {m m' : Memory}
    {recs recs' : List (Nat × RecordHdr)} {message : EdgesyncMessage}
    {res : Except EspErr StorageReply} (hlossy : ¬ R.lossy)
    (ef : Effect R c m recs (.enqueue message) res c' m' recs') (hencodes : message.Encodes cfg)
    (hroom : c.index.length < cfg.indexCapacity)
    (hspace : liveBytes c.index + updateSize + message.recordSize ≤ cfg.dataCapacity) :
    res = .ok .done := by
  generalize hop : StorageOp.enqueue message = op at ef
  cases ef with
  | refused why =>
    subst hop
    rcases why with ⟨_, hfull⟩ | ⟨_, _, hnot⟩
    · omega
    · exact absurd hencodes hnot
  | looked seen =>
    subst hop
    exact seen.elim
  | full prepared moved low =>
    subst hop
    simp only [StorageOp.neededLen] at low
    omega
  | spoilt lossy prepared moved left => exact absurd lossy hlossy
  | enqueued moved enqueued => rfl
  | claimed selected entry borrowed moved updated => exact absurd hop (by simp)
  | retired retires found entry moved updated => rfl
  | retried found entry moved updated => rfl

theorem CleanSystem.accepts {s : FlashqSystem} (h : CleanSystem cfg d labels s) : s.accepts cfg := by
  cases s with
  | off m => trivial
  | on ctx m =>
    obtain ⟨⟨recs, b⟩, _⟩ := h
    intro message res s' hencodes hfits hroom hspace step
    have hquiet : ¬ (clean cfg).mayFail := fun h => h
    cases step with
    | returned run =>
      obtain ⟨_, ef⟩ := call_returned hquiet b hfits run
      exact ef.enqueue_ok (fun h => h) hencodes hroom hspace
    | failed run =>
      obtain ⟨_, ef⟩ := call_failed hquiet b hfits run
      exact ef.enqueue_ok (fun h => h) hencodes hroom hspace

end Contained

/-! ## Two damaged records -/

section Scripts

/-- The partition with the first payload byte of the record at `off` cleared. -/
def cleared (m : Memory) (off : Nat) : Memory :=
  m.program (roomyConfig.regionOffset 0 + (off + hdrSize + 1)) [0]

end Scripts

end EdgeSync
