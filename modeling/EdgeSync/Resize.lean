/-
  Resize.lean --- reopening a queue under another `max_messages`.

  The flash queue applies the new setting while it replays the log, where messages
  that are long done still take entries.  The NVS backend looks only at as many slots
  as the new setting allows.  Either keeps a message that is owed exactly when its
  place, in the log or among the slots, is within the new setting.
-/
import EdgeSync.Flashq.Resized
import EdgeSync.Agreement

set_option autoImplicit false

namespace EdgeSync

open Foundation

/-! ## The slots of the NVS backend -/

/-- The configuration with another `max_messages`. -/
def NvsConfig.resized (cfg : NvsConfig) (n : UInt32) (hn : n ≠ 0) : NvsConfig :=
  { cfg with
    maxMessages := n
    maxMessages_ne := hn }

/-- A running backend indexes the messages. -/
def StorageSystem.indexes {B : StorageBackend} : StorageSystem B → List UInt64 → Prop
  | .on ctx _, ids => ∀ id ∈ ids, id ∈ (B.metas ctx).map (·.id)
  | .off _, _ => True

section Slots

variable {cfg : NvsConfig} {usage : BlobStore → UInt32 × UInt32} {labels : List FlashqStepLabel}
  {ctx : NvsCtx} {s : BlobStore}

/-- The slots hold what is owed. -/
def NvsLive (cfg : NvsConfig) {usage : BlobStore → UInt32 × UInt32} (labels : List FlashqStepLabel) :
    StorageSystem (nvsBackend usage cfg) → Prop
  | .on ctx s => NvsBase cfg ctx s ∧ NvsOnly ctx s ∧ LiveQueue labels (ctx.queue s)
  | .off s => Recorded cfg s ∧ InSlots cfg s ∧
      LiveQueue labels (storedQueue s cfg.maxMessages.toNat)

theorem messageIds_nvsQueue (ctx : NvsCtx) (s : BlobStore) :
    messageIds (ctx.queue s) = ctx.metas.map (·.id) := by
  rw [← metas_nvsQueue ctx s, metas, List.map_map]
  rfl

theorem messageIds_restarted (q : List StoredMessage) :
    messageIds (q.map StoredMessage.restarted) = messageIds q := by
  rw [messageIds, List.map_map]
  refine List.map_congr_left fun x _ => ?_
  have h := congrArg EntryMeta.id x.restarted_toEntryMeta
  exact h

theorem LiveQueue.of_perm {q q' : List StoredMessage} (h : LiveQueue labels q) (hperm : q'.Perm q) :
    LiveQueue labels q' := (hperm.map _).trans h

/-- One step of a store that works. -/
theorem NvsLive.step {sys sys' : StorageSystem (nvsBackend usage cfg)} {label : FlashqStepLabel}
    (hmax : cfg.maxMessages.toNat ≤ 100000) (h : NvsLive cfg labels sys)
    (step : StorageStep (nvsBackend usage cfg) (nvsWorld usage cfg quietStore) sys label sys')
    (hlen : ∀ op, label.op? = some op → op.Counted) : NvsLive cfg (labels ++ [label]) sys' := by
  cases step with
  | @call ctx ctx' s s' op res run =>
    obtain ⟨b, honly, hlive⟩ := h
    have ef := nvs_returned quietStore_no_fail b (hlen _ rfl) run
    obtain ⟨b', hstep⟩ := ef.step b (b.freshKey hmax op) (hlen _ rfl)
    exact ⟨b', ef.only honly, hstep.live hlive⟩
  | cut run => exact absurd run quietStore_not_cut
  | stop =>
    obtain ⟨b, honly, hlive⟩ := h
    refine ⟨b.recorded honly, b.inSlots honly, LiveQueue.restart rfl (hlive.of_perm ?_)⟩
    exact b.perm_storedQueue honly (distinctKeys hmax _)
  | boot picked run =>
    cases picked
    obtain ⟨hrec, hin, hlive⟩ := h
    obtain ⟨b, honly, hq, _⟩ := nvs_recovered quietStore_no_fail hrec hin (distinctKeys hmax _) run
    refine ⟨b, honly, LiveQueue.restart rfl (hlive.of_messageIds ?_)⟩
    rw [hq, messageIds_restarted]
  | bootFail picked run =>
    cases picked
    exact (nvs_recovered quietStore_no_fail h.1 h.2.1 (distinctKeys hmax _) run).elim
  | bootCut picked run =>
    cases picked
    exact absurd run quietStore_not_cut

theorem NvsLive.run {sys sys' : StorageSystem (nvsBackend usage cfg)}
    {labels' : List FlashqStepLabel} (hmax : cfg.maxMessages.toNat ≤ 100000)
    (h : NvsLive cfg labels sys)
    (run : StorageRun (nvsBackend usage cfg) (nvsWorld usage cfg quietStore) sys labels' sys')
    (hlen : ∀ op ∈ callsOf labels', op.Counted) : NvsLive cfg (labels ++ labels') sys' := by
  induction run with
  | nil => rwa [List.append_nil]
  | @snoc labels' s1 s2 label run step ih =>
    rw [← List.append_assoc]
    refine (ih fun op hop => hlen op ?_).step hmax step fun op hop => hlen op ?_
    · rw [callsOf_snoc]
      exact List.mem_append_left _ hop
    · rw [callsOf_snoc, hop]
      exact List.mem_append_right _ List.mem_cons_self

theorem nvsLive_empty : @NvsLive cfg usage [] (.off emptyStore) := by
  have hnone : storedQueue emptyStore cfg.maxMessages.toNat = [] :=
    List.filterMap_eq_nil_iff.mpr fun i _ => rfl
  refine ⟨fun k data hk => absurd hk (by simp [emptyStore]),
    fun k data hk => absurd hk (by simp [emptyStore]), ?_⟩
  rw [hnone]
  exact .refl _

theorem NvsLive.indexes {sys : StorageSystem (nvsBackend usage cfg)} (h : NvsLive cfg labels sys) :
    sys.indexes (liveIds labels) := by
  cases sys with
  | off s => trivial
  | on ctx s =>
    have hlive : (messageIds (NvsCtx.queue ctx s)).Perm (liveIds labels) := h.2.2
    have hids := messageIds_nvsQueue ctx s
    exact fun id hid => hids ▸ hlive.mem_iff.mpr hid

end Slots

section Resized

variable {cfg : NvsConfig} {usage : BlobStore → UInt32 × UInt32} {labels : List FlashqStepLabel}
  {s : BlobStore} {n : UInt32} {hn : n ≠ 0}

theorem Recorded.resized (h : Recorded cfg s) : Recorded (cfg.resized n hn) s := by
  intro k data hk
  obtain ⟨x, hx, hdata⟩ := h k data hk
  exact ⟨x, ⟨hx.destination_ne, hx.destination_le, hx.destinationLen, hx.payloadLen, hx.record_le⟩,
    hdata⟩

/-- The first slots come first. -/
theorem storedQueue_add (s : BlobStore) (k d : Nat) : storedQueue s (k + d) =
    storedQueue s k ++ ((List.range d).map (k + ·)).filterMap (storedMessage s) := by
  rw [storedQueue, storedQueue, List.range_add, List.filterMap_append]

theorem mem_messageIds_storedQueue {id : UInt64} {k : Nat} :
    id ∈ messageIds (storedQueue s k) ↔ ∃ i x, i < k ∧ storedMessage s i = some x ∧ x.id = id := by
  rw [messageIds, List.mem_map]
  constructor
  · rintro ⟨x, hx, rfl⟩
    obtain ⟨i, hi, hxi⟩ := List.mem_filterMap.mp hx
    exact ⟨i, x, List.mem_range.mp hi, hxi, rfl⟩
  · rintro ⟨i, x, hi, hx, rfl⟩
    exact ⟨x, List.mem_filterMap.mpr ⟨i, List.mem_range.mpr hi, hx⟩, rfl⟩

/-- With unique ids a message is in one slot. -/
theorem slot_unique {k i j : Nat} {x y : StoredMessage} (hu : (messageIds (storedQueue s k)).Nodup)
    (hi : i < k) (hj : j < k) (hx : storedMessage s i = some x) (hy : storedMessage s j = some y)
    (hid : x.id = y.id) : i = j := by
  by_contra hne
  -- the later of the two would repeat the id of the earlier
  have hlater : ∀ {i j : Nat} {x y : StoredMessage}, i < j → j < k → storedMessage s i = some x →
      storedMessage s j = some y → x.id ≠ y.id := by
    intro i j x y hij hj hx hy hid
    obtain ⟨d, rfl⟩ := Nat.exists_eq_add_of_lt hj
    rw [Nat.add_assoc, storedQueue_add, messageIds, List.map_append] at hu
    refine List.disjoint_of_nodup_append hu (a := x.id) ?_ ?_
    · exact mem_messageIds_storedQueue.mpr ⟨i, x, hij, hx, rfl⟩
    · rw [hid]
      refine List.mem_map.mpr ⟨y, List.mem_filterMap.mpr ⟨j, ?_, hy⟩, rfl⟩
      exact List.mem_map.mpr ⟨0, List.mem_range.mpr (Nat.succ_pos _), Nat.add_zero j⟩
  rcases Nat.lt_or_gt_of_ne hne with h | h
  · exact hlater h hj hx hy hid
  · exact hlater h hi hy hx hid.symm

/-- A restart finds all that is owed exactly when all of it is within the new
setting. -/
theorem NvsLive.found_iff (h : @NvsLive cfg usage labels (.off s))
    (hu : (publishedIds labels).Nodup) :
    (∀ id ∈ liveIds labels, id ∈ messageIds (storedQueue s n.toNat)) ↔
      InSlots (cfg.resized n hn) s := by
  obtain ⟨hrec, hin, hlive⟩ := h
  have hstored : ∀ {i x}, storedMessage s i = some x →
      s (slotKey (UInt32.ofNat i)) = some x.blob := by
    intro i x hx
    rcases hrec.cases i with ⟨_, hnone⟩ | ⟨y, _, hsome, hy⟩
    · rw [hx] at hnone
      exact absurd hnone (by simp)
    · obtain rfl := Option.some.inj (hx.symm.trans hy)
      exact hsome
  constructor
  · intro hall k data hk
    obtain ⟨i, hi, rfl⟩ := hin k data hk
    rcases hrec.cases i with ⟨hnone, _⟩ | ⟨x, _, _, hx⟩
    · rw [hk] at hnone
      exact absurd hnone (by simp)
    have hmem := hlive.mem_iff.mp (mem_messageIds_storedQueue.mpr ⟨i, x, hi, hx, rfl⟩)
    obtain ⟨j, y, hj, hy, hid⟩ := mem_messageIds_storedQueue.mp (hall x.id hmem)
    by_cases hin : i < n.toNat
    · exact ⟨i, hin, rfl⟩
    · have hji : j < cfg.maxMessages.toNat := by omega
      have hnodup := hlive.nodup_iff.mpr (nodup_liveIds hu).1
      obtain rfl := slot_unique hnodup hji hi hy hx hid
      exact absurd hj hin
  · intro hslots id hid
    obtain ⟨i, x, hi, hx, rfl⟩ := mem_messageIds_storedQueue.mp (hlive.mem_iff.mpr hid)
    obtain ⟨j, hj, hkey⟩ := hslots _ _ (hstored hx)
    refine mem_messageIds_storedQueue.mpr ⟨j, x, hj, ?_, rfl⟩
    rw [storedMessage, hkey]
    exact hx

/-- All that is owed is within the new setting. -/
theorem NvsLive.resized (h : @NvsLive cfg usage labels (.off s))
    (hu : (publishedIds labels).Nodup) (hmax : cfg.maxMessages.toNat ≤ 100000)
    (hmax' : n.toNat ≤ 100000) (hslots : InSlots (cfg.resized n hn) s) :
    @NvsLive (cfg.resized n hn) usage labels (.off s) := by
  have hfound := (h.found_iff hu).mpr hslots
  obtain ⟨hrec, hin, hlive⟩ := h
  -- nothing is stored behind the slots of the old setting
  have hold : ∀ {i x}, i < n.toNat → storedMessage s i = some x → i < cfg.maxMessages.toNat := by
    intro i x hi hx
    rcases hrec.cases i with ⟨_, hnone⟩ | ⟨y, _, hsome, _⟩
    · rw [hx] at hnone
      exact absurd hnone (by simp)
    · obtain ⟨j, hj, hkey⟩ := hin _ _ hsome
      have h1 := @slot_toNat (cfg.resized n hn) i hi
      have h2 := slot_toNat hj
      simp only [slotKey, h1, h2] at hkey
      omega
  have hnodup : (messageIds (storedQueue s n.toNat)).Nodup := by
    have hall := hlive.nodup_iff.mpr (nodup_liveIds hu).1
    rcases Nat.le_total n.toNat cfg.maxMessages.toNat with hle | hle
    · obtain ⟨d, hd⟩ := Nat.exists_eq_add_of_le hle
      rw [hd, storedQueue_add, messageIds, List.map_append] at hall
      exact hall.of_append_left
    · obtain ⟨d, hd⟩ := Nat.exists_eq_add_of_le hle
      have hrest : ((List.range d).map (cfg.maxMessages.toNat + ·)).filterMap (storedMessage s) = [] := by
        refine List.filterMap_eq_nil_iff.mpr fun i hi => ?_
        obtain ⟨k, hk, rfl⟩ := List.mem_map.mp hi
        have hk := List.mem_range.mp hk
        cases hx : storedMessage s (cfg.maxMessages.toNat + k) with
        | none => rfl
        | some x =>
          have := hold (by omega) hx
          omega
      rw [hd, storedQueue_add, hrest, List.append_nil]
      exact hall
  refine ⟨hrec.resized, hslots, (List.perm_ext_iff_of_nodup hnodup (nodup_liveIds hu).1).mpr
    fun id => ⟨fun hid => ?_, hfound id⟩⟩
  obtain ⟨i, x, hi, hx, rfl⟩ := mem_messageIds_storedQueue.mp hid
  exact hlive.mem_iff.mp (mem_messageIds_storedQueue.mpr ⟨i, x, hold hi hx, hx, rfl⟩)

/-- A restart under the other setting indexes all that is owed only if all of it is
within the setting. -/
theorem NvsLive.indexes_iff {sys : StorageSystem (nvsBackend usage (cfg.resized n hn))}
    (h : @NvsLive cfg usage labels (.off s)) (hu : (publishedIds labels).Nodup)
    (hmax' : n.toNat ≤ 100000)
    (step : StorageStep (nvsBackend usage (cfg.resized n hn))
      (nvsWorld usage (cfg.resized n hn) quietStore) (.off s) .booted sys) :
    sys.indexes (liveIds labels) ↔ InSlots (cfg.resized n hn) s := by
  rw [← h.found_iff hu]
  cases step with
  | @boot env ctx' _ s' picked run =>
    cases picked
    have hmeets := wp_sound run (wp_nvsOpRecover
      (P := ⟨fun _ (ctx' : NvsCtx) s' => ctx'.queue s' =
        (storedQueue s n.toNat).map StoredMessage.restarted, fun _ _ _ => True, fun _ => True⟩)
      h.1.resized (distinctKeys hmax' _)
      (fun _ _ _ hfound _ => (hfound fun hf =>
        quietStore_no_fail _ _ hf.choose_spec.choose_spec.2).1)
      (fun _ _ _ _ _ _ => trivial) fun _ _ => trivial)
    have hq : messageIds (NvsCtx.queue ctx' s') = messageIds (storedQueue s n.toNat) := by
      rw [← messageIds_restarted (storedQueue s n.toNat)]
      exact congrArg messageIds hmeets
    have hids := messageIds_nvsQueue ctx' s'
    rw [← hq, hids]
    exact Iff.rfl

end Resized

/-! ## Both backends -/

/-- A queue that is reopened under another setting loses nothing of what is owed,
in no later run, if all of it lies within the new setting.  If a restart indexes all
of it, it does. -/
theorem recover_resized {cfg : FlashqConfig} {cfgN : NvsConfig}
    {usage : BlobStore → UInt32 × UInt32} {n : UInt32} {hn : n ≠ 0}
    {labels labelsN : List FlashqStepLabel} {m : Memory} {s : BlobStore}
    (run : FlashqRun cfg quietWorld (.off erasedFlash) labels (.off m))
    (hu : (publishedIds labels).Nodup) (hfit : AllFit cfg labels)
    (runN : StorageRun (nvsBackend usage cfgN) (nvsWorld usage cfgN quietStore) (.off emptyStore)
      labelsN (.off s))
    (huN : (publishedIds labelsN).Nodup) (hlen : ∀ op ∈ callsOf labelsN, op.Counted)
    (hmax : cfgN.maxMessages.toNat ≤ 100000 ∧ n.toNat ≤ 100000) :
    ((ScanKeeps cfg labels m n.toNat → ∀ labels' sys,
        FlashqRun (cfg.resized n hn) quietWorld (.off m) labels' sys →
        (publishedIds (labels ++ labels')).Nodup → AllFit (cfg.resized n hn) labels' →
        sys.indexes (liveIds (labels ++ labels'))) ∧
      ∀ sys, FlashqStep (cfg.resized n hn) quietWorld (.off m) .booted sys →
        (sys.indexes (liveIds labels) ↔ ScanKeeps cfg labels m n.toNat)) ∧
    ((InSlots (cfgN.resized n hn) s → ∀ labels' sys,
        StorageRun (nvsBackend usage (cfgN.resized n hn))
          (nvsWorld usage (cfgN.resized n hn) quietStore) (.off s) labels' sys →
        (∀ op ∈ callsOf labels', op.Counted) → sys.indexes (liveIds (labelsN ++ labels'))) ∧
      ∀ sys, StorageStep (nvsBackend usage (cfgN.resized n hn))
          (nvsWorld usage (cfgN.resized n hn) quietStore) (.off s) .booted sys →
        (sys.indexes (liveIds labelsN) ↔ InSlots (cfgN.resized n hn) s)) := by
  have hlog : Logged cfg labels (.off m) := logged_erased.run run hu hfit
  have hlive : @NvsLive cfgN usage labelsN (.off s) :=
    nvsLive_empty.run hmax.1 runN hlen
  refine ⟨⟨fun hkeeps labels' sys run' hu' hfit' => hlog.run_resized hkeeps run' hu' hfit',
    fun sys step => hlog.indexes_iff step⟩, fun hslots labels' sys run' hlen' => ?_,
    fun sys step => hlive.indexes_iff huN hmax.2 step⟩
  exact ((hlive.resized huN hmax.1 hmax.2 hslots).run hmax.2 run' hlen').indexes

/-! ## Losing a message -/

/-- Two messages, of which the first is delivered. -/
def deliveredScript : FlashqScript :=
  [(.boot, []), (.call (.enqueue ⟨1, [0x61], 1, 5, [1]⟩), []),
    (.call (.enqueue ⟨2, [0x61], 1, 6, [2]⟩), []), (.call (.markDelivered 1), []), (.stop, [])]

/-- What the callers see of it. -/
def deliveredLabels : List FlashqStepLabel :=
  [.booted, .call (.enqueue ⟨1, [0x61], 1, 5, [1]⟩) (.ok .done),
    .call (.enqueue ⟨2, [0x61], 1, 6, [2]⟩) (.ok .done), .call (.markDelivered 1) (.ok .done),
    .stopped]

theorem one_slot : (1 : UInt32) ≠ 0 := by decide

/-- What the run shows, and the restart with an index of one entry. -/
def deliveredShows : List FlashqStepLabel × FlashqSystem → Bool
  | (labels, .off m) => decide (labels = deliveredLabels) &&
      match FlashqSystem.act (smallConfig.resized 1 one_slot) (.off m) .boot [] with
      | some (.booted, .on ctx _) => ctx.index.isEmpty
      | _ => false
  | (_, .on _ _) => false

/-- An index of one entry does not find the message that is owed. -/
theorem delivered_resized : ∃ m sys,
    FlashqRun smallConfig quietWorld (.off erasedFlash) deliveredLabels (.off m) ∧
    FlashqStep (smallConfig.resized 1 (by decide)) quietWorld (.off m) .booted sys ∧
    ¬ sys.indexes [2] := by
  have hcheck : (FlashqSystem.play smallConfig (.off erasedFlash) deliveredScript []).any
      deliveredShows = true := by decide +kernel
  obtain ⟨⟨labels, sys⟩, hplay, hshows⟩ := (Option.any_eq_true _ _).mp hcheck
  cases sys with
  | on ctx m => cases hshows
  | off m =>
    obtain ⟨hlabels, hboot⟩ := Bool.and_eq_true_iff.mp hshows
    obtain rfl := of_decide_eq_true hlabels
    split at hboot
    · rename_i ctx m' hact
      refine ⟨m, .on ctx m', silent_play .nil (by decide) hplay, quiet_act hact, fun hidx => ?_⟩
      have hmem := hidx 2 List.mem_cons_self
      rw [List.isEmpty_iff.mp hboot] at hmem
      exact absurd hmem List.not_mem_nil
    · exact absurd hboot (by simp)

/-- One message is owed, and the restart with room for one message loses it. -/
theorem resized_loses : ∃ m sys,
    FlashqRun smallConfig quietWorld (.off erasedFlash) deliveredLabels (.off m) ∧
    (publishedIds deliveredLabels).Nodup ∧ AllFit smallConfig deliveredLabels ∧
    liveIds deliveredLabels = [2] ∧
    FlashqStep (smallConfig.resized 1 (by decide)) quietWorld (.off m) .booted sys ∧
    ¬ sys.indexes (liveIds deliveredLabels) := by
  obtain ⟨m, sys, run, boot, hlost⟩ := delivered_resized
  exact ⟨m, sys, run, by decide, by decide, by decide, boot, hlost⟩

/-- What the run with one stored message shows. -/
def storedShows :
    List FlashqStepLabel × StorageSystem (nvsBackend noUsage smallStore) → Bool
  | (labels, .off _) => decide (labels =
      [.booted, .call (.enqueue ⟨1, [0x61], 1, 5, [1]⟩) (.ok .done), .stopped])
  | (_, .on _ _) => false

/-- The log of that run has no room for the message, while a store with one message
keeps it. -/
theorem recover_resized_one : ∃ m s labelsN,
    ¬ ScanKeeps smallConfig deliveredLabels m 1 ∧ liveIds labelsN = [1] ∧
    ∀ sys : StorageSystem (nvsBackend noUsage (smallStore.resized 1 (by decide))),
      StorageStep (nvsBackend noUsage (smallStore.resized 1 (by decide)))
        (nvsWorld noUsage (smallStore.resized 1 (by decide)) quietStore) (.off s) .booted sys →
      (sys.indexes [1] ↔ InSlots (smallStore.resized 1 (by decide)) s) := by
  obtain ⟨m, sys, run, boot, hlost⟩ := delivered_resized
  have hcheck : (nvsPlay smallStore (.off emptyStore) [(.boot, []),
      (.call (.enqueue ⟨1, [0x61], 1, 5, [1]⟩), []), (.stop, [])] []).any storedShows = true := by
    decide +kernel
  obtain ⟨⟨labelsN, sysN⟩, hplay, hshows⟩ := (Option.any_eq_true _ _).mp hcheck
  cases sysN with
  | on ctx s => cases hshows
  | off s =>
    obtain rfl := of_decide_eq_true hshows
    have hlen : ∀ op ∈ callsOf [FlashqStepLabel.booted,
        .call (.enqueue ⟨1, [0x61], 1, 5, [1]⟩) (.ok .done), .stopped], op.Counted := by
      intro op hop
      rw [List.mem_singleton.mp hop]
      exact (by decide : ([1] : Bytes).length = 1)
    have hstored := @recover_resized _ _ _ 1 (by decide) _ _ _ _ run (by decide) (by decide)
      (nvsPlay_quiet (by decide) hplay) (by decide) hlen (by decide)
    exact ⟨m, s, [.booted, .call (.enqueue ⟨1, [0x61], 1, 5, [1]⟩) (.ok .done), .stopped],
      fun hkeeps => hlost ((hstored.1.2 sys boot).mpr hkeeps), by decide,
      hstored.2.2⟩

end EdgeSync
