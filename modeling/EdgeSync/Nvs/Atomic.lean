/-
  Nvs/Atomic.lean --- the NVS backend takes every call at once.

  A call writes one blob, and NVS writes a blob wholly or not at all.  The abstract queue
  keeps the messages over a restart in one order or another; the backend finds them in the
  order of their slots (`nvs_slotOrder`), and rewrites those that were in flight.
-/
import EdgeSync.Atomic
import EdgeSync.Foundation.Possible
import EdgeSync.Nvs.Payload
import EdgeSync.Nvs.Script

set_option autoImplicit false

namespace EdgeSync

open Foundation

variable {cfg : NvsConfig}

/-- The two queues hold the same messages after a restart, in one order or another. -/
def SameSlots (q q' : List StoredMessage) : Prop :=
  (q'.map StoredMessage.restarted).Perm (q.map StoredMessage.restarted)

variable (cfg) in
/-- The queue of slots that never loses a message it accepted. -/
def slotQueue : AtomicObject (List StoredMessage) where
  call := SlotStep cfg
  kept := SameSlots
  restart q q' := q' = q.map StoredMessage.restarted

/-- The queue of a system. -/
def nvsPowered {usage : BlobStore → UInt32 × UInt32} :
    StorageSystem (nvsBackend usage cfg) → Powered (List StoredMessage)
  | .off s => .off (storedQueue s cfg.maxMessages.toNat)
  | .on ctx s => .on (NvsCtx.queue ctx s)

section Steps

variable {usage : BlobStore → UInt32 × UInt32} {ctx : NvsCtx} {s s' : BlobStore}

theorem SameSlots.of_perm {q q' : List StoredMessage} (h : q'.Perm q) : SameSlots q q' := h.map _

/-- What a restart would find of a running backend. -/
theorem NvsBase.sameSlots (hmax : cfg.maxMessages.toNat ≤ 100000) (b : NvsBase cfg ctx s)
    (honly : NvsOnly ctx s) : SameSlots (ctx.queue s) (storedQueue s cfg.maxMessages.toNat) :=
  .of_perm (b.perm_storedQueue honly (distinctKeys hmax _))

/-- A restart that was cut may have requeued some of the messages. -/
theorem Requeued.sameSlots (h : Requeued cfg s s') (n : Nat) :
    SameSlots (storedQueue s n) (storedQueue s' n) := by
  refine List.Perm.of_eq ?_
  rw [storedQueue, storedQueue, List.map_filterMap, List.map_filterMap]
  refine List.filterMap_congr fun i _ => ?_
  rcases h (slotKey (UInt32.ofNat i)) with hsame | ⟨x, hx, hold, hnew⟩
  · rw [storedMessage, storedMessage, hsame]
  · rw [storedMessage_eq hx hold, storedMessage_eq hx.restarted hnew]
    exact congrArg some x.restarted_restarted

/-- Every step of the backend is a step of the queue. -/
theorem nvs_atomicStep {sys sys' : StorageSystem (nvsBackend usage cfg)} {label : FlashqStepLabel}
    (hmax : cfg.maxMessages.toNat ≤ 100000) (h : NvsSound cfg sys)
    (step : StorageStep (nvsBackend usage cfg) (nvsWorld usage cfg workingStore) sys label sys')
    (hlen : ∀ op, label.op? = some op → op.Counted) :
    AtomicStep (slotQueue cfg) (nvsPowered sys) label (nvsPowered sys') := by
  have hno : ∀ s c, ¬ workingStore s c .fail := fun _ _ h => h rfl
  cases step with
  | @call ctx ctx' s s' op res run =>
    obtain ⟨b, honly⟩ := h
    have ef := nvs_returned hno b (hlen _ rfl) run
    exact .call (ef.step b (b.freshKey hmax op) (hlen _ rfl)).2
  | @cut ctx s s' op run =>
    obtain ⟨b, honly⟩ := h
    rcases nvs_cut b (hlen _ rfl) run with rfl | ⟨reply, ctx', ef⟩
    · exact .undone (b.sameSlots hmax honly)
    · obtain ⟨b', step⟩ := ef.step b (b.freshKey hmax op) (hlen _ rfl)
      exact .done step (b'.sameSlots hmax (ef.only honly))
  | stop =>
    obtain ⟨b, honly⟩ := h
    exact .stopped (b.sameSlots hmax honly)
  | boot picked run =>
    cases picked
    obtain ⟨_, _, hq, _⟩ := nvs_recovered hno h.1 h.2 (distinctKeys hmax _) run
    exact .booted hq
  | bootFail picked run =>
    cases picked
    exact (nvs_recovered hno h.1 h.2 (distinctKeys hmax _) run).elim
  | bootCut picked run =>
    cases picked
    have hr := nvs_recovered hno h.1 h.2 (distinctKeys hmax _) run
    exact .bootCut (Requeued.sameSlots hr _)

theorem nvs_atomic {sys : StorageSystem (nvsBackend usage cfg)} {labels : List FlashqStepLabel}
    (hmax : cfg.maxMessages.toNat ≤ 100000)
    (run : StorageRun (nvsBackend usage cfg) (nvsWorld usage cfg workingStore) (.off emptyStore)
      labels sys) (hlen : ∀ op ∈ callsOf labels, op.Counted) :
    NvsSound cfg sys ∧ StepRun (AtomicStep (slotQueue cfg)) (.off []) labels (nvsPowered sys) := by
  induction run with
  | nil =>
    have hnone : storedQueue emptyStore cfg.maxMessages.toNat = [] :=
      List.filterMap_eq_nil_iff.mpr fun i _ => rfl
    refine ⟨⟨fun k data hk => absurd hk (by simp [emptyStore]),
      fun k data hk => absurd hk (by simp [emptyStore])⟩, ?_⟩
    show StepRun _ _ [] (Powered.off (storedQueue emptyStore cfg.maxMessages.toNat))
    rw [hnone]
    exact .nil
  | @snoc labels s1 s2 label run step ih =>
    obtain ⟨sound, arun⟩ := ih fun op hop => hlen op (by
      rw [callsOf_snoc]
      exact List.mem_append_left _ hop)
    have hlast : ∀ op, label.op? = some op → op.Counted := fun op hop => hlen op (by
      rw [callsOf_snoc, hop]
      exact List.mem_append_right _ List.mem_cons_self)
    exact ⟨sound.step (fun _ _ h => h rfl) step (keysApart hmax sound label) hlast,
      arun.snoc (nvs_atomicStep hmax sound step hlast)⟩

/-- The slots that a restart goes through are in order. -/
theorem recoveredIndex_slots (s : BlobStore) {n : Nat} (hn : n ≤ 2 ^ 32) :
    ((recoveredIndex s n).map (·.slot)).Pairwise (· < ·) := by
  rw [recoveredIndex, List.map_filterMap]
  refine List.Pairwise.filterMap _ ?_
    (List.Pairwise.and_mem.mp (List.pairwise_lt_range (n := n)))
  rintro i i' ⟨hi, hi', hlt⟩ slot hslot slot' hslot'
  have hval : ∀ {k : Nat} {w : UInt32},
      ((storedMessage s k).map fun x => (⟨x.toEntryMeta, UInt32.ofNat k⟩ : NvsIndexEntry)).map
        (·.slot) = some w → w = UInt32.ofNat k := by
    intro k w h
    cases hm : storedMessage s k with
    | none => simp [hm] at h
    | some x => simpa [hm] using h.symm
  rw [hval hslot, hval hslot', UInt32.lt_iff_toNat_lt]
  have h1 := List.mem_range.mp hi
  have h2 := List.mem_range.mp hi'
  rwa [UInt32.toNat_ofNat_of_lt' (by simp only [UInt32.size]; omega),
    UInt32.toNat_ofNat_of_lt' (by simp only [UInt32.size]; omega)]

/-- A restart finds what is stored, in the order of the slots. -/
theorem nvs_slotOrder (hmax : cfg.maxMessages.toNat ≤ 100000)
    {sys : StorageSystem (nvsBackend usage cfg)} (h : NvsSound cfg sys)
    (step : StorageStep (nvsBackend usage cfg) (nvsWorld usage cfg workingStore) sys .booted
      (.on ctx s)) :
    ctx.queue s = (storedQueue sys.dev cfg.maxMessages.toNat).map StoredMessage.restarted ∧
      (ctx.index.map (·.slot)).Pairwise (· < ·) := by
  have hno : ∀ s c, ¬ workingStore s c .fail := fun _ _ h => h rfl
  cases sys with
  | on ctx0 s0 => cases step
  | off s0 =>
    cases step with
    | boot picked run =>
      cases picked
      refine wp_sound (P := ⟨fun _ (ctx' : NvsCtx) s' =>
          ctx'.queue s' = (storedQueue s0 cfg.maxMessages.toNat).map StoredMessage.restarted ∧
            (ctx'.index.map (·.slot)).Pairwise (· < ·), fun _ _ _ => True, fun _ => True⟩) run ?_
      refine wp_nvsOpRecover h.1 (distinctKeys hmax _) (fun ctx' s' _ hfound _ => ?_)
        (fun _ _ _ _ _ _ => trivial) fun _ _ => trivial
      obtain ⟨hqueue, hslots⟩ := hfound fun hf => hno _ _ hf.choose_spec.choose_spec.2
      refine ⟨hqueue, ?_⟩
      rw [hslots]
      exact recoveredIndex_slots _ (by omega)

/-- The power may go during any call: below 100000 messages the NVS backend is atomic.  A
restart of what it leaves finds the messages in the order of their slots. -/
theorem nvs_crash_atomic {labels : List FlashqStepLabel}
    {sys : StorageSystem (nvsBackend usage cfg)} (hmax : cfg.maxMessages.toNat ≤ 100000)
    (run : StorageRun (nvsBackend usage cfg) (nvsWorld usage cfg workingStore) (.off emptyStore)
      labels sys) (hlen : ∀ op ∈ callsOf labels, op.Counted) :
    StepRun (AtomicStep (slotQueue cfg)) (.off []) labels (nvsPowered sys) ∧
    ∀ ctx s, StorageStep (nvsBackend usage cfg) (nvsWorld usage cfg workingStore) sys .booted
        (.on ctx s) →
      NvsCtx.queue ctx s = (storedQueue sys.dev cfg.maxMessages.toNat).map StoredMessage.restarted ∧
        ((NvsCtx.index ctx).map (·.slot)).Pairwise (· < ·) := by
  obtain ⟨sound, arun⟩ := nvs_atomic hmax run hlen
  exact ⟨arun, fun ctx s step => nvs_slotOrder hmax sound step⟩

end Steps

/-- The power goes while a message is stored, and again while the backend starts. -/
def cutSlotScript : NvsScript :=
  [(.boot, []), (.call (.enqueue ⟨1, [0x61], 1, 5, [1, 2, 3]⟩), []),
    (.call (.enqueue ⟨2, [0x61], 1, 6, [4, 5, 6]⟩), [.cut true]), (.boot, [.cut false]), (.boot, [])]

/-- What the callers see of it. -/
def cutSlotLabels : List FlashqStepLabel :=
  [.booted, .call (.enqueue ⟨1, [0x61], 1, 5, [1, 2, 3]⟩) (.ok .done),
    .callCut (.enqueue ⟨2, [0x61], 1, 6, [4, 5, 6]⟩), .bootCut, .booted]

/-- A running backend shows the labels, and holds messages with these payloads. -/
def nvsHolds (cfg : NvsConfig) (labels : List FlashqStepLabel) (payloads : List Bytes) :
    List FlashqStepLabel × NvsSystem noUsage cfg → Bool
  | (labels', .on ctx s) =>
      decide (labels' = labels ∧ (NvsCtx.queue ctx s).map (·.payload) = payloads)
  | (_, .off _) => false

theorem nvsHolds_shows {labels : List FlashqStepLabel} {payloads : List Bytes}
    {x : List FlashqStepLabel × NvsSystem noUsage cfg} (h : nvsHolds cfg labels payloads x = true) :
    ∃ ctx s, x = (labels, .on ctx s) ∧ (NvsCtx.queue ctx s).map (·.payload) = payloads := by
  obtain ⟨labels', sys⟩ := x
  cases sys with
  | off s => cases h
  | on ctx s =>
    obtain ⟨rfl, hpayload⟩ := of_decide_eq_true h
    exact ⟨ctx, s, rfl, hpayload⟩

theorem nvs_crash_atomic_cut : ∃ ctx s,
    StorageRun (nvsBackend noUsage slotConfig) (nvsWorld noUsage slotConfig workingStore)
      (.off emptyStore) cutSlotLabels (.on ctx s) ∧
    (NvsCtx.queue ctx s).map (·.payload) = [[1, 2, 3], [4, 5, 6]] ∧
    StepRun (AtomicStep (slotQueue slotConfig)) (.off []) cutSlotLabels (.on (NvsCtx.queue ctx s)) := by
  have hcheck : (nvsPlay slotConfig (.off emptyStore) cutSlotScript []).any
      (nvsHolds slotConfig cutSlotLabels [[1, 2, 3], [4, 5, 6]]) = true := by decide +kernel
  obtain ⟨x, hplay, hholds⟩ := (Option.any_eq_true _ _).mp hcheck
  obtain ⟨ctx, s, rfl, hpayload⟩ := nvsHolds_shows hholds
  have hrun : StorageRun (nvsBackend noUsage slotConfig) (nvsWorld noUsage slotConfig workingStore)
      (.off emptyStore) cutSlotLabels (.on ctx s) := by
    refine nvsPlay_run (fun _ _ => by simp [workingStore]) (fun x hx ev hev s c => ?_) .nil hplay
    rintro rfl
    have hno : ∀ x ∈ cutSlotScript, BlobEvent.fail ∉ x.2 := by decide
    exact hno x hx hev
  exact ⟨ctx, s, hrun, hpayload, (nvs_crash_atomic (by decide) hrun (by
    simp [cutSlotLabels, callsOf, FlashqStepLabel.op?, StorageOp.Counted,
      EdgesyncMessage.payloadLen])).1⟩

end EdgeSync
