/-
  Nvs/System.lean --- the NVS backend over many calls and many boots.

  The store works, and the power may go at any time.  What a running backend and a
  store at rest satisfy is carried through every step: a call by its effects, a
  restart by the specification of `op_recover`.
-/
import EdgeSync.Backends
import EdgeSync.Nvs.Recovery

set_option autoImplicit false

namespace EdgeSync

open Foundation

variable {cfg : NvsConfig}

/-- No call fails; the power may go during any. -/
def workingStore : Env BlobCall BlobStore BlobEvent := fun _ _ ev => ev ≠ .fail

/-- Every call works. -/
def quietStore : Env BlobCall BlobStore BlobEvent := fun _ _ ev => ev = .run

theorem quietStore_no_fail (s : BlobStore) (c : BlobCall) : ¬ quietStore s c .fail := by
  intro h
  cases h

/-- A store of one kind during calls and restarts. -/
def nvsWorld (usage : BlobStore → UInt32 × UInt32) (cfg : NvsConfig)
    (env : Env BlobCall BlobStore BlobEvent) : StorageWorld (nvsBackend usage cfg) where
  calls := env
  boots env' := env' = env

/-- A store that was never written. -/
def emptyStore : BlobStore := fun _ => none

/-! ## A store at rest -/

section Rest

variable {ctx : NvsCtx} {s s' : BlobStore}

theorem NvsBase.recorded (b : NvsBase cfg ctx s) (h : NvsOnly ctx s) : Recorded cfg s := by
  intro k data hk
  obtain ⟨e, he, rfl⟩ := List.mem_map.mp (h k data hk)
  have hheld := b.held e he
  exact ⟨_, hheld.sized, Option.some.inj (hk.symm.trans hheld.stored)⟩

theorem NvsBase.inSlots (b : NvsBase cfg ctx s) (h : NvsOnly ctx s) : InSlots cfg s := by
  intro k data hk
  obtain ⟨e, he, rfl⟩ := List.mem_map.mp (h k data hk)
  exact ⟨e.slot.toNat, slot_lt b he, by rw [UInt32.ofNat_toNat]⟩

/-- A message is found in its slot. -/
theorem NvsBase.storedMessage_eq (b : NvsBase cfg ctx s) {e : NvsIndexEntry} (he : e ∈ ctx.index) :
    storedMessage s e.slot.toNat = some (slotContent s e) := by
  have hheld := b.held e he
  refine EdgeSync.storedMessage_eq hheld.sized ?_
  rw [UInt32.ofNat_toNat]
  exact hheld.stored

/-- What a restart would find is what the index says, in the order of the slots. -/
theorem NvsBase.perm_storedQueue (b : NvsBase cfg ctx s) (h : NvsOnly ctx s)
    (hk : DistinctKeys cfg s) : (storedQueue s cfg.maxMessages.toNat).Perm (ctx.queue s) := by
  have hs := b.recorded h
  rw [← queue_recoveredIndex hs, NvsCtx.queue]
  refine List.Perm.map _ ((List.perm_ext_iff_of_nodup ?_ ?_).mpr fun e => ?_)
  · exact (nodup_recoveredIndex hk _ (Nat.le_refl _)).of_map _
  · exact b.keys.of_map _
  · rw [mem_recoveredIndex]
    constructor
    · rintro ⟨i, x, hi, hm, rfl⟩
      rcases hs.cases i with ⟨_, hnone⟩ | ⟨y, _, hsome, hy'⟩
      · rw [hm] at hnone
        exact absurd hnone (by simp)
      · obtain rfl := Option.some.inj (hm.symm.trans hy')
        obtain ⟨e, he, hkey⟩ := List.mem_map.mp (h _ _ hsome)
        have hlt := slot_lt b he
        have hslot : e.slot.toNat = i := by
          -- otherwise two slots would share the key of a stored record
          by_contra hne
          have hkey' : slotKey (UInt32.ofNat e.slot.toNat) = slotKey (UInt32.ofNat i) := by
            rw [UInt32.ofNat_toNat]
            exact hkey
          rcases Nat.lt_or_gt_of_ne hne with hlt' | hlt'
          · have hnone := hk _ _ hlt' hi hkey'
            rw [hkey', hsome] at hnone
            exact absurd hnone (by simp)
          · have hnone := hk _ _ hlt' hlt hkey'.symm
            rw [hsome] at hnone
            exact absurd hnone (by simp)
        have hx := b.storedMessage_eq he
        rw [hslot, hm] at hx
        have heq : (⟨x.toEntryMeta, UInt32.ofNat i⟩ : NvsIndexEntry) = e := by
          rw [Option.some.inj hx, ← hslot, UInt32.ofNat_toNat]
          rfl
        rw [heq]
        exact he
    · intro he
      refine ⟨e.slot.toNat, slotContent s e, slot_lt b he, b.storedMessage_eq he, ?_⟩
      rw [UInt32.ofNat_toNat]
      rfl

theorem Requeued.recorded (h : Requeued cfg s s') (hs : Recorded cfg s) : Recorded cfg s' := by
  intro k data hk
  rcases h k with h | ⟨x, hx, _, hnew⟩
  · exact hs k data (h ▸ hk)
  · exact ⟨x.restarted, hx.restarted, Option.some.inj (hk.symm.trans hnew)⟩

theorem Requeued.inSlots (h : Requeued cfg s s') (hs : InSlots cfg s) : InSlots cfg s' := by
  intro k data hk
  rcases h k with h | ⟨x, _, hold, _⟩
  · exact hs k data (h ▸ hk)
  · exact hs k _ hold

end Rest

/-! ## Steps -/

/-- Between two steps. -/
def NvsSound (cfg : NvsConfig) {usage : BlobStore → UInt32 × UInt32} :
    StorageSystem (nvsBackend usage cfg) → Prop
  | .off s => Recorded cfg s ∧ InSlots cfg s
  | .on ctx s => NvsBase cfg ctx s ∧ NvsOnly ctx s

/-- No two slots in use share a key, in the step to come. -/
def KeysApart (cfg : NvsConfig) {usage : BlobStore → UInt32 × UInt32} :
    StorageSystem (nvsBackend usage cfg) → FlashqStepLabel → Prop
  | .off s, _ => DistinctKeys cfg s
  | .on ctx _, label => ∀ op, label.op? = some op → FreshKey ctx op

section Steps

variable {usage : BlobStore → UInt32 × UInt32} {env : Env BlobCall BlobStore BlobEvent}
  {ctx ctx' : NvsCtx} {s s' : BlobStore} {op : StorageOp}

/-- A call that returned. -/
theorem nvs_returned {res : Except EspErr StorageReply} (hno : ∀ s c, ¬ env s c .fail)
    (b : NvsBase cfg ctx s) (hlen : op.Counted)
    (run : Runs (blobDevice usage) env (nvsCall cfg op) ctx s (.returned res ctx' s')) :
    NvsEffect cfg ctx s op res ctx' s' := by
  have hmeets := wp_sound run (wp_nvsCall
    (P := ⟨fun reply ctx' s' => NvsEffect cfg ctx s op (.ok reply) ctx' s',
      fun err ctx' s' => NvsEffect cfg ctx s op (.error err) ctx' s', fun _ => True⟩) b hlen
    (fun _ _ _ ef => ef) (fun _ _ ef => ef) (fun _ _ _ hf => ?_) trivial fun _ _ _ _ => trivial)
  · cases res with
    | ok reply => exact hmeets
    | error err => exact hmeets
  · obtain ⟨_, _, hev⟩ := hf.fails
    exact absurd hev (hno _ _)

/-- A call that was cut. -/
theorem nvs_cut (b : NvsBase cfg ctx s) (hlen : op.Counted)
    (run : Runs (blobDevice usage) env (nvsCall cfg op) ctx s (.cut s')) :
    s' = s ∨ ∃ reply ctx', NvsEffect cfg ctx s op (.ok reply) ctx' s' :=
  wp_sound run (wp_nvsCall
    (P := ⟨fun _ _ _ => True, fun _ _ _ => True, fun s' => s' = s ∨
      ∃ reply ctx', NvsEffect cfg ctx s op (.ok reply) ctx' s'⟩) b hlen
    (fun _ _ _ _ => trivial) (fun _ _ _ => trivial) (fun _ _ _ _ => trivial) (.inl rfl)
    fun reply ctx' _ ef => .inr ⟨reply, ctx', ef⟩)

/-- A quiet store never loses power. -/
theorem quietStore_not_cut {α : Type} {x : NvsM α} :
    ¬ Runs (blobDevice usage) quietStore x ctx s (.cut s') := by
  refine Runs.not_cut fun d c ev d' hev h => ?_
  obtain rfl : ev = .run := hev
  cases c <;> simp [blobDevice] at h

/-- Every program returns. -/
theorem quietStore_returns {α : Type} (x : NvsM α) (ctx : NvsCtx) (s : BlobStore) :
    ∃ res ctx' s', Runs (blobDevice usage) quietStore x ctx s (.returned res ctx' s') := by
  have run : Runs (blobDevice usage) quietStore x ctx s (exec (blobDevice usage) x ctx s []) :=
    @exec_runs _ _ _ _ _ _ _ (blobDevice usage) quietStore (fun _ _ => rfl) x ctx s []
      fun ev hev => absurd hev List.not_mem_nil
  cases ho : exec (blobDevice usage) x ctx s [] with
  | ok a ctx' s' =>
    rw [ho] at run
    exact ⟨.ok a, ctx', s', run⟩
  | error err ctx' s' =>
    rw [ho] at run
    exact ⟨.error err, ctx', s', run⟩
  | cut s' =>
    rw [ho] at run
    exact absurd run quietStore_not_cut

/-- How a restart can end. -/
theorem nvs_recovered {o : Outcome NvsCtx BlobStore EspErr Unit} (hno : ∀ s c, ¬ env s c .fail)
    (hs : Recorded cfg s) (hin : InSlots cfg s) (hk : DistinctKeys cfg s)
    (run : Runs (blobDevice usage) env (nvsOpRecover cfg) ctx s o) :
    o.Meets ⟨fun _ ctx' s' => NvsBase cfg ctx' s' ∧ NvsOnly ctx' s' ∧
        ctx'.queue s' = (storedQueue s cfg.maxMessages.toNat).map StoredMessage.restarted ∧
        Requeued cfg s s', fun _ _ _ => False, fun s' => Requeued cfg s s'⟩ := by
  refine wp_sound run (wp_nvsOpRecover hs hk (fun ctx' s' b hfound hr => ?_)
    (fun _ _ _ f hf _ => absurd hf.choose_spec.choose_spec.2 (hno _ _)) fun _ h => h)
  obtain ⟨hq, hslots⟩ := hfound fun hf => hno _ _ hf.choose_spec.choose_spec.2
  refine ⟨b, fun k data hkey => ?_, hq, hr⟩
  have honly : NvsOnly ctx' s := hin.only hs hslots
  rcases hr k with h | ⟨x, _, hold, _⟩
  · exact honly k data (h ▸ hkey)
  · exact honly k _ hold

/-- A step keeps the system sound. -/
theorem NvsSound.step {sys sys' : StorageSystem (nvsBackend usage cfg)} {label : FlashqStepLabel}
    (hno : ∀ s c, ¬ env s c .fail) (h : NvsSound cfg sys)
    (step : StorageStep (nvsBackend usage cfg) (nvsWorld usage cfg env) sys label sys')
    (hkey : KeysApart cfg sys label) (hlen : ∀ op, label.op? = some op → op.Counted) :
    NvsSound cfg sys' := by
  cases step with
  | call run =>
    obtain ⟨b, honly⟩ := h
    have ef := nvs_returned hno b (hlen _ rfl) run
    exact ⟨(ef.step b (hkey _ rfl) (hlen _ rfl)).1, ef.only honly⟩
  | cut run =>
    obtain ⟨b, honly⟩ := h
    rcases nvs_cut b (hlen _ rfl) run with rfl | ⟨reply, ctx', ef⟩
    · exact ⟨b.recorded honly, b.inSlots honly⟩
    · have b' := (ef.step b (hkey _ rfl) (hlen _ rfl)).1
      exact ⟨b'.recorded (ef.only honly), b'.inSlots (ef.only honly)⟩
  | stop =>
    obtain ⟨b, honly⟩ := h
    exact ⟨b.recorded honly, b.inSlots honly⟩
  | boot picked run =>
    cases picked
    obtain ⟨b, honly, _⟩ := nvs_recovered hno h.1 h.2 hkey run
    exact ⟨b, honly⟩
  | bootFail picked run =>
    cases picked
    exact (nvs_recovered hno h.1 h.2 hkey run).elim
  | bootCut picked run =>
    cases picked
    have hr := nvs_recovered hno h.1 h.2 hkey run
    exact ⟨Requeued.recorded hr h.1, Requeued.inSlots hr h.2⟩

/-- Below 100000 messages the keys differ. -/
theorem keysApart {sys : StorageSystem (nvsBackend usage cfg)} (hmax : cfg.maxMessages.toNat ≤ 100000)
    (h : NvsSound cfg sys) (label : FlashqStepLabel) : KeysApart cfg sys label := by
  cases sys with
  | off s => exact distinctKeys hmax s
  | on ctx s => exact fun op _ => h.1.freshKey hmax op

/-- The NVS backend as a run of `nvsWorld` reaches it. -/
theorem NvsSound.run {sys : StorageSystem (nvsBackend usage cfg)} {labels : List FlashqStepLabel}
    (hmax : cfg.maxMessages.toNat ≤ 100000)
    (run : StorageRun (nvsBackend usage cfg) (nvsWorld usage cfg quietStore) (.off emptyStore) labels
      sys) (hlen : ∀ op ∈ callsOf labels, op.Counted) : NvsSound cfg sys := by
  induction run with
  | nil => exact ⟨fun k data hk => absurd hk (by simp [emptyStore]),
      fun k data hk => absurd hk (by simp [emptyStore])⟩
  | @snoc labels sys1 sys2 label run step ih =>
    have hsound := ih fun op hop => hlen op (by
      rw [callsOf_snoc]
      exact List.mem_append_left _ hop)
    refine hsound.step quietStore_no_fail step (keysApart hmax hsound label)
      fun op hop => hlen op ?_
    rw [callsOf_snoc, hop]
    exact List.mem_append_right _ (List.mem_singleton.mpr rfl)

end Steps

end EdgeSync
