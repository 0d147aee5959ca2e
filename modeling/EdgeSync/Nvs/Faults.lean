/-
  Nvs/Faults.lean --- operations of the NVS backend that end with an error.

  Any store call may fail, in any step.  A label of a run says which NVS functions
  failed in the step.  As long as a failure comes before the changes of its operation,
  an operation that ends with an error leaves the index, the slots and the records
  behind them as they were.
-/
import EdgeSync.Foundation.Runs
import EdgeSync.Nvs.Payload

set_option autoImplicit false

namespace EdgeSync

open Foundation

variable {cfg : NvsConfig} {usage : BlobStore → UInt32 × UInt32}

/-! ## Steps with failing store calls -/

/-- A step, with the NVS functions that failed in it. -/
structure NvsFaultLabel where
  step : FlashqStepLabel
  failed : List NvsFunction

/-- Calls of the functions may fail; the power may go during any call. -/
def failing (failed : List NvsFunction) : Env BlobCall BlobStore BlobEvent :=
  fun _ c ev => ev = .fail → nvsFunction c ∈ failed

theorem mem_of_nvsFails {failed : List NvsFunction} {f : NvsFunction}
    (h : NvsFails (failing failed) f) : f ∈ failed := by
  obtain ⟨s, c, rfl, hev⟩ := h
  exact hev rfl

/-- A step in which only the functions of the label fail. -/
def NvsFaultStep (usage : BlobStore → UInt32 × UInt32) (cfg : NvsConfig)
    (sys : StorageSystem (nvsBackend usage cfg)) (label : NvsFaultLabel)
    (sys' : StorageSystem (nvsBackend usage cfg)) : Prop :=
  StorageStep (nvsBackend usage cfg) (nvsWorld usage cfg (failing label.failed)) sys label.step sys'

/-- The operations that change a message that is there. -/
def StorageOp.Progresses : StorageOp → Prop
  | .claimNext _ => True
  | .scheduleRetry _ _ _ _ => True
  | .markDelivered _ => True
  | .remove _ => True
  | _ => False

instance (op : StorageOp) : Decidable op.Progresses :=
  match op with
  | .enqueue _ => .isFalse not_false
  | .claimNext _ => .isTrue trivial
  | .markDelivered _ => .isTrue trivial
  | .scheduleRetry _ _ _ _ => .isTrue trivial
  | .remove _ => .isTrue trivial
  | .findDropCandidate _ => .isFalse not_false
  | .getStats _ => .isFalse not_false

/-- The slot of an entry holds a blob that decodes to the entry. -/
def SlotReads (s : BlobStore) (e : NvsIndexEntry) : Prop :=
  ∃ data, s (slotKey e.slot) = some data ∧ ∃ hdr, decodeHeader data data.length = some hdr ∧
    verifyBody hdr (data.drop hdrSize) (data.length - hdrSize) = true ∧ hdr.nvsEntry e.slot = e

/-- An operation on a message that ends with an error leaves the index and the slots as
they were, and a blob for every entry. -/
def ErrorIsAtomic : StorageSystem (nvsBackend usage cfg) → FlashqStepLabel →
    StorageSystem (nvsBackend usage cfg) → Prop
  | .on ctx _, .call op (.error _), .on ctx' s' =>
      op.Progresses → NvsCtx.index ctx' = NvsCtx.index ctx ∧
        NvsCtx.slotUsed ctx' = NvsCtx.slotUsed ctx ∧ ∀ e ∈ NvsCtx.index ctx, SlotReads s' e
  | _, _, _ => True

/-- The failures come before the changes of the operation: the entry is assigned
before `write_entry` is called, and `nvs_erase_key` takes the blob before the commit.
A retry may change nothing. -/
def Tolerates (index : List NvsIndexEntry) (failed : List NvsFunction) : StorageOp → Prop
  | .claimNext _ => .setBlob ∉ failed ∧ .commit ∉ failed
  | .scheduleRetry id nextRetryTimeUs deadLetter lastError =>
      (.setBlob ∉ failed ∧ .commit ∉ failed) ∨
      ∀ pos e, nvsFindEntry index id = some pos → index[pos]? = some e →
        e.change (Progress.retried nextRetryTimeUs deadLetter lastError) = e
  | .markDelivered _ => .commit ∉ failed
  | .remove _ => .commit ∉ failed
  | _ => True

/-- The failures of a step come before its changes, and no two slots in use share a
key. -/
def FaultsFirst (sys : StorageSystem (nvsBackend usage cfg)) (label : NvsFaultLabel) : Prop :=
  KeysApart cfg sys label.step ∧
    match sys, label.step.op? with
    | .on ctx _, some op => Tolerates (NvsCtx.index ctx) label.failed op
    | _, _ => True

/-! ## What holds between two steps -/

section Base

variable {ctx ctx' : NvsCtx} {s s' : BlobStore} {op : StorageOp} {failed : List NvsFunction}

theorem Holds.slotReads {e : NvsIndexEntry} (h : Holds cfg s e.slot (slotContent s e)) :
    SlotReads s e := by
  have hdec := h.sized.decode []
  have hver := h.sized.verify []
  rw [List.append_nil] at hdec hver
  exact ⟨_, h.stored, _, hdec, hver, h.sized.nvsEntry_hdr _⟩

/-- A blob in a slot that no entry has does not matter. -/
theorem NvsBase.set_free (b : NvsBase cfg ctx s) {slot : UInt32} {data : Bytes}
    (hfree : slotKey slot ∉ ctx.index.map fun e => slotKey e.slot) :
    NvsBase cfg ctx (s.set (slotKey slot) data) := by
  refine ⟨fun e he => ?_, b.keys, b.slots, b.used⟩
  have hs : s.set (slotKey slot) data (slotKey e.slot) = s (slotKey e.slot) :=
    BlobStore.set_other fun hk => hfree (List.mem_map.mpr ⟨e, he, hk⟩)
  rw [slotContent_congr hs]
  exact (b.held e he).congr hs

theorem Recorded.set (h : Recorded cfg s) {key : Nat} {x : StoredMessage} (hx : x.Sized cfg) :
    Recorded cfg (s.set key x.blob) := by
  intro k data hk
  by_cases hkey : k = key
  · subst hkey
    rw [BlobStore.set_self] at hk
    exact ⟨x, hx, (Option.some.inj hk).symm⟩
  · rw [BlobStore.set_other hkey] at hk
    exact h k data hk

theorem Recorded.erase (h : Recorded cfg s) (key : Nat) : Recorded cfg (s.erase key) := by
  intro k data hk
  by_cases hkey : k = key
  · subst hkey
    rw [BlobStore.erase_self] at hk
    cases hk
  · rw [BlobStore.erase_other hkey] at hk
    exact h k data hk

/-- Every blob is still the record of a message. -/
theorem NvsEffect.recorded {res : Except EspErr StorageReply}
    (ef : NvsEffect cfg ctx s op res ctx' s') (b : NvsBase cfg ctx s) (h : Recorded cfg s)
    (hlen : op.Counted) : Recorded cfg s' := by
  cases ef with
  | refused => exact h
  | candidate => exact h
  | stats => exact h
  | enqueued room encodes => exact h.set (sized_ofMessage encodes hlen)
  | claimed selected entry =>
    exact h.set ((b.held _ (List.mem_of_getElem? entry)).sized.change _)
  | retired => exact h.erase _
  | retried found entry =>
    exact h.set ((b.held _ (List.mem_of_getElem? entry)).sized.change _).cleared

/-- A rewrite whose failure is tolerated changes nothing in the index. -/
theorem NvsEffect.index_of_tolerated {reply : StorageReply}
    (ef : NvsEffect cfg ctx s op (.ok reply) ctx' s') (rewrites : op.Rewrites)
    (ht : Tolerates ctx.index failed op) (hf : .setBlob ∈ failed ∨ .commit ∈ failed) :
    ctx'.index = ctx.index ∧ ctx'.slotUsed = ctx.slotUsed := by
  cases ef with
  | candidate => cases rewrites
  | stats => cases rewrites
  | enqueued => cases rewrites
  | claimed selected entry index slotUsed =>
    obtain ⟨hset, hcommit⟩ := ht
    rcases hf with hf | hf
    · exact absurd hf hset
    · exact absurd hf hcommit
  | retired retires => cases retires <;> cases rewrites
  | retried found entry index slotUsed =>
    rcases ht with ⟨hset, hcommit⟩ | hsame
    · rcases hf with hf | hf
      · exact absurd hf hset
      · exact absurd hf hcommit
    · refine ⟨?_, slotUsed⟩
      rw [index, modify_of_getElem? entry, hsame _ _ found entry]
      exact set_of_getElem? entry

/-- A tolerated fault leaves the index, and its records. -/
theorem NvsFault.tolerated {err : EspErr}
    (h : NvsFault cfg (failing failed) ctx s op err ctx' s') (b : NvsBase cfg ctx s)
    (hs : Recorded cfg s) (hkey : FreshKey ctx op) (hlen : op.Counted)
    (ht : Tolerates ctx.index failed op) :
    ctx'.index = ctx.index ∧ ctx'.slotUsed = ctx.slotUsed ∧ NvsBase cfg ctx' s' ∧
      Recorded cfg s' := by
  cases h with
  | untouched _ index slotUsed => exact ⟨index, slotUsed, (b.congr index slotUsed).1, hs⟩
  | unwritten effect rewrites hf index slotUsed =>
    obtain ⟨hindex, hslots⟩ := effect.index_of_tolerated rewrites ht (.inl (mem_of_nvsFails hf))
    have hi := index.trans hindex
    have hu := slotUsed.trans hslots
    exact ⟨hi, hu, (b.congr hi hu).1, hs⟩
  | uncommitted effect rewrites hf index slotUsed =>
    obtain ⟨hindex, hslots⟩ := effect.index_of_tolerated rewrites ht (.inr (mem_of_nvsFails hf))
    exact ⟨index.trans hindex, slotUsed.trans hslots,
      ((effect.step b hkey hlen).1.congr index slotUsed).1, effect.recorded b hs hlen⟩
  | unindexed effect rewrites hf index slotUsed =>
    have hrec := effect.recorded b hs hlen
    have hcommit := mem_of_nvsFails hf
    refine ⟨index, slotUsed, ?_, hrec⟩
    cases effect with
    | candidate => exact (b.congr index slotUsed).1
    | stats => exact (b.congr index slotUsed).1
    | enqueued room encodes free =>
      -- the record of the refused message stays in a free slot
      exact ((b.set_free (hkey rfl _ free)).congr index slotUsed).1
    | claimed => exact absurd trivial rewrites
    | retired retires => cases retires <;> exact absurd hcommit ht
    | retried => exact absurd trivial rewrites

end Base

/-- Between two steps every blob is a record, and every entry has its own. -/
def FaultSound (cfg : NvsConfig) {usage : BlobStore → UInt32 × UInt32} :
    StorageSystem (nvsBackend usage cfg) → Prop
  | .off s => Recorded cfg s
  | .on ctx s => NvsBase cfg ctx s ∧ Recorded cfg s

section Steps

variable {sys sys' : StorageSystem (nvsBackend usage cfg)} {label : NvsFaultLabel}

/-- How a call can end, with failing store calls. -/
theorem nvs_ended {ctx ctx' : NvsCtx} {s s' : BlobStore} {op : StorageOp}
    {env : Env BlobCall BlobStore BlobEvent} {res : Except EspErr StorageReply}
    (b : NvsBase cfg ctx s) (hlen : op.Counted)
    (run : Runs (blobDevice usage) env (nvsCall cfg op) ctx s (.returned res ctx' s')) :
    NvsEffect cfg ctx s op res ctx' s' ∨
      ∃ err, res = .error err ∧ NvsFault cfg env ctx s op err ctx' s' := by
  have hmeets := wp_sound run (wp_nvsCall
    (P := ⟨fun reply ctx' s' => NvsEffect cfg ctx s op (.ok reply) ctx' s',
      fun err ctx' s' => NvsEffect cfg ctx s op (.error err) ctx' s' ∨
        NvsFault cfg env ctx s op err ctx' s', fun _ => True⟩) b hlen
    (fun _ _ _ ef => ef) (fun _ _ ef => .inl ef) (fun _ _ _ hf => .inr hf) trivial
    fun _ _ _ _ => trivial)
  cases res with
  | ok reply => exact .inl hmeets
  | error err => exact hmeets.imp_right fun hf => ⟨err, rfl, hf⟩

/-- One step: an error changes nothing, and the system stays sound. -/
theorem FaultSound.step (h : FaultSound cfg sys) (step : NvsFaultStep usage cfg sys label sys')
    (hfirst : FaultsFirst sys label) (hlen : ∀ op, label.step.op? = some op → op.Counted) :
    FaultSound cfg sys' ∧ ErrorIsAtomic sys label.step sys' := by
  obtain ⟨label, failed⟩ := label
  obtain ⟨hkey, ht⟩ := hfirst
  cases step with
  | @call ctx ctx' s s' op res run =>
    obtain ⟨b, hs⟩ := h
    rcases nvs_ended b (hlen _ rfl) run with ef | ⟨err, rfl, hf⟩
    · have b' := (ef.step b (hkey _ rfl) (hlen _ rfl)).1
      refine ⟨⟨b', ef.recorded b hs (hlen _ rfl)⟩, ?_⟩
      cases ef with
      | refused why index slotUsed =>
        exact fun _ => ⟨index, slotUsed, fun e he => (b.held e he).slotReads⟩
      | candidate => trivial
      | stats => trivial
      | enqueued => trivial
      | claimed => trivial
      | retired => trivial
      | retried => trivial
    · obtain ⟨index, slotUsed, b', hs'⟩ := hf.tolerated b hs (hkey _ rfl) (hlen _ rfl) ht
      refine ⟨⟨b', hs'⟩, fun _ => ⟨index, slotUsed, fun e he => ?_⟩⟩
      rw [← index] at he
      exact (b'.held e he).slotReads
  | cut run =>
    obtain ⟨b, hs⟩ := h
    refine ⟨?_, trivial⟩
    rcases nvs_cut b (hlen _ rfl) run with rfl | ⟨reply, ctx', ef⟩
    · exact hs
    · exact ef.recorded b hs (hlen _ rfl)
  | stop => exact ⟨h.2, trivial⟩
  | @boot env ctx' s s' picked run =>
    cases picked
    have hs : Recorded cfg s := h
    have hmeets := wp_sound run (wp_nvsOpRecover
      (P := ⟨fun _ ctx' s' => NvsBase cfg ctx' s' ∧ Requeued cfg s s', fun _ _ _ => True,
        fun _ => True⟩) hs hkey (fun _ _ b _ hr => ⟨b, hr⟩) (fun _ _ _ _ _ _ => trivial)
      fun _ _ => trivial)
    exact ⟨⟨hmeets.1, hmeets.2.recorded hs⟩, trivial⟩
  | @bootFail env ctx' s s' err picked run =>
    cases picked
    have hs : Recorded cfg s := h
    have hmeets := wp_sound run (wp_nvsOpRecover
      (P := ⟨fun _ _ _ => True, fun _ _ s' => Requeued cfg s s', fun _ => True⟩) hs hkey
      (fun _ _ _ _ _ => trivial) (fun _ _ _ _ _ hr => hr) fun _ _ => trivial)
    exact ⟨Requeued.recorded hmeets hs, trivial⟩
  | @bootCut env s s' picked run =>
    cases picked
    have hs : Recorded cfg s := h
    have hmeets := wp_sound run (wp_nvsOpRecover
      (P := ⟨fun _ _ _ => True, fun _ _ _ => True, fun s' => Requeued cfg s s'⟩) hs hkey
      (fun _ _ _ _ _ => trivial) (fun _ _ _ _ _ _ => trivial) fun _ hr => hr)
    exact ⟨Requeued.recorded hmeets hs, trivial⟩

/-- In a run whose failures come before the changes of their operations, an operation
that ends with an error changed nothing. -/
theorem errors_atomic {labels : List NvsFaultLabel}
    (run : StepRun (Guarded (NvsFaultStep usage cfg) FaultsFirst) (.off emptyStore) labels sys)
    (step : Guarded (NvsFaultStep usage cfg) FaultsFirst sys label sys')
    (hlen : ∀ l ∈ labels ++ [label], ∀ op, l.step.op? = some op → op.Counted) :
    ErrorIsAtomic sys label.step sys' := by
  have hsound : FaultSound cfg sys := by
    refine run.invariant (I := fun done sys => (∀ l ∈ done, l ∈ labels) → FaultSound cfg sys)
      (fun _ k data hk => absurd hk (by simp [emptyStore])) ?_ fun _ h => h
    intro done s1 l s2 ih next hmem
    refine (FaultSound.step (ih fun l' hl => hmem l' (List.mem_append_left _ hl)) next.1 next.2
      (hlen l (List.mem_append_left _ (hmem l ?_)))).1
    exact List.mem_append_right _ (List.mem_singleton_self l)
  exact (hsound.step step.1 step.2 (hlen label (List.mem_append_right _ (List.mem_singleton_self _)))).2

end Steps

/-! ## Records that cannot be read -/

section Corrupt

variable {ctx ctx' : NvsCtx} {s s' : BlobStore}

/-- Reading a slot changes neither the index nor the store, whatever is in it. -/
theorem wp_readAndVerify_any {P : Post NvsCtx BlobStore EspErr RecordHdr} {slot : UInt32}
    {env : Env BlobCall BlobStore BlobEvent}
    (hok : ∀ hdr ctx', NvsCtx.index ctx' = ctx.index → P.ok hdr ctx' s)
    (herr : ∀ err ctx', NvsCtx.index ctx' = ctx.index → P.error err ctx' s) (hcut : P.cut s) :
    wp (blobDevice usage) env (readAndVerify cfg slot) P ctx s := by
  unfold readAndVerify
  simp only [Prog.bind_eq, wp_bind]
  refine wp_nvsGetBlobSize ?_ (fun _ => wp_fail.mpr (herr _ _ rfl)) fun _ _ _ => hcut
  cases hs : s (slotKey slot) with
  | none => exact wp_fail.mpr (herr _ _ rfl)
  | some blob =>
    simp only [Option.map_some, wp_ite, wp_fail, wp_bind]
    refine ⟨fun _ => herr _ _ rfl, fun _ => ?_⟩
    refine wp_nvsGetBlob ?_ (fun _ => wp_fail.mpr (herr _ _ rfl)) fun _ _ _ => hcut
    rw [hs]
    simp only [wp_bind, wp_modify, wp_read]
    split
    · exact wp_fail.mpr (herr _ _ rfl)
    · simp only [Prog.pure_eq, wp_ite, wp_ret, wp_fail]
      exact ⟨fun _ => hok _ _ rfl, fun _ => herr _ _ rfl⟩

/-- A record that was read is handed out. -/
theorem leaves_nvsClaimIntact_claimed {nowUs : Int64} {pos : Nat} {hdr : RecordHdr}
    {e : NvsIndexEntry} (he : ctx.index[pos]? = some e) : leaves (nvsClaimIntact cfg nowUs pos hdr)
      (fun reply _ => ∃ claimed, reply = .claimed claimed) (fun _ _ => True) ctx := by
  unfold nvsClaimIntact nvsAssignEntry
  simp only [Prog.bind_eq, Prog.pure_eq, leaves_bind, leaves_modify]
  refine leaves_nvsEntryAt (by rw [List.getElem?_modify_eq, he]; rfl) ?_
  simp only [leaves_read]
  refine leaves_mono (keeps_writeEntry cfg _ _ _ _) (fun _ c2 _ => ?_) fun _ _ _ => trivial
  simp only [leaves_ret]
  exact ⟨_, rfl⟩

/-- What a claim leaves of a record that cannot be read: the entry is a dead letter, and
where `nvs_erase_key` works nothing is left in the slot. -/
theorem corrupt_discarded {env : Env BlobCall BlobStore BlobEvent} {nowUs : Int64} {id : UInt64}
    (run : Runs (blobDevice usage) env (nvsOpClaimNext cfg nowUs) ctx s (.ok (.corrupt id) ctx' s'))
    (hno : ∀ s k, ¬ env s (.erase k) .fail) :
    ∃ e ∈ ctx'.index, e.id = id ∧ e.state = FlashqState.deadLetter.code ∧
      s' (slotKey e.slot) = none := by
  suffices hwp : wp (blobDevice usage) env (nvsOpClaimNext cfg nowUs)
      ⟨fun reply ctx' s' => ∀ id, reply = .corrupt id → ∃ e ∈ NvsCtx.index ctx', e.id = id ∧
        e.state = FlashqState.deadLetter.code ∧ s' (slotKey e.slot) = none,
        fun _ _ _ => True, fun _ => True⟩ ctx s from wp_sound run hwp id rfl
  unfold nvsOpClaimNext
  simp only [Prog.bind_eq, wp_bind, wp_read]
  split
  · exact wp_fail.mpr trivial
  rename_i best hsel
  obtain ⟨x, hx, _⟩ := pick_some hsel
  obtain ⟨e, he, rfl⟩ := NvsCtx.getElem?_metas hx
  simp only [wp_bind]
  refine wp_nvsEntryAt he ?_
  simp only [wp_attempt]
  refine wp_readAndVerify_any (fun hdr c hc => ?_) (fun err c hc => ?_) trivial
  · -- the record was read
    refine wp_iff_runs.mpr fun o run => ?_
    have hmeets := leaves_sound run (leaves_nvsClaimIntact_claimed (by rw [hc]; exact he))
    cases o with
    | ok reply c' s1 =>
      rintro id rfl
      obtain ⟨_, h⟩ := hmeets
      cases h
    | error err c' s1 => trivial
    | cut s1 => trivial
  · cases err <;> simp only [wp_fail]
    case storageCorrupt =>
      unfold nvsAssignEntry discardSlot
      simp only [Prog.bind_eq, Prog.pure_eq, wp_bind, wp_modify]
      refine wp_nvsEraseKey ?_ (fun hev => absurd hev (hno _ _)) fun _ _ => ⟨trivial, trivial⟩
      refine wp_nvsCommit ?_ (fun _ => ?_) fun _ _ => trivial
      all_goals
        simp only [wp_ret]
        rintro id h
        cases h
        refine ⟨_, (perm_modify (by rw [hc]; exact he)).mem_iff.mpr List.mem_cons_self, rfl, rfl, ?_⟩
        exact s.erase_self _

end Corrupt

/-! ## Playing steps with failing store calls -/

/-- Only calls of the functions fail. -/
def nvsAllow (failed : List NvsFunction) (c : BlobCall) (ev : BlobEvent) : Bool :=
  decide (ev = .fail → nvsFunction c ∈ failed)

/-- The events of a step are permitted. -/
def nvsPermits (cfg : NvsConfig) (failed : List NvsFunction) :
    NvsSystem noUsage cfg → FlashqAction → List BlobEvent → Bool
  | .on ctx s, .call op, evs =>
      admits (blobDevice noUsage) (nvsAllow failed) (nvsCall cfg op) ctx s evs
  | .off s, .boot, evs =>
      admits (blobDevice noUsage) (nvsAllow failed) (nvsOpRecover cfg) (NvsCtx.fresh cfg) s evs
  | _, _, _ => true

/-- Take a step in which only the given functions fail. -/
def nvsFaultAct (cfg : NvsConfig) (sys : NvsSystem noUsage cfg)
    (step : FlashqAction × List BlobEvent × List NvsFunction) :
    Option (FlashqStepLabel × NvsSystem noUsage cfg) :=
  if nvsPermits cfg step.2.2 sys step.1 step.2.1 then nvsAct cfg sys step.1 step.2.1 else none

theorem nvsFaultAct_step {sys sys' : NvsSystem noUsage cfg} {label : FlashqStepLabel}
    {step : FlashqAction × List BlobEvent × List NvsFunction}
    (h : nvsFaultAct cfg sys step = some (label, sys')) :
    NvsFaultStep noUsage cfg sys ⟨label, step.2.2⟩ sys' := by
  obtain ⟨a, evs, failed⟩ := step
  rw [nvsFaultAct] at h
  split at h
  case isFalse => cases h
  case isTrue hp =>
    have hruns : ∀ {α : Type} (x : NvsM α) ctx s,
        admits (blobDevice noUsage) (nvsAllow failed) x ctx s evs = true →
          Runs (blobDevice noUsage) (failing failed) x ctx s
            (exec (blobDevice noUsage) x ctx s evs) :=
      fun x ctx s => runs_of_admits (fun (_ : BlobStore) c ev (hallow : nvsAllow failed c ev = true) =>
        of_decide_eq_true hallow) x
    cases sys with
    | off s =>
      cases a with
      | call op => cases h
      | stop => cases h
      | boot =>
        have hrun := hruns (nvsOpRecover cfg) (NvsCtx.fresh cfg) s hp
        rw [nvsAct] at h
        split at h <;> rename_i hexec <;> rw [hexec] at hrun <;> cases h
        · exact .boot rfl hrun
        · exact .bootFail rfl hrun
        · exact .bootCut rfl hrun
    | on ctx s =>
      cases a with
      | boot => cases h
      | stop =>
        cases h
        exact .stop
      | call op =>
        have hrun := hruns (nvsCall cfg op) ctx s hp
        rw [nvsAct] at h
        split at h <;> rename_i hexec <;> rw [hexec] at hrun <;> cases h
        · exact .call hrun
        · exact .call hrun
        · exact .cut hrun

/-- What the calls after the first message show. -/
def firstMessageShows :
    FlashqStepLabel × StorageSystem (nvsBackend noUsage slotConfig) → Bool
  | (.booted, .on ctx s) =>
    (NvsCtx.index ctx).isEmpty && match nvsFaultAct slotConfig (.on ctx s)
        (.call (.enqueue slotMessage), [], []) with
      | some (.call op (.ok .done), .on ctx s) => decide (op = .enqueue slotMessage) &&
        (match nvsFaultAct slotConfig (.on ctx s)
            (.call (.markDelivered 7), [.fail], [.eraseKey]) with
          | some (.call op (.error .storage), _) => decide (op = .markDelivered 7)
          | _ => false) &&
        (match nvsFaultAct slotConfig (.on ctx s)
            (.call (.claimNext 10), [.run, .run, .fail], [.setBlob]) with
          | some (.call op (.error .storage), .on ctx' _) => decide (op = .claimNext 10 ∧
              (NvsCtx.index ctx').map (·.attemptCount) ≠ (NvsCtx.index ctx).map (·.attemptCount))
          | _ => false)
      | _ => false
  | _ => false

/-- The first start and the first message, in a store that works. -/
theorem first_message_run : ∃ ctx s,
    StepRun (Guarded (NvsFaultStep noUsage slotConfig) FaultsFirst) (.off emptyStore)
      [⟨.booted, []⟩, ⟨.call (.enqueue slotMessage) (.ok .done), []⟩] (.on ctx s) ∧
    (∃ sys, nvsFaultAct slotConfig (.on ctx s) (.call (.markDelivered 7), [.fail], [.eraseKey]) =
      some (.call (.markDelivered 7) (.error .storage), sys)) ∧
    ∃ ctx' s', nvsFaultAct slotConfig (.on ctx s)
        (.call (.claimNext 10), [.run, .run, .fail], [.setBlob]) =
      some (.call (.claimNext 10) (.error .storage), .on ctx' s') ∧
      (NvsCtx.index ctx').map (·.attemptCount) ≠ (NvsCtx.index ctx).map (·.attemptCount) := by
  have hcheck : (nvsFaultAct slotConfig (.off emptyStore) (.boot, [], [])).any
      firstMessageShows = true := by decide +kernel
  obtain ⟨started, hboot, hshows⟩ := (Option.any_eq_true _ _).mp hcheck
  unfold firstMessageShows at hshows
  split at hshows
  case h_2 => cases hshows
  rename_i ctx0 s0
  obtain ⟨hindex, hcall⟩ := Bool.and_eq_true_iff.mp hshows
  have hnil : NvsCtx.index ctx0 = [] := List.isEmpty_iff.mp hindex
  split at hcall
  case h_2 => cases hcall
  rename_i op ctx s henq
  obtain ⟨hrest, hclaim⟩ := Bool.and_eq_true_iff.mp hcall
  obtain ⟨hop, hmark⟩ := Bool.and_eq_true_iff.mp hrest
  obtain rfl := of_decide_eq_true hop
  refine ⟨ctx, s, ?_, ?_, ?_⟩
  · refine (StepRun.nil.snoc ⟨nvsFaultAct_step hboot, fun _ _ _ _ _ => rfl, trivial⟩).snoc
      ⟨nvsFaultAct_step henq, fun op hop _ slot _ => ?_, trivial⟩
    rw [hnil]
    exact List.not_mem_nil
  · split at hmark
    case h_2 => cases hmark
    rename_i op sys hact
    obtain rfl := of_decide_eq_true hmark
    exact ⟨sys, hact⟩
  · split at hclaim
    case h_2 => cases hclaim
    rename_i op ctx' s' hact
    obtain ⟨rfl, hne⟩ := of_decide_eq_true hclaim
    exact ⟨ctx', s', hact, hne⟩

/-- An erase that fails is reported, and nothing has changed. -/
theorem errors_atomic_erase : ∃ ctx s sys, @ErrorIsAtomic slotConfig noUsage
    (.on ctx s) (.call (.markDelivered 7) (.error .storage)) sys := by
  obtain ⟨ctx, s, run, ⟨sys, hmark⟩, _⟩ := first_message_run
  have step : Guarded (NvsFaultStep noUsage slotConfig) FaultsFirst (.on ctx s)
      ⟨.call (.markDelivered 7) (.error .storage), [.eraseKey]⟩ sys := by
    refine ⟨nvsFaultAct_step hmark, fun op hop henq => ?_, ?_⟩
    · obtain rfl := Option.some.inj hop
      cases henq
    · show NvsFunction.commit ∉ [NvsFunction.eraseKey]
      decide
  refine ⟨ctx, s, sys, errors_atomic run step fun l hl op hop => ?_⟩
  simp only [List.cons_append, List.nil_append, List.mem_cons, List.not_mem_nil, or_false] at hl
  rcases hl with rfl | rfl | rfl
  · cases hop
  · obtain rfl := Option.some.inj hop
    rfl
  · obtain rfl := Option.some.inj hop
    trivial

/-- `nvs_set_blob` fails in a claim: the operation reports the error, but the attempt is
counted in the index. -/
theorem claim_not_atomic : ∃ sys sys',
    StepRun (NvsFaultStep noUsage slotConfig) (.off emptyStore)
      [⟨.booted, []⟩, ⟨.call (.enqueue slotMessage) (.ok .done), []⟩] sys ∧
    NvsFaultStep noUsage slotConfig sys ⟨.call (.claimNext 10) (.error .storage), [.setBlob]⟩ sys' ∧
    ¬ ErrorIsAtomic sys (.call (.claimNext 10) (.error .storage)) sys' := by
  obtain ⟨ctx, s, run, _, ctx', s', hclaim, hne⟩ := first_message_run
  refine ⟨_, _, run.unguarded, nvsFaultAct_step hclaim, fun h => hne ?_⟩
  rw [(h trivial).1]

end EdgeSync
