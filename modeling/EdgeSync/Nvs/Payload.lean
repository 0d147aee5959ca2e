/-
  Nvs/Payload.lean --- what becomes of a payload in its slot.

  A retry and a requeue pass `write_entry` a payload that lies in the buffer the
  encoder clears first, so they write zeros for it.  In a run whose retries and
  requeues only meet payloads of zeros, every slot keeps the bytes that were
  published.
-/
import EdgeSync.Nvs.Script

set_option autoImplicit false

namespace EdgeSync

open Foundation

variable {cfg : NvsConfig}

/-! ## Bytes -/

/-- The message holds the bytes that were published. -/
structure StoredMessage.Carries (x : StoredMessage) (message : EdgesyncMessage) : Prop where
  id : x.id = message.id
  destination : x.destination = cString message.destination
  payload : x.payload = message.payload

/-- The payload is all zeros. -/
def StoredMessage.Zeroed (x : StoredMessage) : Prop := ∀ b ∈ x.payload, b = 0

theorem StoredMessage.Zeroed.cleared {x : StoredMessage} (h : x.Zeroed) : x.cleared = x := by
  have hp : List.replicate x.payload.length 0 = x.payload :=
    (List.eq_replicate_of_mem h).symm
  rw [StoredMessage.cleared, hp]

/-- The same id, destination and payload. -/
structure SameBytes (x y : StoredMessage) : Prop where
  id : y.id = x.id
  destination : y.destination = x.destination
  payload : y.payload = x.payload

theorem SameBytes.carries {x y : StoredMessage} {message : EdgesyncMessage} (h : SameBytes x y)
    (hx : x.Carries message) : y.Carries message :=
  ⟨h.id.trans hx.id, h.destination.trans hx.destination, h.payload.trans hx.payload⟩

theorem sameBytes_change (f : Progress → Progress) (x : StoredMessage) : SameBytes x (x.change f) :=
  ⟨rfl, rfl, rfl⟩

/-- A rewrite keeps a payload of zeros. -/
theorem sameBytes_rewritten {x : StoredMessage} (h : x.Zeroed) (f : Progress → Progress) :
    SameBytes x (x.rewritten f) := by
  have hz : (x.change f).Zeroed := h
  rw [StoredMessage.rewritten, hz.cleared]
  exact sameBytes_change f x

theorem sameBytes_restarted {x : StoredMessage}
    (h : x.state = FlashqState.inFlight.code → x.Zeroed) : SameBytes x x.restarted := by
  unfold StoredMessage.restarted
  split
  · rename_i hfly
    exact sameBytes_rewritten (h hfly) _
  · exact ⟨rfl, rfl, rfl⟩

/-! ## One slot in one step -/

variable (cfg) in
/-- What a step may do to the blob under a key, if payloads are kept. -/
inductive KeyStep (op? : Option StorageOp) : Option Bytes → Option Bytes → Prop where
  | kept {old : Option Bytes} : KeyStep op? old old
  | rewritten {x y : StoredMessage} (hx : x.Sized cfg) (hy : y.Sized cfg) (same : SameBytes x y) :
      KeyStep op? (some x.blob) (some y.blob)
  | added {message : EdgesyncMessage} (call : op? = some (.enqueue message))
      (sized : (StoredMessage.ofMessage message).Sized cfg) :
      KeyStep op? none (some (StoredMessage.ofMessage message).blob)
  | erased {op : StorageOp} {newState : FlashqState} {x : StoredMessage} (call : op? = some op)
      (sized : x.Sized cfg) (retires : Retires op x.id newState) : KeyStep op? (some x.blob) none

/-- A retry meets only a payload of zeros. -/
def RetryKeeps (ctx : NvsCtx) (s : BlobStore) (op : StorageOp) : Prop :=
  ∀ id nextRetryTimeUs deadLetter lastError,
    op = .scheduleRetry id nextRetryTimeUs deadLetter lastError → ∀ (pos : Nat) e,
      nvsFindEntry ctx.index id = some pos → ctx.index[pos]? = some e → (slotContent s e).Zeroed

/-- The effect of a call on each key. -/
theorem NvsEffect.keyStep {ctx ctx' : NvsCtx} {s s' : BlobStore} {op : StorageOp}
    {res : Except EspErr StorageReply} (ef : NvsEffect cfg ctx s op res ctx' s')
    (b : NvsBase cfg ctx s) (honly : NvsOnly ctx s) (hkey : FreshKey ctx op) (hlen : op.Counted)
    (hretry : RetryKeeps ctx s op) (k : Nat) : KeyStep cfg (some op) (s k) (s' k) := by
  cases ef with
  | refused why hindex hslots => exact .kept
  | candidate selected entry => exact .kept
  | stats counted => exact .kept
  | @enqueued message slot ctx' room encodes free hindex hslots =>
    by_cases hk : k = slotKey slot
    · have hnone : s (slotKey slot) = none := by
        cases hs : s (slotKey slot) with
        | none => rfl
        | some data => exact absurd (honly _ _ hs) (hkey rfl slot free)
      rw [hk, hnone, BlobStore.set_self]
      exact .added rfl (sized_ofMessage encodes hlen)
    · rw [BlobStore.set_other hk]
      exact .kept
  | @claimed nowUs pos e ctx' selected entry hindex hslots borrowed =>
    have hheld := b.held e (List.mem_of_getElem? entry)
    by_cases hk : k = slotKey e.slot
    · rw [hk, hheld.stored, BlobStore.set_self]
      exact .rewritten hheld.sized (hheld.sized.change _) (sameBytes_change _ _)
    · rw [BlobStore.set_other hk]
      exact .kept
  | @retired op id newState pos e ctx' retires found entry hindex hslots =>
    have hheld := b.held e (List.mem_of_getElem? entry)
    obtain ⟨e', he', hid⟩ := findPos_some found
    obtain rfl := Option.some.inj (he'.symm.trans entry)
    by_cases hk : k = slotKey e'.slot
    · rw [hk, hheld.stored, BlobStore.erase_self]
      have hid : (slotContent s e').id = id := by simpa using hid
      exact .erased rfl hheld.sized (by rw [hid]; exact retires)
    · rw [BlobStore.erase_other hk]
      exact .kept
  | @retried id next dead err pos e ctx' found entry hindex hslots =>
    have hheld := b.held e (List.mem_of_getElem? entry)
    by_cases hk : k = slotKey e.slot
    · rw [hk, hheld.stored, BlobStore.set_self]
      exact .rewritten hheld.sized ((hheld.sized.change _).cleared)
        (sameBytes_rewritten (hretry id next dead err rfl pos e found entry) _)
    · rw [BlobStore.set_other hk]
      exact .kept

variable (cfg) in
/-- A requeue meets only payloads of zeros. -/
def RequeueKeeps (s : BlobStore) : Prop :=
  ∀ x : StoredMessage, x.Sized cfg → (∃ k, s k = some x.blob) →
    x.state = FlashqState.inFlight.code → x.Zeroed

/-- The effect of a restart on each key. -/
theorem Requeued.keyStep {s s' : BlobStore} (h : Requeued cfg s s') (hz : RequeueKeeps cfg s)
    (k : Nat) : KeyStep cfg none (s k) (s' k) := by
  rcases h k with h | ⟨x, hx, hold, hnew⟩
  · rw [h]
    exact .kept
  · rw [hold, hnew]
    exact .rewritten hx hx.restarted (sameBytes_restarted (hz x hx ⟨k, hold⟩))

/-! ## Runs -/

variable (cfg) in
/-- A record with the bytes of the message is stored. -/
def StoredFor (s : BlobStore) (message : EdgesyncMessage) : Prop :=
  ∃ (k : Nat) (x : StoredMessage), x.Sized cfg ∧ s k = some x.blob ∧ x.Carries message

variable (cfg) in
/-- The messages that were accepted and not retired are stored with their bytes, and
nothing is stored but what was published. -/
structure PayloadsKept (labels : List FlashqStepLabel) (s : BlobStore) : Prop where
  accepted : ∀ before after message,
    labels = before ++ .call (.enqueue message) (.ok .done) :: after →
    (∀ op newState, Retires op message.id newState → op ∉ callsOf after) →
    StoredFor cfg s message
  published : ∀ k data, s k = some data → ∃ (x : StoredMessage) (message : EdgesyncMessage),
    x.Sized cfg ∧ data = x.blob ∧ StorageOp.enqueue message ∈ callsOf labels ∧ x.Carries message

theorem mem_callsOf_init {labels : List FlashqStepLabel} {op : StorageOp} (h : op ∈ callsOf labels)
    (label : FlashqStepLabel) : op ∈ callsOf (labels ++ [label]) := by
  rw [callsOf_snoc]
  exact List.mem_append_left _ h

theorem mem_callsOf_last {labels : List FlashqStepLabel} {label : FlashqStepLabel} {op : StorageOp}
    (h : label.op? = some op) : op ∈ callsOf (labels ++ [label]) := by
  rw [callsOf_snoc, h]
  exact List.mem_append_right _ (List.mem_singleton.mpr rfl)

/-- One step. -/
theorem PayloadsKept.step {labels : List FlashqStepLabel} {label : FlashqStepLabel}
    {s s' : BlobStore} (h : PayloadsKept cfg labels s)
    (hstep : ∀ k, KeyStep cfg label.op? (s k) (s' k))
    (hnew : ∀ message, label = .call (.enqueue message) (.ok .done) → StoredFor cfg s' message) :
    PayloadsKept cfg (labels ++ [label]) s' where
  accepted before after message hl hretire := by
    rcases List.eq_nil_or_concat after with rfl | ⟨init, last, hafter⟩
    · obtain ⟨_, hlast⟩ := List.append_inj' hl rfl
      exact hnew message (List.singleton_inj.mp hlast)
    · rw [List.concat_eq_append] at hafter
      subst hafter
      have hl' : labels ++ [label] =
          (before ++ .call (.enqueue message) (.ok .done) :: init) ++ [last] := by
        rw [hl, List.append_assoc, List.cons_append]
      obtain ⟨hlabels, hlast⟩ := List.append_inj' hl' rfl
      obtain rfl := List.singleton_inj.mp hlast
      obtain ⟨k, x, hx, hk, hc⟩ := h.accepted before init message hlabels
        fun op st hr hmem => hretire op st hr (mem_callsOf_init hmem _)
      have hs := hstep k
      rw [hk] at hs
      generalize hold : some x.blob = old at hs
      generalize hnew' : s' k = new at hs
      cases hs with
      | kept => exact ⟨k, x, hx, by rw [hnew', hold], hc⟩
      | rewritten hx' hy same =>
        obtain rfl := blob_inj hx hx' (Option.some.inj hold)
        exact ⟨k, _, hy, hnew', same.carries hc⟩
      | added call sized => exact absurd hold (by simp)
      | erased call sized retires =>
        obtain rfl := blob_inj hx sized (Option.some.inj hold)
        rw [hc.id] at retires
        exact absurd (mem_callsOf_last call) (hretire _ _ retires)
  published k data hk := by
    have hs := hstep k
    rw [hk] at hs
    generalize hold : s k = old at hs
    generalize hnew' : some data = new at hs
    cases hs with
    | kept =>
      obtain ⟨x, message, hx, hd, hop, hc⟩ := h.published k data (by rw [hold, hnew'])
      exact ⟨x, message, hx, hd, mem_callsOf_init hop _, hc⟩
    | rewritten hx hy same =>
      obtain ⟨x, message, hx', hd, hop, hc⟩ := h.published k _ hold
      obtain rfl := blob_inj hx hx' hd
      exact ⟨_, message, hy, Option.some.inj hnew', mem_callsOf_init hop _, same.carries hc⟩
    | @added message call sized =>
      exact ⟨_, message, sized, Option.some.inj hnew', mem_callsOf_last call, rfl, rfl, rfl⟩
    | erased call sized retires => exact absurd hnew' (by simp)

/-- In the step to come no two slots share a key, and what is rewritten is zeros. -/
def KeepsPayload (cfg : NvsConfig) {usage : BlobStore → UInt32 × UInt32} :
    StorageSystem (nvsBackend usage cfg) → FlashqStepLabel → Prop
  | .off s, _ => DistinctKeys cfg s ∧ RequeueKeeps cfg s
  | .on ctx s, label => ∀ op, label.op? = some op → FreshKey ctx op ∧ RetryKeeps ctx s op

variable {usage : BlobStore → UInt32 × UInt32} {env : Env BlobCall BlobStore BlobEvent}

theorem KeepsPayload.apart {sys : StorageSystem (nvsBackend usage cfg)} {label : FlashqStepLabel}
    (h : KeepsPayload cfg sys label) : KeysApart cfg sys label := by
  cases sys with
  | off s => exact h.1
  | on ctx s => exact fun op hop => (h op hop).1

/-- What a step does to each key. -/
theorem keyStep_of_step {sys sys' : StorageSystem (nvsBackend usage cfg)} {label : FlashqStepLabel}
    (hno : ∀ s c, ¬ env s c .fail) (h : NvsSound cfg sys)
    (step : StorageStep (nvsBackend usage cfg) (nvsWorld usage cfg env) sys label sys')
    (hkeep : KeepsPayload cfg sys label) (hlen : ∀ op, label.op? = some op → op.Counted) (k : Nat) :
    KeyStep cfg label.op? (sys.dev k) (sys'.dev k) := by
  cases step with
  | call run =>
    have ef := nvs_returned hno h.1 (hlen _ rfl) run
    exact ef.keyStep h.1 h.2 (hkeep _ rfl).1 (hlen _ rfl) (hkeep _ rfl).2 k
  | cut run =>
    rcases nvs_cut h.1 (hlen _ rfl) run with rfl | ⟨reply, ctx', ef⟩
    · exact .kept
    · exact ef.keyStep h.1 h.2 (hkeep _ rfl).1 (hlen _ rfl) (hkeep _ rfl).2 k
  | stop => exact .kept
  | boot picked run =>
    cases picked
    exact Requeued.keyStep (nvs_recovered hno h.1 h.2 hkeep.1 run).2.2.2 hkeep.2 k
  | bootFail picked run =>
    cases picked
    exact (nvs_recovered hno h.1 h.2 hkeep.1 run).elim
  | bootCut picked run =>
    cases picked
    exact Requeued.keyStep (nvs_recovered hno h.1 h.2 hkeep.1 run) hkeep.2 k

/-- A message that is accepted is stored. -/
theorem stored_of_accepted {sys sys' : StorageSystem (nvsBackend usage cfg)}
    {message : EdgesyncMessage} (hno : ∀ s c, ¬ env s c .fail) (h : NvsSound cfg sys)
    (step : StorageStep (nvsBackend usage cfg) (nvsWorld usage cfg env) sys
      (.call (.enqueue message) (.ok .done)) sys') (hlen : (StorageOp.enqueue message).Counted) :
    StoredFor cfg sys'.dev message := by
  cases step with
  | call run =>
    have ef := nvs_returned hno h.1 hlen run
    cases ef with
    | enqueued room encodes free hindex hslots =>
      exact ⟨_, _, sized_ofMessage encodes hlen, BlobStore.set_self .., rfl, rfl, rfl⟩
    | retired retires found entry hindex hslots => cases retires

/-- Runs. -/
theorem GuardedStorageRun.payloadsKept {labels : List FlashqStepLabel}
    {sys : StorageSystem (nvsBackend usage cfg)} (hno : ∀ s c, ¬ env s c .fail)
    (run : GuardedStorageRun (nvsBackend usage cfg) (nvsWorld usage cfg env) (KeepsPayload cfg)
      (.off emptyStore) labels sys) (hlen : ∀ op ∈ callsOf labels, op.Counted) :
    NvsSound cfg sys ∧ PayloadsKept cfg labels sys.dev := by
  induction run with
  | nil =>
    refine ⟨⟨fun k data h => absurd h (by simp [emptyStore]),
      fun k data h => absurd h (by simp [emptyStore])⟩, ⟨fun before after message h => ?_,
      fun k data h => absurd h (by simp [StorageSystem.dev, emptyStore])⟩⟩
    simp at h
  | @snoc labels sys sys' label run step meets ih =>
    obtain ⟨hs, hp⟩ := ih fun op hop => hlen op (mem_callsOf_init hop _)
    have hlast : ∀ op, label.op? = some op → op.Counted :=
      fun op hop => hlen op (mem_callsOf_last hop)
    refine ⟨hs.step hno step meets.apart hlast,
      hp.step (keyStep_of_step hno hs step meets hlast) fun message hl => ?_⟩
    subst hl
    exact stored_of_accepted hno hs step (hlast _ rfl)

/-! ## The bytes in the slots -/

/-- `read_and_verify` takes the blob, and its body is what was published. -/
def Decodes (data : Bytes) (message : EdgesyncMessage) : Prop :=
  ∃ hdr ∈ decodeHeader data data.length,
    verifyBody hdr (data.drop hdrSize) (data.length - hdrSize) = true ∧
    slice data hdrSize hdr.destinationLen.toNat = cString message.destination ∧
    slice data (hdrSize + hdr.destinationLen.toNat) hdr.bodyLen.toNat = message.payload

instance (data : Bytes) (message : EdgesyncMessage) : Decidable (Decodes data message) :=
  inferInstanceAs (Decidable (∃ hdr ∈ decodeHeader data data.length, _))

theorem StoredMessage.Carries.decodes {x : StoredMessage} {message : EdgesyncMessage}
    (h : x.Carries message) (hx : x.Sized cfg) : Decodes x.blob message := by
  have hdec := hx.decode []
  have hver := hx.verify []
  rw [List.append_nil] at hdec hver
  have hmsg := blobMessage_blob hx
  rw [blobMessage, hdec] at hmsg
  have hx' := Option.some.inj hmsg
  have hd := congrArg StoredMessage.destination hx'
  have hp := congrArg StoredMessage.payload hx'
  exact ⟨x.hdr, hdec, hver, hd.trans h.destination, hp.trans h.payload⟩

/-- A slot of the message holds its bytes. -/
def SlotDecodes (message : EdgesyncMessage) : StorageSystem (nvsBackend usage cfg) → Prop
  | .off s => ∃ k data, s k = some data ∧ Decodes data message
  | .on ctx s => ∃ e ∈ NvsCtx.index ctx, e.id = message.id ∧
      ∃ data, s (slotKey e.slot) = some data ∧ Decodes data message

theorem StoredFor.slotDecodes {sys : StorageSystem (nvsBackend usage cfg)}
    {message : EdgesyncMessage} (h : NvsSound cfg sys) (hs : StoredFor cfg sys.dev message) :
    SlotDecodes message sys := by
  obtain ⟨k, x, hx, hk, hc⟩ := hs
  cases sys with
  | off s => exact ⟨k, x.blob, hk, hc.decodes hx⟩
  | on ctx s =>
    obtain ⟨e, he, hkey⟩ := List.mem_map.mp (h.2 k _ hk)
    subst hkey
    have hheld := h.1.held e he
    have hxe := blob_inj hx hheld.sized (Option.some.inj (hk.symm.trans hheld.stored))
    refine ⟨e, he, ?_, x.blob, hk, hc.decodes hx⟩
    rw [← hc.id, hxe]
    rfl

/-- What a claim hands out was published. -/
theorem PayloadsKept.handed {labels : List FlashqStepLabel} {ctx ctx' : NvsCtx} {s s' : BlobStore}
    {nowUs : Int64} {c : ClaimedMessage} (h : PayloadsKept cfg labels s) (b : NvsBase cfg ctx s)
    (ef : NvsEffect cfg ctx s (.claimNext nowUs) (.ok (.claim (.claimed c))) ctx' s') :
    ∃ message, StorageOp.enqueue message ∈ callsOf labels ∧ c.id = message.id ∧
      c.destination = cString message.destination ∧
      slice ctx'.claimScratch c.payloadOff c.payloadLen.toNat = message.payload := by
  cases ef with
  | @claimed _ pos e _ selected entry hindex hslots borrowed =>
    have hheld := b.held e (List.mem_of_getElem? entry)
    obtain ⟨x, message, hx, hd, hop, hc⟩ := h.published _ _ hheld.stored
    have hxe := blob_inj hx hheld.sized hd.symm
    rw [← hxe] at borrowed ⊢
    refine ⟨message, hop, hc.id, hc.destination, ?_⟩
    rw [← hc.payload, ← borrowed, hxe]
    rfl

/-- In a run whose retries and requeues meet payloads of zeros only, every message
that was accepted keeps its bytes, and a claim hands out the bytes of the message. -/
theorem payload_preserved {labels : List FlashqStepLabel}
    {sys : StorageSystem (nvsBackend usage cfg)}
    (run : GuardedStorageRun (nvsBackend usage cfg) (nvsWorld usage cfg workingStore)
      (KeepsPayload cfg) (.off emptyStore) labels sys)
    (hlen : ∀ op ∈ callsOf labels, op.Counted) :
    (∀ before after message, labels = before ++ .call (.enqueue message) (.ok .done) :: after →
      (∀ op newState, Retires op message.id newState → op ∉ callsOf after) →
      SlotDecodes message sys) ∧
    ∀ nowUs c ctx' s', StorageStep (nvsBackend usage cfg) (nvsWorld usage cfg workingStore) sys
        (.call (.claimNext nowUs) (.ok (.claim (.claimed c)))) (.on ctx' s') →
      ∃ message, StorageOp.enqueue message ∈ callsOf labels ∧ c.id = message.id ∧
        c.destination = cString message.destination ∧
        slice (NvsCtx.claimScratch ctx') c.payloadOff c.payloadLen.toNat = message.payload := by
  have hno : ∀ s c, ¬ workingStore s c .fail := fun _ _ h => h rfl
  obtain ⟨hsound, hkept⟩ := run.payloadsKept hno hlen
  refine ⟨fun before after message hl hretire =>
    (hkept.accepted before after message hl hretire).slotDecodes hsound, ?_⟩
  intro nowUs c ctx' s' step
  cases step with
  | call run =>
    have hop : (StorageOp.claimNext nowUs).Counted := trivial
    exact hkept.handed hsound.1 (nvs_returned hno hsound.1 hop run)

/-! ## A payload of zeros -/

/-- A stored payload of a run that only publishes zeros. -/
theorem PayloadsKept.zeroed {labels : List FlashqStepLabel} {s : BlobStore} {x : StoredMessage}
    {k : Nat} (h : PayloadsKept cfg labels s)
    (hzero : ∀ message, StorageOp.enqueue message ∈ callsOf labels → ∀ b ∈ message.payload, b = 0)
    (hx : x.Sized cfg) (hk : s k = some x.blob) : x.Zeroed := by
  obtain ⟨y, message, hy, hd, hop, hc⟩ := h.published k _ hk
  obtain rfl := blob_inj hx hy hd
  intro b hb
  rw [hc.payload] at hb
  exact hzero message hop b hb

/-- A run that only publishes payloads of zeros keeps them. -/
theorem StorageRun.keepsZeros {labels : List FlashqStepLabel}
    {sys : StorageSystem (nvsBackend usage cfg)} (hno : ∀ s c, ¬ env s c .fail)
    (hmax : cfg.maxMessages.toNat ≤ 100000)
    (run : StorageRun (nvsBackend usage cfg) (nvsWorld usage cfg env) (.off emptyStore) labels sys)
    (hlen : ∀ op ∈ callsOf labels, op.Counted)
    (hzero : ∀ message, StorageOp.enqueue message ∈ callsOf labels → ∀ b ∈ message.payload, b = 0) :
    GuardedStorageRun (nvsBackend usage cfg) (nvsWorld usage cfg env) (KeepsPayload cfg)
      (.off emptyStore) labels sys := by
  induction run with
  | nil => exact .nil
  | @snoc labels sys sys' label run step ih =>
    have hlen' : ∀ op ∈ callsOf labels, op.Counted := fun op hop => hlen op (mem_callsOf_init hop _)
    have hzero' : ∀ message, StorageOp.enqueue message ∈ callsOf labels →
        ∀ b ∈ message.payload, b = 0 := fun message hop => hzero message (mem_callsOf_init hop _)
    have guarded := ih hlen' hzero'
    obtain ⟨hsound, hkept⟩ := guarded.payloadsKept hno hlen'
    refine guarded.snoc step ?_
    cases sys with
    | off s =>
      refine ⟨distinctKeys hmax s, ?_⟩
      rintro x hx ⟨k, hk⟩ -
      exact hkept.zeroed hzero' hx hk
    | on ctx s =>
      intro op hop
      refine ⟨hsound.1.freshKey hmax op, ?_⟩
      rintro id next dead err rfl pos e hfound he
      have hheld := hsound.1.held e (List.mem_of_getElem? he)
      exact hkept.zeroed hzero' hheld.sized hheld.stored

theorem four_slots : (4 : UInt32) ≠ 0 := by decide

/-- A small store. -/
def slotConfig : NvsConfig where
  maxMessages := 4
  maxMessageSize := 16
  maxMessages_ne := four_slots

/-- A message with a payload of zeros. -/
def zeroMessage : EdgesyncMessage := ⟨7, [0x61], 1, 5, [0, 0, 0]⟩

/-- The message is claimed and scheduled again; a restart finds it, another one requeues it,
and it is claimed once more. -/
def zeroScript : NvsScript :=
  [(.boot, []), (.call (.enqueue zeroMessage), []), (.call (.claimNext 10), []),
    (.call (.scheduleRetry 7 20 false 0x8A0A), []), (.stop, []), (.boot, []),
    (.call (.claimNext 30), []), (.stop, []), (.boot, []), (.call (.claimNext 50), [])]

/-- The labels of the script before its last claim. -/
def zeroLabels (c1 c2 : ClaimedMessage) : List FlashqStepLabel :=
  [.booted, .call (.enqueue zeroMessage) (.ok .done),
    .call (.claimNext 10) (.ok (.claim (.claimed c1))),
    .call (.scheduleRetry 7 20 false 0x8A0A) (.ok .done), .stopped, .booted,
    .call (.claimNext 30) (.ok (.claim (.claimed c2))), .stopped, .booted]

/-- What the script shows. -/
def zeroShows : List FlashqStepLabel × StorageSystem (nvsBackend noUsage slotConfig) → Bool
  | ([.booted, .call op1 (.ok .done), .call op2 (.ok (.claim (.claimed _))),
      .call op3 (.ok .done), .stopped, .booted, .call op4 (.ok (.claim (.claimed _))), .stopped,
      .booted, .call op5 (.ok (.claim (.claimed _)))], .on _ _) =>
    decide (op1 = .enqueue zeroMessage ∧ op2 = .claimNext 10 ∧
      op3 = .scheduleRetry 7 20 false 0x8A0A ∧ op4 = .claimNext 30 ∧ op5 = .claimNext 50)
  | _ => false

/-- Zeros survive a claim, a retry and a requeue, and are handed out again. -/
theorem payload_preserved_requeued : ∃ c1 c2 c3 sys ctx s,
    GuardedStorageRun (nvsBackend noUsage slotConfig) (nvsWorld noUsage slotConfig workingStore)
      (KeepsPayload slotConfig) (.off emptyStore) (zeroLabels c1 c2) sys ∧
    SlotDecodes zeroMessage sys ∧
    StorageStep (nvsBackend noUsage slotConfig) (nvsWorld noUsage slotConfig workingStore) sys
      (.call (.claimNext 50) (.ok (.claim (.claimed c3)))) (.on ctx s) ∧
    slice (NvsCtx.claimScratch ctx) c3.payloadOff c3.payloadLen.toNat = [0, 0, 0] := by
  have hcheck : (nvsPlay slotConfig (.off emptyStore) zeroScript []).any zeroShows = true := by
    decide +kernel
  obtain ⟨played, hplay, hshows⟩ := (Option.any_eq_true _ _).mp hcheck
  unfold zeroShows at hshows
  split at hshows
  · rename_i op1 op2 c1 op3 op4 c2 op5 c3 ctx s
    obtain ⟨rfl, rfl, rfl, rfl, rfl⟩ := of_decide_eq_true hshows
    have hcalm : ∀ s c, workingStore s c .run := fun _ _ h => absurd h (by simp)
    have hno : ∀ s c, ¬ workingStore s c .fail := fun _ _ h => h rfl
    have hall : StorageRun (nvsBackend noUsage slotConfig) (nvsWorld noUsage slotConfig workingStore)
        (.off emptyStore)
        (zeroLabels c1 c2 ++ [.call (.claimNext 50) (.ok (.claim (.claimed c3)))]) (.on ctx s) :=
      nvsPlay_run hcalm (by simp [zeroScript]) .nil hplay
    obtain ⟨sys, run, last⟩ := hall.last
    have hops : ∀ op ∈ callsOf (zeroLabels c1 c2), op = .enqueue zeroMessage ∨
        op = .claimNext 10 ∨ op = .scheduleRetry 7 20 false 0x8A0A ∨ op = .claimNext 30 := by
      intro op hop
      simpa [callsOf, zeroLabels, FlashqStepLabel.op?] using hop
    have hlen : ∀ op ∈ callsOf (zeroLabels c1 c2), op.Counted := by
      intro op hop
      obtain rfl | rfl | rfl | rfl := hops op hop
      · rfl
      all_goals trivial
    have hmessage : ∀ message, StorageOp.enqueue message ∈ callsOf (zeroLabels c1 c2) →
        message = zeroMessage := by
      intro message hop
      simpa using hops _ hop
    have hzero : ∀ b ∈ zeroMessage.payload, b = 0 := by simp [zeroMessage]
    have guarded := run.keepsZeros hno (by decide) hlen fun message hop => by
      rw [hmessage message hop]
      exact hzero
    obtain ⟨hdecodes, hclaims⟩ := payload_preserved guarded hlen
    obtain ⟨message, hop, -, -, hbytes⟩ := hclaims 50 c3 ctx s last
    rw [hmessage message hop] at hbytes
    refine ⟨c1, c2, c3, sys, ctx, s, guarded,
      hdecodes [.booted] _ zeroMessage rfl fun op newState retires hop => ?_, last, hbytes⟩
    cases retires <;> simp [callsOf, FlashqStepLabel.op?] at hop
  · exact absurd hshows (by simp)

/-! ## A payload that is lost -/

/-- A message with a payload. -/
def slotMessage : EdgesyncMessage := ⟨7, [0x61], 1, 5, [1, 2, 3]⟩

/-- The message is accepted, claimed, scheduled again and claimed again. -/
def retryScript : NvsScript :=
  [(.boot, []), (.call (.enqueue slotMessage), []), (.call (.claimNext 10), []),
    (.call (.scheduleRetry 7 20 false 0x8A0A), []), (.call (.claimNext 30), [])]

/-- What the run shows. -/
def retryShows :
    List FlashqStepLabel × StorageSystem (nvsBackend noUsage slotConfig) → Bool
  | ([.booted, .call op1 (.ok .done), .call op2 (.ok (.claim (.claimed _))),
      .call op3 (.ok .done), .call op4 (.ok (.claim (.claimed c')))], .on ctx s) =>
    decide (op1 = .enqueue slotMessage ∧ op2 = .claimNext 10 ∧
      op3 = .scheduleRetry 7 20 false 0x8A0A ∧ op4 = .claimNext 30 ∧
      (NvsCtx.index ctx).map (fun e => (e.id, slotKey e.slot)) = [(7, 0)] ∧
      (∃ data ∈ s 0, ¬ Decodes data slotMessage) ∧ c'.id = 7 ∧
      slice (NvsCtx.claimScratch ctx) c'.payloadOff c'.payloadLen.toNat = [0, 0, 0])
  | _ => false

/-- After the retry the slot no longer holds the bytes, and the second claim hands
out zeros. -/
theorem payload_lost : ∃ (ctx : NvsCtx) (s : BlobStore) (c c' : ClaimedMessage) (data : Bytes),
    StorageRun (nvsBackend noUsage slotConfig) (nvsWorld noUsage slotConfig quietStore)
      (.off emptyStore)
      [.booted, .call (.enqueue slotMessage) (.ok .done),
        .call (.claimNext 10) (.ok (.claim (.claimed c))),
        .call (.scheduleRetry 7 20 false 0x8A0A) (.ok .done),
        .call (.claimNext 30) (.ok (.claim (.claimed c')))] (.on ctx s) ∧
    ctx.index.map (fun e => (e.id, slotKey e.slot)) = [(7, 0)] ∧ s 0 = some data ∧
    ¬ Decodes data slotMessage ∧ c'.id = 7 ∧
    slice ctx.claimScratch c'.payloadOff c'.payloadLen.toNat = [0, 0, 0] := by
  have hcheck : (nvsPlay slotConfig (.off emptyStore) retryScript []).any retryShows = true := by
    decide +kernel
  obtain ⟨played, hplay, hshows⟩ := (Option.any_eq_true _ _).mp hcheck
  unfold retryShows at hshows
  split at hshows
  · rename_i op1 op2 c op3 op4 c' ctx s
    obtain ⟨rfl, rfl, rfl, rfl, hindex, ⟨data, hdata, hnot⟩, hid, hzero⟩ := of_decide_eq_true hshows
    exact ⟨ctx, s, c, c', data, nvsPlay_quiet (by decide) hplay, hindex, hdata, hnot, hid, hzero⟩
  · exact absurd hshows (by simp)

end EdgeSync
