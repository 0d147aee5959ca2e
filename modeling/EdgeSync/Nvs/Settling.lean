/-
  Nvs/Settling.lean --- the worker's calls on the NVS backend, by the functions that fail.

  A claim assigns the entry before it writes the record, so it orphans the entry exactly
  where a record that was read cannot be written.  A settlement needs the blob that the claim
  wrote: while it is there, `op_mark_delivered` works if `nvs_erase_key` and `nvs_commit` do,
  and `op_schedule_retry` assigns the new state if `nvs_get_blob` works.
-/
import EdgeSync.Encodable
import EdgeSync.Nvs.Misread

set_option autoImplicit false

namespace EdgeSync

open Foundation

variable {cfg : NvsConfig} {usage : BlobStore → UInt32 × UInt32}
  {env : Env BlobCall BlobStore BlobEvent} {ctx ctx' : NvsCtx} {s s' : BlobStore} {nowUs : Int64}

/-! ## Writing a record that was read -/

theorem strlen_destinationOf_le (scratch : Bytes) (off len : Nat) :
    strlen (destinationOf scratch off len) ≤ len := by
  refine (strlen_overlay_zeros _ _).trans ?_
  rw [length_slice]
  exact Nat.min_le_left _ _

/-- Where `nvs_set_blob` and `nvs_commit` work, an encodable record is written. -/
theorem wp_writeEntry_works {e : NvsIndexEntry} {destination : Bytes} {payload : Body}
    (he : e.Encodable cfg.scratchSize) (hd : strlen destination ≤ e.destinationLen.toNat)
    (hset : ¬ NvsFails env .setBlob) (hcommit : ¬ NvsFails env .commit) :
    wp (blobDevice usage) env (writeEntry cfg e destination payload)
      ⟨fun _ c s' => c.index = ctx.index ∧ Stores cfg s' e.slot e.id, fun _ _ _ => False,
        fun _ => True⟩ ctx s := by
  obtain ⟨hdest, hsize⟩ := he.encodes hd
  obtain ⟨⟨buf, encLen⟩, henc⟩ := @encodeMessageFull_isSome ctx.scratch _ e.id _ e.priority e.state
    e.attemptCount e.createdAtUs e.lastAttemptAtUs e.nextRetryAtUs e.lastError payload _ 0 hdest
    (hsize.trans he.record)
  unfold writeEntry
  simp only [Prog.bind_eq, wp_bind, wp_read, henc, wp_modify]
  refine wp_nvsSetBlob ?_ (fun hev => absurd ⟨_, _, rfl, hev⟩ hset) fun _ _ => ⟨trivial, trivial⟩
  simp only [if_true, wp_bind]
  refine wp_nvsCommit ?_ (fun hev => absurd ⟨_, _, rfl, hev⟩ hcommit) fun _ _ => trivial
  simp only [if_true, Prog.pure_eq, wp_ret]
  exact ⟨trivial, _, BlobStore.set_self .., encodeMessageFull_readsAs henc⟩

/-! ## The three calls -/

/-- The message that is due can be claimed: if its slot holds a record that is accepted, the
record can be written back. -/
def ClaimWrites (cfg : NvsConfig) (env : Env BlobCall BlobStore BlobEvent) (ctx : NvsCtx)
    (s : BlobStore) (nowUs : Int64) : Prop :=
  ∀ (pos : Nat) (e : NvsIndexEntry), selectClaim nowUs ctx.metas = some pos →
    ctx.index[pos]? = some e → (∃ id, Stores cfg s e.slot id) →
    ¬ NvsFails env .setBlob ∧ ¬ NvsFails env .commit

/-- A claim that fails leaves the entries alone, and one that succeeds leaves the record of
its message in the slot. -/
theorem wp_nvsOpClaimNext_writes (hu : (ctx.metas.map (·.id)).Nodup)
    (hencodable : ∀ x ∈ ctx.metas, x.Encodable cfg.scratchSize)
    (hwrites : ClaimWrites cfg env ctx s nowUs) :
    wp (blobDevice usage) env (nvsOpClaimNext cfg nowUs)
      ⟨fun reply c s' => ∀ msg, reply = .claimed msg → ∀ e ∈ c.index, e.id = msg.id →
          Stores cfg s' e.slot e.id,
        fun _ c _ => c.metas = ctx.metas, fun _ => True⟩ ctx s := by
  unfold nvsOpClaimNext
  simp only [Prog.bind_eq, wp_bind, wp_read]
  cases hsel : selectClaim nowUs (ctx.index.map (·.toEntryMeta)) with
  | none => exact wp_fail.mpr rfl
  | some pos =>
    obtain ⟨x, hx, _⟩ := pick_some hsel
    obtain ⟨e, he, rfl⟩ := NvsCtx.getElem?_metas hx
    simp only [wp_bind]
    refine wp_nvsEntryAt he ?_
    simp only [wp_attempt]
    refine wp_readSlot (fun _ => wp_fail.mpr rfl) (fun data hs hbad scratch => ?_)
      (fun _ => wp_fail.mpr rfl) (fun data hdr hs hreads scratch => ?_) fun _ _ _ => trivial
    · -- the slot holds no record: the entry becomes a dead letter, and the claim reports it
      unfold nvsAssignEntry
      simp only [wp_bind, wp_modify]
      refine wp_mono (leaves_wp (leaves_discardSlot (Q := fun _ _ => True) (E := fun _ _ => False)
        trivial)) (fun _ _ _ _ => wp_ret.mpr fun msg hreply => ?_) (fun _ _ _ hfalse => hfalse.elim)
        fun _ _ => trivial
      cases hreply
    · obtain ⟨hset, hcommit⟩ := hwrites pos e hsel he ⟨_, data, hs, hreads⟩
      unfold nvsClaimIntact nvsAssignEntry
      simp only [Prog.bind_eq, Prog.pure_eq, wp_bind, wp_modify]
      generalize hc1 : NvsCtx.mk _ _ _ _ = c1
      have hindex : c1.index = ctx.index.modify pos fun e =>
          { e with
            attemptCount := e.attemptCount + 1
            state := FlashqState.inFlight.code
            lastAttemptAtUs := nowUs } := by
        rw [← hc1]
      have he1 : c1.index[pos]? = some { e with
          attemptCount := e.attemptCount + 1
          state := FlashqState.inFlight.code
          lastAttemptAtUs := nowUs } := by
        rw [hindex]
        simp only [List.getElem?_modify, if_true, he]
        rfl
      refine wp_nvsEntryAt he1 ?_
      simp only [wp_read]
      have hencode := hencodable _ (List.mem_of_getElem? hx)
      refine wp_mono (wp_writeEntry_works ⟨hencode.destination, hencode.record⟩
        (strlen_destinationOf_le _ _ _) hset hcommit) (fun _ c2 s2 hc2 => ?_)
        (fun _ _ _ hfalse => hfalse.elim) fun _ _ => trivial
      obtain ⟨hsame, hstores⟩ := hc2
      simp only [wp_ret]
      intro msg hreply f hf hid
      cases hreply
      -- the entry with the id of the message is the one that was assigned
      rw [hsame, hindex] at hf
      rcases mem_of_mem_modify hf with hf | ⟨a, ha, rfl⟩
      · have hids : (ctx.index.map (·.id)).Nodup := by
          rwa [NvsCtx.metas, List.map_map] at hu
        rw [List.inj_on_of_nodup_map hids hf (List.mem_of_getElem? he) hid]
        exact hstores
      · rw [he] at ha
        cases ha
        exact hstores

/-- `op_mark_delivered` of a message whose blob is there. -/
theorem wp_nvsOpMarkDelivered_works {id : UInt64} {pos : Nat} {e : NvsIndexEntry}
    (hfound : nvsFindEntry ctx.index id = some pos) (he : ctx.index[pos]? = some e)
    (hstores : Stores cfg s e.slot e.id) (herase : ¬ NvsFails env .eraseKey)
    (hcommit : ¬ NvsFails env .commit) :
    wp (blobDevice usage) env (nvsOpMarkDelivered id)
      ⟨fun _ _ _ => True, fun _ _ _ => False, fun _ => True⟩ ctx s := by
  obtain ⟨data, hs, _⟩ := hstores
  unfold nvsOpMarkDelivered
  simp only [Prog.bind_eq, wp_bind, wp_read, hfound]
  refine wp_nvsEntryAt he ?_
  refine wp_nvsEraseKey ?_ (fun hev => absurd ⟨_, _, rfl, hev⟩ herase) fun _ _ => ⟨trivial, trivial⟩
  simp only [hs, Option.isSome_some, if_true, wp_bind]
  refine wp_nvsCommit ?_ (fun hev => absurd ⟨_, _, rfl, hev⟩ hcommit) fun _ _ => trivial
  simp only [if_true]
  exact wp_modify.mpr trivial

/-- `op_schedule_retry` of a message whose record can be read assigns the new state, whether
or not the record is written. -/
theorem wp_nvsOpScheduleRetry_assigns {id : UInt64} {nextRetryTimeUs : Int64} {deadLetter : Bool}
    {lastError : Int32} {pos : Nat} {e : NvsIndexEntry}
    (hfound : nvsFindEntry ctx.index id = some pos) (he : ctx.index[pos]? = some e)
    (hstores : Stores cfg s e.slot e.id) (hget : ¬ NvsFails env .getBlob) :
    wp (blobDevice usage) env (nvsOpScheduleRetry cfg id nextRetryTimeUs deadLetter lastError)
      ⟨fun _ c _ => c.metas = ctx.metas.modify pos
          (·.change (Progress.retried nextRetryTimeUs deadLetter lastError)),
        fun _ c _ => c.metas = ctx.metas.modify pos
          (·.change (Progress.retried nextRetryTimeUs deadLetter lastError)), fun _ => True⟩
      ctx s := by
  obtain ⟨data, hs, hreads⟩ := hstores
  unfold nvsOpScheduleRetry
  simp only [Prog.bind_eq, wp_bind, wp_read, hfound]
  refine wp_nvsEntryAt he ?_
  refine wp_readSlot (fun hmiss => ?_) (fun data' hs' hbad => ?_)
    (fun hev => absurd ⟨_, _, rfl, hev⟩ hget) (fun _ hdr _ _ scratch => ?_) fun _ _ _ => trivial
  · rcases hmiss with hnone | hev
    · rw [hs] at hnone
      cases hnone
    · exact absurd ⟨_, _, rfl, hev⟩ hget
  · rw [hs] at hs'
    cases hs'
    exact absurd hreads (hbad _)
  · unfold nvsAssignEntry
    simp only [wp_modify]
    generalize hc1 : NvsCtx.mk _ _ _ _ = c1
    have hmetas : c1.metas = ctx.metas.modify pos
        (·.change (Progress.retried nextRetryTimeUs deadLetter lastError)) := by
      rw [← hc1]
      exact nvs_metas_modify pos fun _ => rfl
    have he1 : ∃ e1, c1.index[pos]? = some e1 := by
      rw [← hc1]
      simp only [List.getElem?_modify, if_true, he]
      exact ⟨_, rfl⟩
    obtain ⟨e1, he1⟩ := he1
    refine wp_nvsEntryAt he1 ?_
    exact wp_mono (leaves_wp (keeps_writeEntry cfg e1 _ _ c1))
      (fun _ c2 _ hc2 => (NvsCtx.metas_eq hc2).trans hmetas)
      (fun _ c2 _ hc2 => (NvsCtx.metas_eq hc2).trans hmetas) fun _ _ => trivial

/-! ## The blob of the message in flight -/

/-- The call neither claims nor settles, and it is about other messages. -/
def StorageOp.PassesBy (id? : Option UInt64) : StorageOp → Prop
  | .enqueue message => id? ≠ some message.id
  | .remove id => id? ≠ some id
  | .findDropCandidate _ => True
  | .getStats _ => True
  | _ => False

/-- Slots of their own, encodable records, and the record of the message in flight. -/
structure HoldsFlight (cfg : NvsConfig) (ctx : NvsCtx) (s : BlobStore) (id? : Option UInt64) :
    Prop where
  owned : SlotsOwned cfg ctx
  encodable : ∀ x ∈ ctx.metas, x.Encodable cfg.scratchSize
  stored : ∀ id, id? = some id → ∀ e ∈ ctx.index, e.id = id → Stores cfg s e.slot e.id

/-- `op_find_drop_candidate` and `op_get_stats` change nothing. -/
theorem keeps_nvsLooks {op : StorageOp}
    (hop : (∃ policy, op = .findDropCandidate policy) ∨ ∃ stats, op = .getStats stats) :
    Keeps NvsCtx.index (nvsCall cfg op) ∧ Only (fun c => ∀ key, c.Spares key) (nvsCall cfg op) := by
  have hentry : ∀ pos, Keeps NvsCtx.index (nvsEntryAt pos) ∧
      Only (fun c => ∀ key, c.Spares key) (nvsEntryAt pos) := by
    intro pos
    constructor
    · refine Keeps.bind Keeps.read fun ctx => ?_
      split
      · exact Keeps.ret _
      · exact Keeps.fail _
    · refine Only.bind Only.read fun ctx => ?_
      split
      · exact Only.ret _
      · exact Only.fail _
  rcases hop with ⟨policy, rfl⟩ | ⟨stats, rfl⟩
  · constructor
    · refine Keeps.bind (Keeps.bind Keeps.read fun ctx => ?_) fun _ => Keeps.ret _
      split
      · exact Keeps.fail _
      · exact Keeps.bind (hentry _).1 fun _ => Keeps.ret _
    · refine Only.bind (Only.bind Only.read fun ctx => ?_) fun _ => Only.ret _
      split
      · exact Only.fail _
      · exact Only.bind (hentry _).2 fun _ => Only.ret _
  · constructor
    · refine Keeps.bind (Keeps.bind Keeps.read fun ctx => Keeps.bind (Keeps.ask _) fun counts => ?_)
        fun _ => Keeps.ret _
      cases counts with
      | none => exact Keeps.ret _
      | some counts => exact Keeps.ret _
    · have husage : ∀ key, BlobCall.usage.Spares key := fun _ => trivial
      refine Only.bind (Only.bind Only.read fun ctx => Only.bind (Only.ask husage) fun counts => ?_)
        fun _ => Only.ret _
      cases counts with
      | none => exact Only.ret _
      | some counts => exact Only.ret _

/-- Entries appear through `op_enqueue` only. -/
theorem leaves_members {op : StorageOp} {id? : Option UInt64} (hop : op.PassesBy id?) (ctx : NvsCtx) :
    leaves (nvsCall cfg op)
      (fun _ c => ∀ e ∈ c.index, e ∈ ctx.index ∨ id? ≠ some e.id)
      (fun _ c => ∀ e ∈ c.index, e ∈ ctx.index ∨ id? ≠ some e.id) ctx := by
  have hsame : ∀ c : NvsCtx, c.index = ctx.index → ∀ e ∈ c.index, e ∈ ctx.index ∨ id? ≠ some e.id := by
    intro c hc e he
    exact .inl (hc ▸ he)
  unfold nvsCall
  cases op with
  | enqueue message =>
    simp only [StorageOps.call, sNvsOps, nvsOpEnqueue, Prog.bind_eq, Prog.pure_eq, leaves_bind,
      leaves_read, leaves_ret, leaves_ite]
    refine ⟨fun _ => leaves_fail.mpr (hsame ctx rfl), fun _ => ?_⟩
    cases findFreeSlot ctx.slotUsed with
    | none => exact leaves_fail.mpr (hsame ctx rfl)
    | some slot =>
      simp only [leaves_bind]
      refine leaves_mono (keeps_writeEntry cfg _ _ _ ctx) (fun _ c hc => leaves_modify.mpr ?_)
        fun _ c hc => hsame c hc
      intro e he
      rcases List.mem_append.mp he with he | he
      · exact hsame c hc e he
      · rw [List.mem_singleton.mp he]
        exact .inr hop
  | remove id =>
    simp only [StorageOps.call, sNvsOps, nvsOpRemove, nvsOpMarkDelivered, Prog.bind_eq,
      Prog.pure_eq, leaves_bind, leaves_read, leaves_ret]
    cases hpos : nvsFindEntry ctx.index id with
    | none => exact leaves_fail.mpr (hsame ctx rfl)
    | some pos =>
      obtain ⟨e, he, _⟩ := findPos_some hpos
      simp only [leaves_bind]
      refine leaves_nvsEntryAt he (leaves_ask.mpr fun erased => ?_)
      simp only [leaves_ite, leaves_fail, leaves_bind]
      refine ⟨fun _ => leaves_ask.mpr fun committed => ⟨fun _ => ?_, fun _ => hsame ctx rfl⟩,
        fun _ => hsame ctx rfl⟩
      exact leaves_modify.mpr fun e he => .inl (mem_of_mem_swapRemove he)
  | findDropCandidate policy =>
    exact leaves_mono ((keeps_nvsLooks (.inl ⟨policy, rfl⟩)).1 ctx) (fun _ c hc => hsame c hc)
      fun _ c hc => hsame c hc
  | getStats stats =>
    exact leaves_mono ((keeps_nvsLooks (.inr ⟨stats, rfl⟩)).1 ctx) (fun _ c hc => hsame c hc)
      fun _ c hc => hsame c hc
  | _ => exact hop.elim

section Blob

variable {o : Outcome NvsCtx BlobStore EspErr StorageReply} {id? : Option UInt64}

/-- Removing another message leaves the blob of an entry alone. -/
theorem remove_spares (h : SlotsOwned cfg ctx) (hmax : cfg.maxMessages.toNat ≤ 100000)
    {e : NvsIndexEntry} (he : e ∈ ctx.index) {id : UInt64} (hid : e.id ≠ id) :
    wp (blobDevice usage) env (nvsOpMarkDelivered id)
      (.always fun s' => s' (slotKey e.slot) = s (slotKey e.slot)) ctx s := by
  unfold nvsOpMarkDelivered
  simp only [Prog.bind_eq, wp_bind, wp_read]
  cases hpos : nvsFindEntry ctx.index id with
  | none => exact wp_fail.mpr rfl
  | some pos =>
    obtain ⟨f, hf, hfid⟩ := findPos_some hpos
    have hmem : f ∈ ctx.index := List.mem_of_getElem? hf
    have hne : slotKey f.slot ≠ slotKey e.slot := by
      have hlt := h.lt_of_mem (List.mem_map_of_mem he)
      have hlt' := h.lt_of_mem (List.mem_map_of_mem hmem)
      rw [slotKey, slotKey, Nat.mod_eq_of_lt (by omega), Nat.mod_eq_of_lt (by omega)]
      intro heq
      have hsame := List.inj_on_of_nodup_map h.distinct hmem he heq
      rw [hsame] at hfid
      exact hid (eq_of_beq hfid)
    have hrest : Only (BlobCall.Spares (slotKey e.slot)) (do
        if ← nvsEraseKey (slotKey f.slot) then
          if ← nvsCommit then nvsRemoveEntryAt pos else .fail .storage
        else .fail .storage : NvsM Unit) := by
      refine Only.bind (Only.ask hne) fun _ => Only.ite (fun _ => ?_) fun _ => Only.fail _
      refine Only.bind (Only.ask trivial) fun _ => Only.ite (fun _ => ?_) fun _ => Only.fail _
      exact Only.modify _
    exact wp_bind.mpr (wp_nvsEntryAt hf
      (hrest.keeps (fun s' c ev hc hs' => (hc.respond s' ev).trans hs') rfl))

/-- A message that `op_enqueue` accepts was encoded. -/
theorem leaves_enqueue_encodes (message : EdgesyncMessage) (ctx : NvsCtx) :
    leaves (nvsCall cfg (.enqueue message)) (fun _ _ => message.EncodesNvs cfg) (fun _ _ => True)
      ctx := by
  have hwrite : ∀ e : NvsIndexEntry, e.payloadLen = message.payloadLen → ∀ payload ctx,
      leaves (writeEntry cfg e message.destination payload) (fun _ _ => message.EncodesNvs cfg)
        (fun _ _ => True) ctx := by
    intro e he payload ctx
    unfold writeEntry
    simp only [Prog.bind_eq, leaves_bind, leaves_read]
    split
    · exact leaves_fail.mpr trivial
    · rename_i henc
      have hencodes : message.EncodesNvs cfg := by
        by_contra hno
        by_cases hd : strlen message.destination ≤ maxDestinationLen
        · rw [he, encodeMessageFull_none_of_cap (Nat.lt_of_not_le fun hcap => hno ⟨hd, hcap⟩)] at henc
          cases henc
        · rw [encodeMessageFull_none_of_dest (Nat.lt_of_not_le hd)] at henc
          cases henc
      exact leaves_mono (leaves_true _ _) (fun _ _ _ => hencodes) fun _ _ _ => trivial
  unfold nvsCall
  simp only [StorageOps.call, sNvsOps, nvsOpEnqueue, Prog.bind_eq, Prog.pure_eq, leaves_bind,
    leaves_read, leaves_ret, leaves_ite]
  refine ⟨fun _ => leaves_fail.mpr trivial, fun _ => ?_⟩
  cases findFreeSlot ctx.slotUsed with
  | none => exact leaves_fail.mpr trivial
  | some slot =>
    simp only [leaves_bind]
    exact leaves_mono (hwrite _ rfl _ ctx) (fun _ _ h => leaves_modify.mpr h) fun _ _ h => h

/-- A call that passes the message in flight by leaves its blob alone. -/
theorem blob_of_passed {op : StorageOp} (h : SlotsOwned cfg ctx)
    (hmax : cfg.maxMessages.toNat ≤ 100000) {e : NvsIndexEntry} (he : e ∈ ctx.index)
    (hop : op.PassesBy (some e.id)) (run : Runs (blobDevice usage) env (nvsCall cfg op) ctx s o) :
    o.dev (slotKey e.slot) = s (slotKey e.slot) := by
  have hlooks : Only (fun c => ∀ key, c.Spares key) (nvsCall cfg op) →
      o.dev (slotKey e.slot) = s (slotKey e.slot) := by
    intro honly
    exact Outcome.meets_always.mp (wp_sound run (honly.keeps
      (I := fun s' => s' (slotKey e.slot) = s (slotKey e.slot))
      (fun s' c ev hc hs' => ((hc _).respond s' ev).trans hs') rfl))
  cases op with
  | enqueue message => exact nvs_spares_entries h hmax he run
  | remove id =>
    refine Outcome.meets_always.mp (wp_sound run (wp_always_bind (remove_spares h hmax he ?_)
      fun _ _ _ hs' => wp_ret.mpr hs'))
    exact fun heq => hop (congrArg some heq)
  | findDropCandidate policy => exact hlooks (keeps_nvsLooks (.inl ⟨policy, rfl⟩)).2
  | getStats stats => exact hlooks (keeps_nvsLooks (.inr ⟨stats, rfl⟩)).2
  | _ => exact hop.elim

variable {op : StorageOp} {res : Except EspErr StorageReply} {id : UInt64}

/-- What every call keeps. -/
theorem HoldsFlight.call (h : HoldsFlight cfg ctx s id?)
    (run : Runs (blobDevice usage) env (nvsCall cfg op) ctx s (.returned res ctx' s')) :
    HoldsFlight cfg ctx' s' none := by
  have step : CallStep true cfg.indexCapacity ctx.metas op res ctx'.metas := by
    cases res with
    | ok reply => exact leaves_sound run (leaves_nvsCall cfg op ctx)
    | error err => exact leaves_sound run (leaves_nvsCall cfg op ctx)
  refine ⟨?_, step.encodable h.encodable ?_, fun id hid => by cases hid⟩
  · cases res with
    | ok reply => exact leaves_sound run (owned_nvsCall h.owned op)
    | error err => exact leaves_sound run (owned_nvsCall h.owned op)
  · rintro message rfl rfl
    obtain ⟨hd, hsize⟩ := leaves_sound run (leaves_enqueue_encodes message ctx)
    exact ⟨(strlen_toNat hd).le.trans hd, hsize⟩

theorem HoldsFlight.passed (h : HoldsFlight cfg ctx s id?) (hmax : cfg.maxMessages.toNat ≤ 100000)
    (hop : op.PassesBy id?)
    (run : Runs (blobDevice usage) env (nvsCall cfg op) ctx s (.returned res ctx' s')) :
    HoldsFlight cfg ctx' s' id? := by
  have hmembers : ∀ e ∈ ctx'.index, e ∈ ctx.index ∨ id? ≠ some e.id := by
    cases res with
    | ok reply => exact leaves_sound run (leaves_members hop ctx)
    | error err => exact leaves_sound run (leaves_members hop ctx)
  have hdev : (Outcome.returned res ctx' s').dev = s' := by
    cases res <;> rfl
  refine ⟨(h.call run).owned, (h.call run).encodable, fun id hid e he heid => ?_⟩
  have hmem := (hmembers e he).resolve_right (by rw [hid, heid]; exact fun hne => hne rfl)
  obtain ⟨data, hs, hreads⟩ := h.stored id hid e hmem heid
  have hblob := blob_of_passed h.owned hmax hmem (by rw [heid, ← hid]; exact hop) run
  rw [hdev] at hblob
  exact ⟨data, hblob.trans hs, hreads⟩

/-- A claim, while nothing is in flight. -/
theorem HoldsFlight.claim (h : HoldsFlight cfg ctx s none) (hu : (ctx.metas.map (·.id)).Nodup)
    (hwrites : ClaimWrites cfg env ctx s nowUs)
    (run : Runs (blobDevice usage) env (nvsCall cfg (.claimNext nowUs)) ctx s
      (.returned res ctx' s')) :
    (∀ err, res = .error err → ctx'.metas = ctx.metas) ∧
      ∀ msg, res = .ok (.claim (.claimed msg)) → HoldsFlight cfg ctx' s' (some msg.id) := by
  have hclaim : wp (blobDevice usage) env (nvsCall cfg (.claimNext nowUs))
      ⟨fun reply c s' => ∀ msg, reply = .claim (.claimed msg) → ∀ e ∈ c.index, e.id = msg.id →
          Stores cfg s' e.slot e.id,
        fun _ c _ => c.metas = ctx.metas, fun _ => True⟩ ctx s := by
    refine wp_seq (wp_nvsOpClaimNext_writes hu h.encodable hwrites) (fun reply c s' hc => ?_)
      (fun _ _ _ hc => hc) fun _ hc => hc
    exact wp_ret.mpr fun msg hreply => hc msg (StorageReply.claim.inj hreply)
  have hmeets := wp_sound run hclaim
  cases res with
  | ok reply =>
    refine ⟨fun err herr => absurd herr (by simp), fun msg hmsg => ?_⟩
    refine ⟨(h.call run).owned, (h.call run).encodable, fun id hid e he heid => ?_⟩
    cases hid
    exact hmeets msg (Except.ok.inj hmsg) e he heid
  | error err => exact ⟨fun _ _ => hmeets, fun msg hmsg => by cases hmsg⟩

/-- The entry of the message in flight. -/
theorem HoldsFlight.entry (h : HoldsFlight cfg ctx s (some id)) (hin : id ∈ ctx.metas.map (·.id)) :
    ∃ pos e, nvsFindEntry ctx.index id = some pos ∧ ctx.index[pos]? = some e ∧
      Stores cfg s e.slot e.id := by
  obtain ⟨pos, hpos⟩ := findMeta_of_mem hin
  rw [findMeta_nvsMetas] at hpos
  obtain ⟨e, he, hid⟩ := findPos_some hpos
  exact ⟨pos, e, hpos, he, h.stored id rfl e (List.mem_of_getElem? he) (eq_of_beq hid)⟩

/-- The delivery of the message in flight is recorded. -/
theorem HoldsFlight.delivered (h : HoldsFlight cfg ctx s (some id))
    (hin : id ∈ ctx.metas.map (·.id)) (herase : ¬ NvsFails env .eraseKey)
    (hcommit : ¬ NvsFails env .commit)
    (run : Runs (blobDevice usage) env (nvsCall cfg (.markDelivered id)) ctx s
      (.returned res ctx' s')) : ∃ reply, res = .ok reply := by
  obtain ⟨pos, e, hpos, he, hstores⟩ := h.entry hin
  have hmeets := wp_sound run (wp_seq (P := ⟨fun _ _ _ => True, fun _ _ _ => False, fun _ => True⟩)
    (wp_nvsOpMarkDelivered_works hpos he hstores herase hcommit)
    (fun _ _ _ _ => wp_ret.mpr trivial) (fun _ _ _ hfalse => hfalse) fun _ _ => trivial)
  cases res with
  | ok reply => exact ⟨reply, rfl⟩
  | error err => exact hmeets.elim

/-- The retry of the message in flight is assigned. -/
theorem HoldsFlight.retried (h : HoldsFlight cfg ctx s (some id))
    (hin : id ∈ ctx.metas.map (·.id)) (hget : ¬ NvsFails env .getBlob) {nextRetryTimeUs : Int64}
    {deadLetter : Bool} {lastError : Int32}
    (run : Runs (blobDevice usage) env
      (nvsCall cfg (.scheduleRetry id nextRetryTimeUs deadLetter lastError)) ctx s
      (.returned res ctx' s')) :
    ∃ pos, findMeta ctx.metas id = some pos ∧ ctx'.metas = ctx.metas.modify pos
      (·.change (Progress.retried nextRetryTimeUs deadLetter lastError)) := by
  obtain ⟨pos, e, hpos, he, hstores⟩ := h.entry hin
  have hassigns : wp (blobDevice usage) env
      (nvsCall cfg (.scheduleRetry id nextRetryTimeUs deadLetter lastError))
      ⟨fun _ c _ => c.metas = ctx.metas.modify pos
          (·.change (Progress.retried nextRetryTimeUs deadLetter lastError)),
        fun _ c _ => c.metas = ctx.metas.modify pos
          (·.change (Progress.retried nextRetryTimeUs deadLetter lastError)), fun _ => True⟩ ctx s :=
    wp_seq (wp_nvsOpScheduleRetry_assigns hpos he hstores hget) (fun _ _ _ hc => wp_ret.mpr hc)
      (fun _ _ _ hc => hc) fun _ hc => hc
  have hmeets := wp_sound run hassigns
  refine ⟨pos, (findMeta_nvsMetas ctx id).trans hpos, ?_⟩
  cases res with
  | ok reply => exact hmeets
  | error err => exact hmeets

end Blob

end EdgeSync
