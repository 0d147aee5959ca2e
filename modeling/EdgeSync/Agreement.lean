/-
  Agreement.lean --- both backends implement the same queue.

  A call of either backend is a step of the table of messages, and a restart makes
  of either table the settled one.  Two backends that are asked for the same then
  answer the same: their tables hold the same messages, in some order.
-/
import EdgeSync.Flashq.Integrity
import EdgeSync.Nvs.Script
import EdgeSync.Table

set_option autoImplicit false

namespace EdgeSync

open Foundation

/-! ## The table of the NVS backend -/

section Nvs

variable {cfg : NvsConfig} {q q' : List StoredMessage} {op : StorageOp} {err : EspErr}
  {res : Except EspErr StorageReply}

theorem NvsRefused.table {index : List EntryMeta} (h : NvsRefused cfg index op err) :
    TableRefused cfg.indexCapacity (·.EncodesNvs cfg) index op err := by
  cases h with
  | full full => exact .full full
  | encoding room encodes => exact .encoding room encodes
  | idle none => exact .idle none
  | retire retires none => exact .retire retires none
  | retry none => exact .retry none
  | candidate none => exact .candidate none

/-- A call of the NVS backend, without the payloads. -/
theorem SlotStep.table (step : SlotStep cfg q op res q') :
    TableStep cfg.indexCapacity (·.EncodesNvs cfg) (headings q) op res (headings q') := by
  cases step with
  | refused why => exact .refused (by rw [metas_headings]; exact why.table)
  | candidate selected entry =>
    exact .candidate (x := StoredMessage.heading _) (by rw [metas_headings]; exact selected)
      (headings_getElem? entry)
  | stats counted =>
    obtain ⟨total, used, rfl⟩ := counted
    exact .stats (by rw [metas_headings]; exact ⟨rfl, rfl, rfl, rfl, rfl⟩)
  | enqueued room encodes =>
    rw [headings_append]
    exact .enqueued (by rwa [length_headings]) encodes
  | @claimed nowUs pos x selected entry =>
    rw [headings_modify (g := Progress.claimed nowUs) _ _ fun _ => rfl]
    exact .claimed (x := x.heading) (by rw [metas_headings]; exact selected)
      (headings_getElem? entry)
  | retired retires found =>
    rw [headings_swapRemove]
    exact .retired retires ((findMessage_headings q _).trans found)
  | @retried id next dead err pos found =>
    rw [headings_modify (g := Progress.retried next dead err) _ _ fun _ => rfl]
    exact .retried ((findMessage_headings q _).trans found)

end Nvs

/-! ## The table of the flash queue -/

section Flashq

variable {cfg : FlashqConfig} {c c' : Core} {m m' : Memory} {recs recs' : List (Nat × RecordHdr)}
  {op : StorageOp} {res : Except EspErr StorageReply}

theorem Refused.table {index : List FlashqIndexEntry} {err : EspErr}
    (h : Refused cfg index err op) :
    TableRefused cfg.indexCapacity (·.Encodes cfg) (index.map (·.toEntryMeta)) op err := by
  have hfind : ∀ {id}, findEntry index id = none →
      findMeta (index.map (·.toEntryMeta)) id = none := by
    intro id h
    rw [findMeta, findPos_map]
    exact h
  cases op with
  | enqueue message =>
    rcases h with ⟨rfl, hcap⟩ | ⟨rfl, hcap, henc⟩
    · exact .full (by rwa [List.length_map])
    · exact .encoding (by rwa [List.length_map]) henc
  | claimNext nowUs =>
    obtain ⟨rfl, h⟩ := h
    exact .idle h
  | markDelivered id =>
    obtain ⟨rfl, h⟩ := h
    exact .retire (.delivered id) (hfind h)
  | remove id =>
    obtain ⟨rfl, h⟩ := h
    exact .retire (.removed id) (hfind h)
  | scheduleRetry id nextRetryTimeUs deadLetter lastError =>
    obtain ⟨rfl, h⟩ := h
    exact .retry (hfind h)
  | findDropCandidate policy =>
    obtain ⟨rfl, h⟩ := h
    exact .candidate h
  | getStats stats => exact h.elim

/-- A message that was stored is one the encoder takes. -/
theorem Enqueued.encodes {R : Regime cfg} {message : EdgesyncMessage}
    (h : Enqueued R c m message c' m') : message.Encodes cfg := by
  refine ⟨h.destination_le, ?_⟩
  have h1 : (UInt16.ofNat (strlen message.destination)).toNat ≤ 63 := by
    rw [strlen_toNat h.destination_le]
    exact h.destination_le
  have h2 : message.payloadLen.toNat ≤ cfg.maxMessageSize.toNat := by
    rw [EdgesyncMessage.payloadLen_toNat h.payload_le]
    exact h.payload_le
  have h3 : (UInt16.ofNat maxDestinationLen).toNat = 63 := by decide
  simp only [EdgesyncMessage.recordSize, FlashqConfig.scratchSize, recordTotalSize, round4, h3]
  omega

/-- A step of the abstract queue is one of the table, if errors have a reason. -/
theorem QueueStep.table {capacity : Nat} {encodes : EdgesyncMessage → Prop}
    {q q' : List StoredMessage} (step : QueueStep q op res q') (hspace : res ≠ .error .storage)
    (hrefused : ∀ err, res = .error err → TableRefused capacity encodes (metas q) op err)
    (hnew : ∀ message, op = .enqueue message → res = .ok .done →
      q.length < capacity ∧ encodes message)
    (hcount : ∀ stats stats', op = .getStats stats → res = .ok (.stats stats') →
      StatsAgree stats' ((metas q).foldl EdgesyncStats.count stats)) :
    TableStep capacity encodes (headings q) op res (headings q') := by
  cases step with
  | refused => exact .refused (by rw [metas_headings]; exact hrefused _ rfl)
  | staged => exact absurd rfl hspace
  | candidate selected entry =>
    exact .candidate (x := StoredMessage.heading _) (by rw [metas_headings]; exact selected)
      (headings_getElem? entry)
  | stats => exact .stats (by rw [metas_headings]; exact hcount _ _ rfl rfl)
  | enqueued =>
    obtain ⟨hroom, henc⟩ := hnew _ rfl rfl
    rw [headings_append]
    exact .enqueued (by rwa [length_headings]) henc
  | @claimed nowUs pos x selected entry =>
    rw [headings_modify (g := Progress.claimed nowUs) _ _ fun _ => rfl]
    exact .claimed (x := x.heading) (by rw [metas_headings]; exact selected)
      (headings_getElem? entry)
  | retired retires found =>
    rw [headings_swapRemove]
    exact .retired retires ((findMessage_headings q _).trans found)
  | @retried id next dead err pos found =>
    rw [headings_modify (g := Progress.retried next dead err) _ _ fun _ => rfl]
    exact .retried ((findMessage_headings q _).trans found)

/-- A call of the flash queue that is not refused for want of space, without the
payloads. -/
theorem Effect.table {R : Regime cfg} (ef : Effect R c m recs op res c' m' recs')
    (hspace : res ≠ .error .storage) :
    TableStep cfg.indexCapacity (·.Encodes cfg) (headings (c.queue cfg m)) op res
      (headings (c'.queue cfg m')) := by
  have hmetas : metas (c.queue cfg m) = c.index.map (·.toEntryMeta) := metas_contents _ _
  refine ef.queueStep.table hspace ?_ ?_ ?_
  · rintro err rfl
    rw [hmetas]
    cases ef with
    | refused why => exact why.table
    | full => exact absurd rfl hspace
    | spoilt => exact absurd rfl hspace
  · rintro message rfl rfl
    cases ef with
    | looked seen => exact seen.elim
    | enqueued moved enqueued =>
      refine ⟨?_, enqueued.encodes⟩
      have hlen := congrArg List.length moved.metas
      have hroom := enqueued.room
      rw [List.length_map, List.length_map] at hlen
      rw [Core.queue, contents, List.length_map]
      omega
    | retired retires => cases retires
  · rintro stats stats' rfl rfl
    cases ef with
    | looked seen =>
      obtain ⟨compactionsTotal, rfl⟩ := seen
      rw [hmetas]
      exact ⟨rfl, rfl, rfl, rfl, rfl⟩

end Flashq

/-! ## Two backends, asked for the same -/

/-- What is asked of a backend in a step. -/
def FlashqStepLabel.request : FlashqStepLabel → FlashqAction
  | call op _ => .call op
  | callCut op => .call op
  | stopped => .stop
  | booted => .boot
  | bootFailed _ => .boot
  | bootCut => .boot

/-- Two steps that were asked for the same and answered the same. -/
inductive LabelsAgree : FlashqStepLabel → FlashqStepLabel → Prop where
  | call {op : StorageOp} {res res' : Except EspErr StorageReply} (replies : RepliesAgree res res') :
      LabelsAgree (.call op res) (.call op res')
  | stopped : LabelsAgree .stopped .stopped
  | booted : LabelsAgree .booted .booted

/-- Configurations with the same limits. -/
structure SameLimits (cfg : FlashqConfig) (cfg' : NvsConfig) : Prop where
  maxMessages : cfg.maxMessages = cfg'.maxMessages
  maxMessageSize : cfg.maxMessageSize = cfg'.maxMessageSize

/-- The message a call enqueues. -/
def StorageOp.enqueued? : StorageOp → Option EdgesyncMessage
  | enqueue message => some message
  | _ => none

/-- The message a step may have stored, one that was refused for want of room aside. -/
def FlashqStepLabel.published? : FlashqStepLabel → Option EdgesyncMessage
  | call (.enqueue _) (.error .queueFull) => none
  | label => label.op?.bind (·.enqueued?)

/-- No two messages that are published were created at the same time. -/
def DistinctTimes (labels : List FlashqStepLabel) : Prop :=
  ((labels.filterMap (·.published?)).map (·.createdAtUs)).Nodup

instance (labels : List FlashqStepLabel) : Decidable (DistinctTimes labels) :=
  inferInstanceAs (Decidable (List.Nodup _))

/-- A call or a restart that ends with an error of the storage: without faults it
wants space. -/
def FlashqStepLabel.wantsSpace : FlashqStepLabel → Bool
  | call _ (.error .storage) => true
  | bootFailed _ => true
  | _ => false

/-- Nothing is refused for want of space. -/
def SpaceSuffices (labels : List FlashqStepLabel) : Prop :=
  ∀ label ∈ labels, label.wantsSpace = false

instance (labels : List FlashqStepLabel) : Decidable (SpaceSuffices labels) :=
  inferInstanceAs (Decidable (∀ label ∈ labels, label.wantsSpace = false))

section Labels

variable {labels : List FlashqStepLabel} {label : FlashqStepLabel}

theorem SpaceSuffices.init (h : SpaceSuffices (labels ++ [label])) : SpaceSuffices labels :=
  fun l hl => h l (List.mem_append_left _ hl)

theorem DistinctTimes.init (h : DistinctTimes (labels ++ [label])) : DistinctTimes labels := by
  rw [DistinctTimes, List.filterMap_append, List.map_append] at h
  exact h.of_append_left

/-- Messages of the queue that are of one age are one message. -/
theorem GenuineQueue.distinctAges {q : List StoredMessage} (h : GenuineQueue labels q)
    (hids : KnownIds labels q) (htimes : DistinctTimes labels) : DistinctAges (metas q) := by
  have hpub : ∀ {message}, FlashqStepLabel.call (.enqueue message) (.ok .done) ∈ labels →
      message ∈ labels.filterMap (·.published?) := fun hm =>
    List.mem_filterMap.mpr ⟨_, hm, rfl⟩
  have hinj : ∀ x ∈ q, ∀ y ∈ q, x.createdAtUs = y.createdAtUs → x.id = y.id := by
    intro x hx y hy hxy
    obtain ⟨a, ha, ⟨p, rfl⟩, _⟩ := h.1 x hx
    obtain ⟨b, hb, ⟨p', rfl⟩, _⟩ := h.1 y hy
    have hab : a = b := List.inj_on_of_nodup_map htimes (hpub ha) (hpub hb) hxy
    exact congrArg EdgesyncMessage.id hab
  have hnodup : q.Nodup := hids.nodup.of_map _
  rw [DistinctAges, metas, List.map_map]
  refine (List.nodup_map_iff_inj_on hnodup).mpr fun x hx y hy hxy => ?_
  exact List.inj_on_of_nodup_map hids.nodup hx hy (hinj x hx y hy hxy)

end Labels

section Twins

variable {cfg : FlashqConfig} {cfg' : NvsConfig} {usage : BlobStore → UInt32 × UInt32}
  {labels : List FlashqStepLabel}

theorem SameLimits.capacity (h : SameLimits cfg cfg') : cfg.indexCapacity = cfg'.indexCapacity := by
  rw [FlashqConfig.indexCapacity, NvsConfig.indexCapacity, h.maxMessages]

theorem SameLimits.encodes (h : SameLimits cfg cfg') (message : EdgesyncMessage) :
    message.Encodes cfg ↔ message.EncodesNvs cfg' := by
  rw [EdgesyncMessage.Encodes, EdgesyncMessage.EncodesNvs, FlashqConfig.scratchSize,
    NvsConfig.scratchSize, h.maxMessageSize]
  rfl

theorem StorageOp.Fits.counted {op : StorageOp} (h : op.Fits cfg.maxMessageSize) : op.Counted := by
  cases op with
  | enqueue message => exact EdgesyncMessage.payloadLen_toNat h
  | _ => trivial

variable (cfg cfg') in
/-- Both hold the same messages. -/
inductive Twins (labels : List FlashqStepLabel) :
    FlashqSystem → StorageSystem (nvsBackend usage cfg') → Prop where
  | off {m : Memory} {s : BlobStore} {q : List StoredMessage}
      (tracked : Tracked cfg GenuineQueue labels (.off m))
      (image : Image (quiet cfg) m fun q' => KnownIds labels q ∧ q' = q)
      (recorded : Recorded cfg' s) (inSlots : InSlots cfg' s)
      (same : (headings q).Perm (headings (storedQueue s cfg'.maxMessages.toNat))) :
      Twins labels (.off m) (.off s)
  | on {ctx : FlashqCtx} {m : Memory} {ctx' : NvsCtx} {s : BlobStore}
      (tracked : Tracked cfg GenuineQueue labels (.on ctx m)) (base : NvsBase cfg' ctx' s)
      (only : NvsOnly ctx' s)
      (same : (headings (ctx.core.queue cfg m)).Perm (headings (ctx'.queue s))) :
      Twins labels (.on ctx m) (.on ctx' s)

/-- Settling a table. -/
theorem headings_settle (q : List StoredMessage) :
    headings (q.map StoredMessage.settle) = (headings q).map StoredMessage.settle := by
  rw [headings, headings, List.map_map, List.map_map]
  rfl

theorem StoredMessage.heading_restarted (x : StoredMessage) :
    x.restarted.heading = x.heading.settle := by
  unfold StoredMessage.restarted
  split
  · rfl
  · rename_i h
    have hp : x.toEntryMeta.progress.requeued = x.toEntryMeta.progress := if_neg h
    rw [StoredMessage.settle, StoredMessage.change, StoredMessage.heading_toEntryMeta, hp]
    rfl

theorem headings_restarted (q : List StoredMessage) :
    headings (q.map StoredMessage.restarted) = (headings q).map StoredMessage.settle := by
  rw [headings, headings, List.map_map, List.map_map]
  exact List.map_congr_left fun x _ => x.heading_restarted

/-- Both are called. -/
theorem Twins.call {ctx : FlashqCtx} {m : Memory} {ctx' ctx2 : NvsCtx} {s s2 : BlobStore}
    {op : StorageOp} {res res' : Except EspErr StorageReply} {sysF' : FlashqSystem}
    (h : @Twins cfg cfg' usage labels (.on ctx m) (.on ctx' s))
    (limits : SameLimits cfg cfg') (hmax : cfg'.maxMessages.toNat ≤ 100000)
    (stepF : FlashqStep cfg quietWorld (.on ctx m) (.call op res) sysF')
    (runN : Runs (blobDevice usage) quietStore (nvsCall cfg' op) ctx' s (.returned res' ctx2 s2))
    (hu : (publishedIds (labels ++ [.call op res])).Nodup) (htimes : DistinctTimes labels)
    (hfit : op.Fits cfg.maxMessageSize) (hspace : res ≠ .error .storage) :
    RepliesAgree res res' ∧
      @Twins cfg cfg' usage (labels ++ [.call op res]) sysF' (.on ctx2 s2) := by
  cases h with
  | on tracked base only same =>
    obtain ⟨recs, htr⟩ := tracked
    obtain ⟨ctx1, m1, recs1, rfl, efF⟩ := quiet_effect htr.base hfit stepF
    have efN := nvs_returned quietStore_no_fail base hfit.counted runN
    obtain ⟨base', stepN⟩ := efN.step base (base.freshKey hmax op) hfit.counted
    have hstepF := efF.table hspace
    have hstepN := stepN.table
    rw [← limits.capacity, funext fun message => propext (limits.encodes message).symm] at hstepN
    have hids : (messageIds (headings (ctx.core.queue cfg m))).Nodup := by
      rw [messageIds_headings]
      exact htr.ids.nodup
    have hages : DistinctAges (metas (headings (ctx.core.queue cfg m))) := by
      rw [metas_headings]
      exact htr.holds.distinctAges htr.ids htimes
    obtain ⟨hreplies, hperm⟩ := hstepF.agree hstepN same hids hages
    exact ⟨hreplies, .on ⟨recs1, htr.call genuineQueue hu efF⟩ base' (efN.only only) hperm⟩

/-- Both are switched off. -/
theorem Twins.stop {ctx : FlashqCtx} {m : Memory} {ctx' : NvsCtx} {s : BlobStore}
    (h : @Twins cfg cfg' usage labels (.on ctx m) (.on ctx' s))
    (hmax : cfg'.maxMessages.toNat ≤ 100000) :
    @Twins cfg cfg' usage (labels ++ [.stopped]) (.off m) (.off s) := by
  cases h with
  | on tracked base only same =>
    obtain ⟨recs, htr⟩ := tracked
    have hids : KnownIds (labels ++ [.stopped]) (ctx.core.queue cfg m) := htr.ids.restart
    refine .off (q := ctx.core.queue cfg m) (htr.base.image ?_) (htr.base.image ?_)
      (base.recorded only) (base.inSlots only) ?_
    · rw [htr.queue_eq]
      exact ⟨hids, genuineQueue.restart (.inl rfl) htr.holds⟩
    · rw [htr.queue_eq]
      exact ⟨hids, rfl⟩
    · exact same.trans ((base.perm_storedQueue only (distinctKeys hmax s)).map _).symm

/-- Both are switched on. -/
theorem Twins.boot {m : Memory} {s : BlobStore} {ctx1 : FlashqCtx} {m1 : Memory} {ctx2 : NvsCtx}
    {s2 : BlobStore} (h : @Twins cfg cfg' usage labels (.off m) (.off s))
    (hmax : cfg'.maxMessages.toNat ≤ 100000)
    (runF : Runs cfg.device calmEnv (opRecover cfg) (FlashqCtx.fresh cfg) m (.ok () ctx1 m1))
    (runN : Runs (blobDevice usage) quietStore (nvsOpRecover cfg') (NvsCtx.fresh cfg') s
      (.ok () ctx2 s2)) :
    @Twins cfg cfg' usage (labels ++ [.booted]) (.on ctx1 m1) (.on ctx2 s2) := by
  cases h with
  | @off _ _ q tracked image recorded inSlots same =>
    obtain ⟨hqueue, _⟩ := wp_sound runF (wp_opRecover_settled image)
    obtain ⟨recs1, htr⟩ := wp_sound runF (tracked.boot genuineQueue.requeue)
    obtain ⟨base, only, hstored, _⟩ :=
      nvs_recovered quietStore_no_fail recorded inSlots (distinctKeys hmax s) runN
    refine .on ⟨recs1, htr.base, htr.same, htr.ids.restart, genuineQueue.restart (.inr rfl) htr.holds⟩
      base only ?_
    rw [hqueue, hstored, headings_settle, headings_restarted]
    exact same.map _

/-- Both take a step. -/
theorem Twins.step {sysF sysF' : FlashqSystem} {sysN sysN' : StorageSystem (nvsBackend usage cfg')}
    {label label' : FlashqStepLabel} (h : Twins cfg cfg' labels sysF sysN)
    (limits : SameLimits cfg cfg') (hmax : cfg'.maxMessages.toNat ≤ 100000)
    (stepF : FlashqStep cfg quietWorld sysF label sysF')
    (stepN : StorageStep (nvsBackend usage cfg') (nvsWorld usage cfg' quietStore) sysN label' sysN')
    (hsame : label.request = label'.request) (hu : (publishedIds (labels ++ [label])).Nodup)
    (htimes : DistinctTimes labels) (hfit : ∀ op, label.op? = some op → op.Fits cfg.maxMessageSize)
    (hspace : label.wantsSpace = false) :
    LabelsAgree label label' ∧ Twins cfg cfg' (labels ++ [label]) sysF' sysN' := by
  have hcall : ∀ {ctx m op res sysF'}, sysF = .on ctx m → label = .call op res →
      FlashqStep cfg quietWorld (.on ctx m) (.call op res) sysF' → 
      LabelsAgree label label' ∧ Twins cfg cfg' (labels ++ [label]) sysF' sysN' := by
    rintro ctx m op res sysF' rfl rfl stepF
    cases stepN with
    | call runN =>
      cases hsame
      have hres : res ≠ .error .storage := by
        rintro rfl
        exact absurd hspace (by simp [FlashqStepLabel.wantsSpace])
      obtain ⟨hreplies, htwins⟩ := h.call limits hmax stepF runN hu htimes (hfit _ rfl) hres
      exact ⟨.call hreplies, htwins⟩
    | cut runN => exact absurd runN quietStore_not_cut
    | _ => cases hsame
  have hstepF := stepF
  cases stepF with
  | returned run => exact hcall rfl rfl hstepF
  | failed run => exact hcall rfl rfl hstepF
  | cut run => exact absurd hstepF quiet_not_callCut
  | stop =>
    cases stepN with
    | stop => exact ⟨.stopped, h.stop hmax⟩
    | _ => cases hsame
  | boot runF =>
    cases stepN with
    | boot picked runN =>
      cases picked
      exact ⟨.booted, h.boot hmax runF runN⟩
    | bootFail picked runN =>
      cases picked
      cases h with
      | off tracked image recorded inSlots same =>
        exact (nvs_recovered quietStore_no_fail recorded inSlots (distinctKeys hmax _) runN).elim
    | bootCut picked runN =>
      cases picked
      exact absurd runN quietStore_not_cut
    | _ => cases hsame
  | bootFail run => exact absurd hspace (by simp [FlashqStepLabel.wantsSpace])
  | bootCut run => exact absurd hstepF quiet_not_bootCut

/-- The NVS backend can be asked for the same. -/
theorem Twins.follow {sysF sysF' : FlashqSystem} {sysN : StorageSystem (nvsBackend usage cfg')}
    {label : FlashqStepLabel} (h : Twins cfg cfg' labels sysF sysN)
    (hmax : cfg'.maxMessages.toNat ≤ 100000) (stepF : FlashqStep cfg quietWorld sysF label sysF') :
    ∃ label' sysN', StorageStep (nvsBackend usage cfg') (nvsWorld usage cfg' quietStore) sysN label'
      sysN' ∧ label'.request = label.request := by
  have hcalls : ∀ op (ctx' : NvsCtx) (s : BlobStore), ∃ label' sysN',
      StorageStep (nvsBackend usage cfg') (nvsWorld usage cfg' quietStore) (.on ctx' s) label' sysN' ∧
        label'.request = .call op := by
    intro op ctx' s
    obtain ⟨res, ctx2, s2, run⟩ := @quietStore_returns usage _ (nvsCall cfg' op) ctx' s
    exact ⟨.call op res, .on ctx2 s2, .call run, rfl⟩
  cases h with
  | off tracked image recorded inSlots same =>
    obtain ⟨res, ctx2, s2, run⟩ := @quietStore_returns usage _ (nvsOpRecover cfg')
      (NvsCtx.fresh cfg') _
    cases res with
    | error err =>
      exact (nvs_recovered quietStore_no_fail recorded inSlots (distinctKeys hmax _) run).elim
    | ok u => cases stepF <;> exact ⟨.booted, .on ctx2 s2, .boot rfl run, rfl⟩
  | on tracked base only same =>
    cases stepF with
    | returned run => exact hcalls _ _ _
    | failed run => exact hcalls _ _ _
    | cut run => exact hcalls _ _ _
    | stop => exact ⟨.stopped, _, .stop, rfl⟩

/-- Two runs that were asked for the same. -/
theorem Twins.run {labels' : List FlashqStepLabel} {sysF : FlashqSystem}
    {sysN : StorageSystem (nvsBackend usage cfg')} (limits : SameLimits cfg cfg')
    (hmax : cfg'.maxMessages.toNat ≤ 100000)
    (runF : FlashqRun cfg quietWorld (.off erasedFlash) labels sysF)
    (runN : StorageRun (nvsBackend usage cfg') (nvsWorld usage cfg' quietStore) (.off emptyStore)
      labels' sysN)
    (hsame : labels'.map (·.request) = labels.map (·.request)) (hu : (publishedIds labels).Nodup)
    (htimes : DistinctTimes labels) (hfit : AllFit cfg labels) (hspace : SpaceSuffices labels) :
    List.Forall₂ LabelsAgree labels labels' ∧ Twins cfg cfg' labels sysF sysN := by
  induction runF generalizing labels' sysN with
  | nil =>
    obtain rfl := List.map_eq_nil_iff.mp hsame
    obtain rfl := runN.eq_of_nil
    have hnone : ∀ n, storedQueue emptyStore n = [] := fun n =>
      List.filterMap_eq_nil_iff.mpr fun i _ => rfl
    have hids : KnownIds [] [] := ⟨List.nodup_nil, fun _ h => absurd h List.not_mem_nil⟩
    exact ⟨.nil, .off (q := []) (image_erased ⟨hids, genuineQueue.init⟩) (image_erased ⟨hids, rfl⟩)
      (fun k data hk => absurd hk (by simp [emptyStore]))
      (fun k data hk => absurd hk (by simp [emptyStore])) (by rw [hnone])⟩
  | @snoc before sys1 sys2 label runF step ih =>
    rw [List.map_append] at hsame
    obtain ⟨before', last, rfl, hbefore, hlast⟩ := List.map_eq_append_iff.mp hsame
    obtain ⟨label', rfl, hlabel⟩ := List.map_eq_singleton_iff.mp hlast
    obtain ⟨sysN1, runN1, stepN⟩ := runN.last
    obtain ⟨hagree, htwins⟩ := ih runN1 hbefore (unique_init hu) htimes.init hfit.init hspace.init
    obtain ⟨hnew, htwins'⟩ := htwins.step limits hmax step stepN hlabel.symm hu htimes.init
      (fun op hop => hfit.last hop) (hspace _ (List.mem_append_right _ List.mem_cons_self))
    exact ⟨List.rel_append hagree (.cons hnew .nil), htwins'⟩

/-- Whatever the flash queue is asked for, the NVS backend can be asked for as well,
and whenever it is, it answers the same. -/
theorem backends_agree {sysF : FlashqSystem} (limits : SameLimits cfg cfg')
    (hmax : cfg'.maxMessages.toNat ≤ 100000)
    (runF : FlashqRun cfg quietWorld (.off erasedFlash) labels sysF)
    (hu : (publishedIds labels).Nodup) (htimes : DistinctTimes labels) (hfit : AllFit cfg labels)
    (hspace : SpaceSuffices labels) :
    (∃ labels' sysN, StorageRun (nvsBackend usage cfg') (nvsWorld usage cfg' quietStore)
      (.off emptyStore) labels' sysN ∧ labels'.map (·.request) = labels.map (·.request)) ∧
    ∀ labels' sysN, StorageRun (nvsBackend usage cfg') (nvsWorld usage cfg' quietStore)
      (.off emptyStore) labels' sysN → labels'.map (·.request) = labels.map (·.request) →
      List.Forall₂ LabelsAgree labels labels' := by
  refine ⟨?_, fun labels' sysN runN hsame =>
    (Twins.run limits hmax runF runN hsame hu htimes hfit hspace).1⟩
  induction runF with
  | nil => exact ⟨[], .off emptyStore, .nil, rfl⟩
  | snoc runF step ih =>
    obtain ⟨labels', sysN, runN, hsame⟩ := ih (unique_init hu) htimes.init hfit.init hspace.init
    obtain ⟨_, htwins⟩ := Twins.run limits hmax runF runN hsame (unique_init hu) htimes.init hfit.init
      hspace.init
    obtain ⟨label', sysN', stepN, hlabel⟩ := htwins.follow hmax step
    refine ⟨labels' ++ [label'], sysN', runN.snoc stepN, ?_⟩
    rw [List.map_append, List.map_append, hsame, List.map_singleton, List.map_singleton, hlabel]

end Twins

theorem two_slots : (2 : UInt32) ≠ 0 := by decide

theorem six_aligned : (24576 : UInt32).toNat % sectorSize = 0 := by decide

theorem six_sectors : 4 ≤ (24576 : UInt32).toNat / sectorSize := by decide

/-- Two slots, and room for their records. -/
def pairConfig : FlashqConfig where
  partitionSize := 24576
  maxMessages := 2
  maxMessageSize := 64
  maxMessages_ne := two_slots
  aligned := six_aligned
  sectors := six_sectors

/-- The limits of `pairConfig`. -/
def pairStore : NvsConfig where
  maxMessages := 2
  maxMessageSize := 64
  maxMessages_ne := pairConfig.maxMessages_ne

/-- The message that is kept. -/
def keptMessage : EdgesyncMessage := ⟨7, [0x61], 1, 5, [1, 2, 3]⟩

/-- The message that is dropped. -/
def lowMessage : EdgesyncMessage := ⟨8, [0x62], 0, 6, [4]⟩

/-- The message that is refused. -/
def thirdMessage : EdgesyncMessage := ⟨9, [0x63], 2, 7, []⟩

/-- A third message is refused, one of the others is scheduled again and one dropped; after a
restart the one that is left is claimed again. -/
def pairLabels : List FlashqStepLabel :=
  [.booted, .call (.enqueue keptMessage) (.ok .done), .call (.enqueue lowMessage) (.ok .done),
    .call (.enqueue thirdMessage) (.error .queueFull),
    .call (.claimNext 10)
      (.ok (.claim (.claimed ⟨7, [0x61], 1, .inFlight, 1, 5, 10, 0, 0, 3, 63⟩))),
    .call (.scheduleRetry 7 20 false 5) (.ok .done),
    .call (.findDropCandidate .dropLowestPriority) (.ok (.candidate 8)),
    .call (.remove 8) (.ok .done), .stopped, .booted,
    .call (.claimNext 30)
      (.ok (.claim (.claimed ⟨7, [0x61], 1, .inFlight, 2, 5, 30, 20, 5, 3, 63⟩)))]

/-- The NVS backend answers the same. -/
theorem backends_agree_pair : ∃ sysF labels' sysN,
    FlashqRun pairConfig quietWorld (.off erasedFlash) pairLabels sysF ∧
    StorageRun (nvsBackend noUsage pairStore) (nvsWorld noUsage pairStore quietStore)
      (.off emptyStore) labels' sysN ∧
    List.Forall₂ LabelsAgree pairLabels labels' := by
  have hcheck : ((FlashqSystem.off erasedFlash).play pairConfig
      (pairLabels.map fun label => (label.request, [])) []).any
        (fun played => decide (played.1 = pairLabels)) = true := by
    decide +kernel
  obtain ⟨⟨labels, sysF⟩, hplay, hlabels⟩ := (Option.any_eq_true _ _).mp hcheck
  have run : FlashqRun pairConfig quietWorld (.off erasedFlash) labels sysF :=
    silent_play .nil (by simp) hplay
  obtain rfl : labels = pairLabels := of_decide_eq_true hlabels
  obtain ⟨⟨labels', sysN, runN, hsame⟩, hagree⟩ := @backends_agree _ pairStore noUsage _ _
    ⟨rfl, rfl⟩ (by decide) run (by decide) (by decide) (by decide) (by decide)
  exact ⟨sysF, labels', sysN, run, runN, hagree labels' sysN runN hsame⟩

end EdgeSync
