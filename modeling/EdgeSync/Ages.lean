/-
  Ages.lean --- the order of messages of one priority.

  The selection loops order by `created_at_us`, which is read from a clock that starts
  anew with every boot.  What an entry says about its message is never changed, neither
  by a call nor by a restart, so the loops take the messages in the order in which they
  were accepted as long as the clock values are in that order.
-/
import EdgeSync.Flashq.PowerCut
import EdgeSync.Nvs.Payload
import EdgeSync.Stack.Queue

set_option autoImplicit false

namespace EdgeSync

open Foundation

/-! ## Messages that were offered -/

/-- The message was offered to the backend, in a call that may have stored it. -/
def Offered (labels : List FlashqStepLabel) (message : EdgesyncMessage) : Prop :=
  ∃ label ∈ labels, label.op? = some (.enqueue message) ∧ label.publishedId? = some message.id

/-- Every entry is of a message that was offered, with its age; no id is used twice. -/
structure Dated (labels : List FlashqStepLabel) (q : List EntryMeta) : Prop where
  nodup : (q.map (·.id)).Nodup
  offered : ∀ e ∈ q, ∃ message, Offered labels message ∧ e.identity = message.entry.identity

section Offers

variable {labels : List FlashqStepLabel} {label : FlashqStepLabel} {q q' : List EntryMeta}

theorem Offered.snoc {message : EdgesyncMessage} (h : Offered labels message)
    (label : FlashqStepLabel) : Offered (labels ++ [label]) message := by
  obtain ⟨l, hl, hop, hid⟩ := h
  exact ⟨l, List.mem_append_left _ hl, hop, hid⟩

theorem Offered.mem_published {message : EdgesyncMessage} (h : Offered labels message) :
    message.id ∈ publishedIds labels := by
  obtain ⟨l, hl, _, hid⟩ := h
  exact List.mem_filterMap.mpr ⟨l, hl, hid⟩

/-- With unique ids an id is of one message. -/
theorem Offered.unique {a b : EdgesyncMessage} (hu : (publishedIds labels).Nodup)
    (ha : Offered labels a) (hb : Offered labels b) (hid : a.id = b.id) : a = b := by
  induction labels using List.reverseRecOn with
  | nil =>
    obtain ⟨_, hl, _⟩ := ha
    exact absurd hl List.not_mem_nil
  | append_singleton labels label ih =>
    have hlast : ∀ {message : EdgesyncMessage}, Offered (labels ++ [label]) message →
        Offered labels message ∨
          label.op? = some (.enqueue message) ∧ label.publishedId? = some message.id := by
      rintro message ⟨l, hl, hop, hpub⟩
      rcases List.mem_append.mp hl with hl | hl
      · exact .inl ⟨l, hl, hop, hpub⟩
      · rw [List.mem_singleton.mp hl] at hop hpub
        exact .inr ⟨hop, hpub⟩
    rcases hlast ha with ha | ⟨hopa, hpa⟩ <;> rcases hlast hb with hb | ⟨hopb, hpb⟩
    · exact ih (unique_init hu) ha hb
    · exact absurd (hid ▸ ha.mem_published) (fresh_of_unique hu hpb)
    · exact absurd (hid ▸ hb.mem_published) (fresh_of_unique hu hpa)
    · have hop := Option.some.inj (hopa.symm.trans hopb)
      cases hop
      rfl

theorem Dated.snoc (h : Dated labels q) (label : FlashqStepLabel) : Dated (labels ++ [label]) q where
  nodup := h.nodup
  offered e he := by
    obtain ⟨message, hoff, hid⟩ := h.offered e he
    exact ⟨message, hoff.snoc label, hid⟩

/-- Only what an entry says about its message matters. -/
theorem Dated.congr (h : Dated labels q)
    (hq : q'.map EntryMeta.identity = q.map EntryMeta.identity) : Dated labels q' where
  nodup := by
    have hids : q'.map (·.id) = q.map (·.id) := by
      have := congrArg (List.map Prod.fst) hq
      simpa [List.map_map, Function.comp_def, EntryMeta.identity] using this
    rw [hids]
    exact h.nodup
  offered e he := by
    have hmem : e.identity ∈ q.map EntryMeta.identity := hq ▸ List.mem_map_of_mem he
    obtain ⟨e', he', hid⟩ := List.mem_map.mp hmem
    obtain ⟨message, hoff, hid'⟩ := h.offered e' he'
    exact ⟨message, hoff, hid.symm.trans hid'⟩

theorem Dated.modify (h : Dated labels q) (pos : Nat) (f : Progress → Progress) :
    Dated labels (q.modify pos (·.change f)) := h.congr (map_modify_of_eq fun _ _ => rfl)

theorem Dated.perm (h : Dated labels q) (hperm : q'.Perm q) : Dated labels q' where
  nodup := (hperm.map _).nodup_iff.mpr h.nodup
  offered e he := h.offered e (hperm.mem_iff.mp he)

theorem Dated.swapRemove {pos : Nat} {e : EntryMeta} (h : Dated labels q) (he : q[pos]? = some e) :
    Dated labels (swapRemove q pos) := by
  have hd := h.perm (perm_swapRemove he).symm
  exact ⟨hd.nodup.of_cons, fun e he => hd.offered e (List.mem_cons_of_mem _ he)⟩

/-- The message that a step offers is new. -/
theorem Dated.append {message : EdgesyncMessage} {e : EntryMeta} (h : Dated labels q)
    (hu : (publishedIds (labels ++ [label])).Nodup) (hop : label.op? = some (.enqueue message))
    (hpub : label.publishedId? = some message.id) (he : e.identity = message.entry.identity) :
    Dated (labels ++ [label]) (q ++ [e]) where
  nodup := by
    have hid : e.id = message.id := congrArg Prod.fst he
    rw [List.map_append, List.map_singleton]
    refine h.nodup.append (List.nodup_singleton _) fun id hold hnew => ?_
    obtain ⟨e', he', rfl⟩ := List.mem_map.mp hold
    obtain ⟨message', hoff, hid'⟩ := h.offered e' he'
    have hid'' : e'.id = message'.id := congrArg Prod.fst hid'
    rw [List.mem_singleton, hid, hid''] at hnew
    exact fresh_of_unique hu hpub (hnew ▸ hoff.mem_published)
  offered e' he' := by
    rcases List.mem_append.mp he' with he' | he'
    · exact (h.snoc label).offered e' he'
    · rw [List.mem_singleton.mp he']
      exact ⟨message, ⟨label, List.mem_append_right _ (List.mem_singleton_self _), hop, hpub⟩, he⟩

/-- A call keeps the entries dated, under any faults. -/
theorem CallStep.dated {early : Bool} {capacity : Nat} {op : StorageOp}
    {res : Except EspErr StorageReply} (step : CallStep early capacity q op res q')
    (h : Dated labels q) (hu : (publishedIds (labels ++ [.call op res])).Nodup) :
    Dated (labels ++ [.call op res]) q' := by
  cases step with
  | refused => exact h.snoc _
  | enqueued room => exact h.append hu rfl rfl rfl
  | claimed selected entry shows => exact (h.snoc _).modify _ _
  | claimLost isEarly selected => exact (h.snoc _).modify _ _
  | corrupt selected entry => exact (h.snoc _).modify _ _
  | corruptLost selected => exact (h.snoc _).modify _ _
  | retired retires found =>
    obtain ⟨e, he, _⟩ := findPos_some found
    exact (h.snoc _).swapRemove he
  | retried found => exact (h.snoc _).modify _ _
  | retryLost found => exact (h.snoc _).modify _ _
  | candidate selected entry => exact h.snoc _
  | stats => exact h.snoc _

/-- Progress of a message keeps the entries dated. -/
theorem Dated.progressTo {q : List StoredMessage} (h : Dated labels (metas q)) (id : UInt64)
    (p : Progress) : Dated labels (metas (progressTo id p q)) := by
  unfold EdgeSync.progressTo
  split
  · exact h
  · rename_i pos hpos
    obtain ⟨x, hx, _⟩ := findPos_some hpos
    split
    · rw [metas, map_swapRemove]
      exact h.swapRemove (by rw [metas, List.getElem?_map, hx]; rfl)
    · refine h.congr ?_
      rw [metas, metas, List.map_map, List.map_map]
      exact map_modify_of_eq fun _ _ => rfl

end Offers

/-! ## The flash queue -/

/-- What a running flash queue, and one that was switched off, keep. -/
def FlashqDated {cfg : FlashqConfig} (R : Regime cfg) (labels : List FlashqStepLabel) :
    FlashqSystem → Prop
  | .on ctx m => (∃ recs, Base R ctx.core m recs) ∧ Dated labels ctx.metas
  | .off m => Image R m fun q => Dated labels (metas q)

section Flash

variable {cfg : FlashqConfig} {R : Regime cfg} {labels : List FlashqStepLabel} {c : Core} {m : Memory}
  {recs : List (Nat × RecordHdr)} {op : StorageOp}

/-- The log is as old as the index. -/
theorem Base.dated_log (b : Base R c m recs) (h : Dated labels (c.index.map (·.toEntryMeta)))
    (v : Memory) : Dated labels (metas (contents v (replay cfg recs).index)) := by
  rw [metas_contents]
  refine h.congr ?_
  rw [List.map_map, List.map_map]
  exact (identities_of_keys b.same).symm

/-- A power cut inside an UPDATE leaves dated queues. -/
theorem Base.dated_update (b : Base R c m recs) (h : Dated labels (c.index.map (·.toEntryMeta)))
    {v : Memory} {index : List FlashqIndexEntry} {id : UInt64} {p : Progress}
    (hindex : index.map (·.identity) = c.index.map (·.identity)) :
    UpdateQueues cfg (fun q => Dated labels (metas q)) v recs index id p := by
  have hlog := b.dated_log h v
  have hram : Dated labels (metas (contents v index)) := by
    rw [metas_contents]
    refine h.congr ?_
    rw [List.map_map, List.map_map]
    exact hindex
  exact ⟨hlog, hram, hlog.progressTo id p, hram.progressTo id p⟩

theorem stagedAt_identities (c : Core) (pos : Nat) (nextRetryTimeUs : Int64) (deadLetter : Bool)
    (lastError : Int32) : (c.stagedAt pos nextRetryTimeUs deadLetter lastError).index.map
      (·.identity) = c.index.map (·.identity) := map_modify_of_eq fun _ _ => rfl

/-- A power cut inside a call leaves dated queues. -/
theorem Base.dated_call (b : Base R c m recs) (h : Dated labels (c.index.map (·.toEntryMeta)))
    (hu : (publishedIds (labels ++ [.callCut op])).Nodup) (v : Memory) :
    CallQueues R (fun q => Dated (labels ++ [.callCut op]) (metas q)) v recs c op := by
  have h' := h.snoc (.callCut op)
  cases op with
  | enqueue message =>
    have happend : ∀ {q : List StoredMessage} (d : Bytes), Dated labels (metas q) →
        Dated (labels ++ [.callCut (.enqueue message)]) (metas (q ++ [message.storedWith d])) := by
      intro q d hq
      rw [metas, List.map_append]
      exact hq.append hu rfl rfl rfl
    have hram : Dated labels (metas (contents v c.index)) := by
      rw [metas_contents]
      exact h
    refine ⟨b.dated_log h' v, hram.snoc _, fun d _ => happend d (b.dated_log h v),
      fun d _ => happend d hram⟩
  | claimNext nowUs => exact fun _ _ _ _ => b.dated_update h' rfl
  | markDelivered id => exact fun _ _ _ _ => b.dated_update h' rfl
  | remove id => exact fun _ _ _ _ => b.dated_update h' rfl
  | scheduleRetry id nextRetryTimeUs deadLetter lastError =>
    exact fun _ _ _ _ => b.dated_update h' (stagedAt_identities c _ _ _ _)
  | findDropCandidate policy => trivial
  | getStats stats => trivial

/-- The requeues of a restart keep the entries dated. -/
theorem requeueInvariant_dated : RequeueInvariant R
    (fun c _ _ => Dated labels (c.index.map (·.toEntryMeta))) fun q => Dated labels (metas q) where
  log h b := b.dated_log h _
  queues h b _ _ := b.dated_update h (stagedAt_identities _ _ _ _ _)
  step h _ he _ mv up := by
    refine h.congr ?_
    have hsame : ((_ : List FlashqIndexEntry).map (·.toEntryMeta))[_]? = some _ :=
      (List.getElem?_map ..).trans (congrArg (Option.map _) he)
    rw [metas_of_requeue he mv up, List.map_set]
    refine set_of_getElem? ?_
    rw [List.getElem?_map, hsame]
    rfl

theorem dated_nil : Dated labels [] :=
  ⟨List.nodup_nil, fun _ he => absurd he List.not_mem_nil⟩

theorem FlashqDated.step (hquiet : ¬ R.mayFail) {s s' : FlashqSystem} {label : FlashqStepLabel}
    (h : FlashqDated R labels s) (step : FlashqStep cfg R.world s label s')
    (hu : (publishedIds (labels ++ [label])).Nodup)
    (hfit : ∀ op, label.op? = some op → op.Fits cfg.maxMessageSize) :
    FlashqDated R (labels ++ [label]) s' := by
  cases step with
  | returned run =>
    obtain ⟨⟨recs, b⟩, hd⟩ := h
    obtain ⟨recs', ef⟩ := call_returned hquiet b (hfit _ rfl) run
    exact ⟨⟨recs', ef.base b⟩, (leaves_sound run (leaves_flashqCall cfg _ _)).dated hd hu⟩
  | failed run =>
    obtain ⟨⟨recs, b⟩, hd⟩ := h
    obtain ⟨recs', ef⟩ := call_failed hquiet b (hfit _ rfl) run
    exact ⟨⟨recs', ef.base b⟩, (leaves_sound run (leaves_flashqCall cfg _ _)).dated hd hu⟩
  | cut run =>
    obtain ⟨⟨recs, b⟩, hd⟩ := h
    exact call_cut hquiet b (hfit _ rfl) (b.dated_call hd hu _) run
  | stop =>
    obtain ⟨⟨recs, b⟩, hd⟩ := h
    exact b.image (b.dated_log (hd.snoc _) _)
  | boot run =>
    have h' : Image R _ fun q => Dated (labels ++ [.booted]) (metas q) :=
      h.mono fun q hq => hq.snoc _
    have hb := boot_meets h' requeueInvariant_dated (fun _ hq => hq)
      (fun _ _ _ _ hq => by rwa [Core.queue, metas_contents] at hq) run
    cases hb with
    | fresh none core_eq base =>
      have hnil : FlashqCtx.index _ = [] := congrArg Core.index core_eq
      refine ⟨⟨_, base⟩, ?_⟩
      rw [FlashqCtx.metas, hnil]
      exact dated_nil
    | replayed opened durable base inv metas => exact ⟨⟨_, base⟩, inv⟩
  | bootFail run =>
    exact boot_meets (h.mono fun q hq => hq.snoc _) requeueInvariant_dated (fun _ hq => hq)
      (fun _ _ _ _ hq => by rwa [Core.queue, metas_contents] at hq) run
  | bootCut run =>
    exact boot_meets (h.mono fun q hq => hq.snoc _) requeueInvariant_dated (fun _ hq => hq)
      (fun _ _ _ _ hq => by rwa [Core.queue, metas_contents] at hq) run

theorem FlashqDated.run (hquiet : ¬ R.mayFail) {s : FlashqSystem}
    (run : FlashqRun cfg R.world (.off erasedFlash) labels s) (hu : (publishedIds labels).Nodup)
    (hfit : AllFit cfg labels) : FlashqDated R labels s := by
  induction run with
  | nil => exact image_erased dated_nil
  | snoc run step ih =>
    exact (ih (unique_init hu) hfit.init).step hquiet step hu fun op hop => hfit.last hop

end Flash

/-! ## The NVS backend -/

/-- What a running NVS backend, and its store while the power is off, keep. -/
def NvsDated (cfg : NvsConfig) {usage : BlobStore → UInt32 × UInt32} (labels : List FlashqStepLabel) :
    StorageSystem (nvsBackend usage cfg) → Prop
  | .on ctx s => NvsBase cfg ctx s ∧ NvsOnly ctx s ∧ Dated labels (NvsCtx.metas ctx)
  | .off s => Recorded cfg s ∧ InSlots cfg s ∧
      Dated labels (metas (storedQueue s cfg.maxMessages.toNat))

section Nvs

variable {cfg : NvsConfig} {usage : BlobStore → UInt32 × UInt32} {labels : List FlashqStepLabel}
  {label : FlashqStepLabel} {ctx ctx' : NvsCtx} {s s' : BlobStore} {op : StorageOp}

theorem identity_restarted (x : StoredMessage) :
    x.restarted.toEntryMeta.identity = x.toEntryMeta.identity := by
  rw [x.restarted_toEntryMeta]
  rfl

/-- A requeue does not change what the slots say about their messages. -/
theorem Requeued.identities (h : Requeued cfg s s') (n : Nat) :
    (metas (storedQueue s' n)).map EntryMeta.identity =
      (metas (storedQueue s n)).map EntryMeta.identity := by
  rw [metas, metas, List.map_map, List.map_map, storedQueue, storedQueue, List.map_filterMap,
    List.map_filterMap]
  refine List.filterMap_congr fun i _ => ?_
  rcases h (slotKey (UInt32.ofNat i)) with hsame | ⟨x, hx, hold, hnew⟩
  · rw [storedMessage, storedMessage, hsame]
  · rw [storedMessage_eq hx hold, storedMessage_eq hx.restarted hnew]
    exact congrArg some (identity_restarted x)

/-- What a restart would find is dated as the index is. -/
theorem NvsBase.dated_off (hmax : cfg.maxMessages.toNat ≤ 100000) (b : NvsBase cfg ctx s)
    (honly : NvsOnly ctx s) (h : Dated labels ctx.metas) :
    Dated labels (metas (storedQueue s cfg.maxMessages.toNat)) := by
  have hperm := (b.perm_storedQueue honly (distinctKeys hmax _)).map (·.toEntryMeta)
  refine h.perm (hperm.trans (List.Perm.of_eq ?_))
  exact metas_nvsQueue ctx s

/-- What a call was about to do, whether or not it returned, keeps the entries dated. -/
theorem NvsEffect.dated {reply : StorageReply} (ef : NvsEffect cfg ctx s op (.ok reply) ctx' s')
    (h : Dated labels ctx.metas) (hop : label.op? = some op)
    (hpub : label.publishedId? = op.enqueueId?) (hu : (publishedIds (labels ++ [label])).Nodup) :
    Dated (labels ++ [label]) ctx'.metas := by
  have hmodify : ∀ {pos : Nat} {f : Progress → Progress},
      ctx'.index = ctx.index.modify pos (·.change f) → Dated (labels ++ [label]) ctx'.metas := by
    intro pos f hindex
    refine (h.snoc label).congr ?_
    rw [NvsCtx.metas, NvsCtx.metas, hindex, List.map_map, List.map_map]
    exact map_modify_of_eq fun _ _ => rfl
  cases ef with
  | candidate => exact h.snoc _
  | stats => exact h.snoc _
  | enqueued room encodes free hindex =>
    rw [NvsCtx.metas, hindex, List.map_append]
    exact h.append hu hop hpub rfl
  | claimed selected entry hindex => exact hmodify hindex
  | retired retires found entry hindex =>
    rw [NvsCtx.metas, hindex, map_swapRemove]
    exact (h.snoc label).swapRemove (by rw [NvsCtx.metas, List.getElem?_map, entry]; rfl)
  | retried found entry hindex => exact hmodify hindex

theorem NvsDated.step {sys sys' : StorageSystem (nvsBackend usage cfg)}
    (hmax : cfg.maxMessages.toNat ≤ 100000) (h : NvsDated cfg labels sys)
    (step : StorageStep (nvsBackend usage cfg) (nvsWorld usage cfg workingStore) sys label sys')
    (hu : (publishedIds (labels ++ [label])).Nodup)
    (hlen : ∀ op, label.op? = some op → op.Counted) : NvsDated cfg (labels ++ [label]) sys' := by
  have hno : ∀ s c, ¬ workingStore s c .fail := fun _ _ h => h rfl
  cases step with
  | @call ctx ctx' s s' op res run =>
    obtain ⟨b, honly, hd⟩ := h
    have ef := nvs_returned hno b (hlen _ rfl) run
    have hstep := StorageBackend.step (B := nvsBackend usage cfg) run
    exact ⟨(ef.step b (b.freshKey hmax op) (hlen _ rfl)).1, ef.only honly, hstep.dated hd hu⟩
  | @cut ctx s s' op run =>
    obtain ⟨b, honly, hd⟩ := h
    rcases nvs_cut b (hlen _ rfl) run with rfl | ⟨reply, ctx', ef⟩
    · exact ⟨b.recorded honly, b.inSlots honly, b.dated_off hmax honly (hd.snoc _)⟩
    · have b' := (ef.step b (b.freshKey hmax op) (hlen _ rfl)).1
      exact ⟨b'.recorded (ef.only honly), b'.inSlots (ef.only honly),
        b'.dated_off hmax (ef.only honly) (ef.dated hd rfl (by cases op <;> rfl) hu)⟩
  | stop =>
    obtain ⟨b, honly, hd⟩ := h
    exact ⟨b.recorded honly, b.inSlots honly, b.dated_off hmax honly (hd.snoc _)⟩
  | boot picked run =>
    cases picked
    obtain ⟨hrec, hin, hd⟩ := h
    obtain ⟨b, honly, hq, _⟩ := nvs_recovered hno hrec hin (distinctKeys hmax _) run
    refine ⟨b, honly, (hd.snoc _).congr ?_⟩
    have hmetas := metas_nvsQueue _ _ ▸ congrArg metas hq
    refine (congrArg (List.map EntryMeta.identity) hmetas).trans ?_
    rw [metas, metas, List.map_map, List.map_map, List.map_map]
    exact List.map_congr_left fun x _ => identity_restarted x
  | bootFail picked run =>
    cases picked
    exact (nvs_recovered hno h.1 h.2.1 (distinctKeys hmax _) run).elim
  | bootCut picked run =>
    cases picked
    obtain ⟨hrec, hin, hd⟩ := h
    have hr := nvs_recovered hno hrec hin (distinctKeys hmax _) run
    exact ⟨Requeued.recorded hr hrec, Requeued.inSlots hr hin,
      (hd.snoc _).congr (Requeued.identities hr _)⟩

theorem NvsDated.run {sys : StorageSystem (nvsBackend usage cfg)}
    (hmax : cfg.maxMessages.toNat ≤ 100000)
    (run : StorageRun (nvsBackend usage cfg) (nvsWorld usage cfg workingStore) (.off emptyStore)
      labels sys)
    (hu : (publishedIds labels).Nodup) (hlen : ∀ op ∈ callsOf labels, op.Counted) :
    NvsDated cfg labels sys := by
  induction run with
  | nil =>
    have hnone : storedQueue emptyStore cfg.maxMessages.toNat = [] :=
      List.filterMap_eq_nil_iff.mpr fun i _ => rfl
    refine ⟨fun k data hk => absurd hk (by simp [emptyStore]),
      fun k data hk => absurd hk (by simp [emptyStore]), ?_⟩
    rw [hnone]
    exact dated_nil
  | snoc run step ih =>
    refine (ih (unique_init hu) fun op hop => hlen op ?_).step hmax step hu fun op hop => hlen op ?_
    · rw [callsOf_snoc]
      exact List.mem_append_left _ hop
    · rw [callsOf_snoc, hop]
      exact List.mem_append_right _ List.mem_cons_self

end Nvs

/-! ## The order -/

/-- The first message was accepted before the second. -/
def AcceptedBefore (labels : List FlashqStepLabel) (a b : EdgesyncMessage) : Prop :=
  ∃ before mid after, labels = before ++ .call (.enqueue a) (.ok .done) :: mid ++
    .call (.enqueue b) (.ok .done) :: after

/-- The message is PENDING, and was never attempted. -/
def Untried (q : List EntryMeta) (message : EdgesyncMessage) : Prop :=
  ∃ e ∈ q, e.id = message.id ∧ e.progress = Progress.queued

instance (q : List EntryMeta) (message : EdgesyncMessage) : Decidable (Untried q message) :=
  inferInstanceAs (Decidable (∃ e ∈ q, e.id = message.id ∧ e.progress = Progress.queued))

/-- The id of the message that a claim is about. -/
def ClaimReply.id : ClaimReply → UInt64
  | .claimed message => message.id
  | .corrupt id => id

/-- While both messages wait untried, and have one priority, neither `op_claim_next` nor
`op_find_drop_candidate` under `DROP_OLDEST` takes the second. -/
def KeepsOrder (B : StorageBackend) (W : StorageWorld B) (sys : StorageSystem B)
    (a b : EdgesyncMessage) : Prop :=
  ∀ ctx dev, sys = .on ctx dev → Untried (B.metas ctx) a → Untried (B.metas ctx) b →
    a.priority = b.priority → ∀ sys',
      (∀ nowUs reply, StorageStep B W sys (.call (.claimNext nowUs) (.ok (.claim reply))) sys' →
        reply.id ≠ b.id) ∧
      ∀ id, StorageStep B W sys (.call (.findDropCandidate .dropOldest) (.ok (.candidate id))) sys' →
        id ≠ b.id

section Order

variable {labels : List FlashqStepLabel} {q : List EntryMeta} {a b : EntryMeta}

/-- The claim loop prefers the older of two untried messages of one priority. -/
theorem selectClaim_older {nowUs : Int64} {pos : Nat} (ha : a ∈ q)
    (hpa : a.progress = Progress.queued) (hpb : b.progress = Progress.queued)
    (hprio : a.priority = b.priority) (hage : a.createdAtUs < b.createdAtUs)
    (hsel : selectClaim nowUs q = some pos) : q[pos]? ≠ some b := by
  intro hb
  obtain ⟨e, he, helig, hbest⟩ := pick_best EntryMeta.claimedBefore_trans
    EntryMeta.claimedBefore_irrefl hsel
  obtain rfl := Option.some.inj (he.symm.trans hb)
  have hstate : ∀ {x : EntryMeta}, x.progress = Progress.queued →
      x.state = FlashqState.pending.code ∧ x.nextRetryAtUs = 0 :=
    fun hx => ⟨congrArg Progress.state hx, congrArg Progress.nextRetryAtUs hx⟩
  obtain ⟨hsa, hna⟩ := hstate hpa
  obtain ⟨hse, hne⟩ := hstate hpb
  have helig' : a.eligible nowUs = true := by
    rw [EntryMeta.eligible, hse, hne] at helig
    rwa [EntryMeta.eligible, hsa, hna]
  have hbefore : EntryMeta.claimedBefore a e = true := by
    rw [EntryMeta.claimedBefore_iff]
    refine .inr ⟨congrArg UInt8.toNat hprio, .inr ⟨?_, Int64.lt_iff_toInt_lt.mp hage⟩⟩
    rw [hna, hne]
  rw [hbest a ha helig'] at hbefore
  cases hbefore

/-- The drop loop prefers the older of two waiting messages. -/
theorem selectDrop_older {pos : Nat} (ha : a ∈ q) (hpa : a.progress = Progress.queued)
    (hage : a.createdAtUs < b.createdAtUs) (hsel : selectDrop .dropOldest q = some pos) :
    q[pos]? ≠ some b := by
  intro hb
  obtain ⟨e, he, _, hbest⟩ := pick_best (EntryMeta.droppedBefore_trans .dropOldest)
    (EntryMeta.droppedBefore_irrefl .dropOldest) hsel
  obtain rfl := Option.some.inj (he.symm.trans hb)
  have hstate : a.state = FlashqState.pending.code := congrArg Progress.state hpa
  have hbefore : EntryMeta.droppedBefore .dropOldest a e = true :=
    EntryMeta.droppedBefore_iff.mpr (.inr ⟨by decide, Int64.lt_iff_toInt_lt.mp hage⟩)
  rw [hbest a ha (by rw [hstate]; rfl)] at hbefore
  cases hbefore

/-- A claim that returns took the entry that the loop selected. -/
theorem CallStep.claim_selected {early : Bool} {capacity : Nat} {q' : List EntryMeta}
    {nowUs : Int64} {reply : ClaimReply}
    (step : CallStep early capacity q (.claimNext nowUs) (.ok (.claim reply)) q') :
    ∃ pos e, selectClaim nowUs q = some pos ∧ q[pos]? = some e ∧ reply.id = e.id := by
  cases step with
  | claimed selected entry shows => exact ⟨_, _, selected, entry, shows.id⟩
  | corrupt selected entry => exact ⟨_, _, selected, entry, rfl⟩

/-- A candidate is the entry that the loop selected. -/
theorem CallStep.candidate_selected {early : Bool} {capacity : Nat} {q' : List EntryMeta}
    {policy : OverflowPolicy} {id : UInt64}
    (step : CallStep early capacity q (.findDropCandidate policy) (.ok (.candidate id)) q') :
    ∃ pos e, selectDrop policy q = some pos ∧ q[pos]? = some e ∧ id = e.id := by
  cases step with
  | candidate selected entry => exact ⟨_, _, selected, entry, rfl⟩

/-- The entry of a message that was offered. -/
theorem Dated.entry_eq (h : Dated labels q) (hu : (publishedIds labels).Nodup)
    {message : EdgesyncMessage} (hoff : Offered labels message) (ha : a ∈ q)
    (hid : a.id = message.id) : a.identity = message.entry.identity := by
  obtain ⟨message', hoff', hident⟩ := h.offered a ha
  have hid' : a.id = message'.id := congrArg Prod.fst hident
  rw [hoff.unique hu hoff' (hid.symm.trans hid')]
  exact hident

theorem AcceptedBefore.offered {a b : EdgesyncMessage} (h : AcceptedBefore labels a b) :
    Offered labels a ∧ Offered labels b := by
  obtain ⟨before, mid, after, rfl⟩ := h
  constructor
  · exact ⟨.call (.enqueue a) (.ok .done), by simp, rfl, rfl⟩
  · exact ⟨.call (.enqueue b) (.ok .done), by simp, rfl, rfl⟩

/-- Dated entries keep the order in which the messages were created. -/
theorem Dated.keepsOrder {B : StorageBackend} {W : StorageWorld B} {sys : StorageSystem B}
    {a b : EdgesyncMessage} (h : ∀ ctx dev, sys = .on ctx dev → Dated labels (B.metas ctx))
    (hu : (publishedIds labels).Nodup) (hab : AcceptedBefore labels a b)
    (hage : a.createdAtUs < b.createdAtUs) : KeepsOrder B W sys a b := by
  obtain ⟨hoffa, hoffb⟩ := hab.offered
  rintro ctx dev rfl ⟨x, hx, hxid, hxp⟩ ⟨y, hy, hyid, hyp⟩ hprio sys'
  have hd := h ctx dev rfl
  have hix := hd.entry_eq hu hoffa hx hxid
  have hiy := hd.entry_eq hu hoffb hy hyid
  simp only [EntryMeta.identity, Prod.mk.injEq] at hix hiy
  have hcx : x.createdAtUs = a.createdAtUs := hix.2.2.2.2
  have hcy : y.createdAtUs = b.createdAtUs := hiy.2.2.2.2
  have hpx : x.priority = a.priority := hix.2.1
  have hpy : y.priority = b.priority := hiy.2.1
  have hage' : x.createdAtUs < y.createdAtUs := by rw [hcx, hcy]; exact hage
  have hprio' : x.priority = y.priority := by rw [hpx, hpy]; exact hprio
  -- an entry with the id of the second message is its entry
  have hsame : ∀ e ∈ B.metas ctx, e.id = b.id → e = y := fun e he hid =>
    List.inj_on_of_nodup_map hd.nodup he hy (hid.trans hyid.symm)
  constructor
  · rintro nowUs reply step hid
    cases step with
    | call run =>
      obtain ⟨pos, e, hsel, he, hreply⟩ := (B.step run).claim_selected
      have hey := hsame e (List.mem_of_getElem? he) (hreply.symm.trans hid)
      exact selectClaim_older hx hxp hyp hprio' hage' hsel (hey ▸ he)
  · rintro id step hid
    cases step with
    | call run =>
      obtain ⟨pos, e, hsel, he, hreply⟩ := (B.step run).candidate_selected
      have hey := hsame e (List.mem_of_getElem? he) (hreply.symm.trans hid)
      exact selectDrop_older hx hxp hage' hsel (hey ▸ he)

end Order

/-- In every run, over any number of boots, two messages of one priority are taken in the
order in which they were accepted, if the clock values they were stamped with are in that
order. -/
theorem oldest_first {cfg : FlashqConfig} {cfgN : NvsConfig}
    {usage : BlobStore → UInt32 × UInt32} (hmax : cfgN.maxMessages.toNat ≤ 100000)
    {labels : List FlashqStepLabel} {a b : EdgesyncMessage} (hu : (publishedIds labels).Nodup)
    (hab : AcceptedBefore labels a b) (hage : a.createdAtUs < b.createdAtUs) :
    (∀ sys, StorageRun (flashqBackend cfg) ((whole cfg).world.storage cfg) (.off erasedFlash) labels
      sys → AllFit cfg labels →
      KeepsOrder (flashqBackend cfg) ((whole cfg).world.storage cfg) sys a b) ∧
    ∀ sys, StorageRun (nvsBackend usage cfgN) (nvsWorld usage cfgN workingStore) (.off emptyStore)
      labels sys → (∀ op ∈ callsOf labels, op.Counted) →
      KeepsOrder (nvsBackend usage cfgN) (nvsWorld usage cfgN workingStore) sys a b := by
  constructor
  · intro sys run hfit
    have hd := FlashqDated.run (R := whole cfg) (fun h => h) run.flashq hu hfit
    refine Dated.keepsOrder (fun ctx dev heq => ?_) hu hab hage
    subst heq
    exact hd.2
  · intro sys run hlen
    have hd := NvsDated.run hmax run hu hlen
    refine Dated.keepsOrder (fun ctx dev heq => ?_) hu hab hage
    subst heq
    exact hd.2.2

/-! ## Two boots -/

/-- A message that was accepted one second after the first boot. -/
def firstBootMessage : EdgesyncMessage := ⟨1, [0x61], 1, 1000000, [1]⟩

/-- Messages that are accepted early, and late, in the second boot. -/
def earlyMessage : EdgesyncMessage := ⟨2, [0x61], 1, 5000, [2]⟩
def lateMessage : EdgesyncMessage := ⟨2, [0x61], 1, 2000000, [2]⟩

/-- Each of the two messages is accepted in a boot of its own. -/
def twoBootsScript (message : EdgesyncMessage) : NvsScript :=
  [(.boot, []), (.call (.enqueue firstBootMessage), []), (.stop, []), (.boot, []),
    (.call (.enqueue message), [])]

/-- What the callers see of it. -/
def twoBootsLabels (message : EdgesyncMessage) : List FlashqStepLabel :=
  [.booted, .call (.enqueue firstBootMessage) (.ok .done), .stopped, .booted,
    .call (.enqueue message) (.ok .done)]

theorem acceptedBefore_twoBoots (message : EdgesyncMessage) :
    AcceptedBefore (twoBootsLabels message) firstBootMessage message :=
  ⟨[.booted], [.stopped, .booted], [], rfl⟩

theorem twoBoots_run {message : EdgesyncMessage} {sys : NvsSystem noUsage slotConfig}
    (h : nvsPlay slotConfig (.off emptyStore) (twoBootsScript message) [] =
      some (twoBootsLabels message, sys)) :
    StorageRun (nvsBackend noUsage slotConfig) (nvsWorld noUsage slotConfig workingStore)
      (.off emptyStore) (twoBootsLabels message) sys := by
  refine nvsPlay_run (fun _ _ => by simp [workingStore]) (fun x hx ev hev => ?_) .nil h
  simp only [twoBootsScript, List.mem_cons, List.not_mem_nil, or_false] at hx
  rcases hx with rfl | rfl | rfl | rfl | rfl <;> exact absurd hev List.not_mem_nil

/-- Where the second message is accepted once the clock has passed the first, the order is
kept. -/
theorem oldest_first_late : ∃ sys, KeepsOrder (nvsBackend noUsage slotConfig)
    (nvsWorld noUsage slotConfig workingStore) sys firstBootMessage lateMessage := by
  have hcheck : (nvsPlay slotConfig (.off emptyStore) (twoBootsScript lateMessage) []).map (·.1) =
      some (twoBootsLabels lateMessage) := by decide +kernel
  obtain ⟨⟨labels, sys⟩, hplay, rfl⟩ := Option.map_eq_some_iff.mp hcheck
  refine ⟨sys, (@oldest_first roomyConfig slotConfig noUsage (by decide) _ _ _ (by decide)
    (acceptedBefore_twoBoots lateMessage) (by decide)).2 sys (twoBoots_run hplay) ?_⟩
  intro op hop
  have hop' : op = .enqueue firstBootMessage ∨ op = .enqueue lateMessage := by
    simpa [callsOf, twoBootsLabels, FlashqStepLabel.op?] using hop
  rcases hop' with rfl | rfl <;> rfl

/-- What the run with the early message shows. -/
def earlyShows :
    List FlashqStepLabel × StorageSystem (nvsBackend noUsage slotConfig) → Bool
  | (labels, .on ctx s) => decide (labels = twoBootsLabels earlyMessage ∧
      Untried (NvsCtx.metas ctx) firstBootMessage ∧ Untried (NvsCtx.metas ctx) earlyMessage) &&
    match nvsAct slotConfig (.on ctx s) (.call (.claimNext 6000)) [] with
    | some (.call op (.ok (.claim reply)), _) =>
      decide (op = .claimNext 6000 ∧ reply.id = earlyMessage.id)
    | _ => false
  | (_, .off _) => false

/-- The clock starts anew with the second boot, and the message that was accepted last is
taken first. -/
theorem oldest_first_rebooted : ∃ sys,
    StorageRun (nvsBackend noUsage slotConfig) (nvsWorld noUsage slotConfig workingStore)
      (.off emptyStore) (twoBootsLabels earlyMessage) sys ∧
    AcceptedBefore (twoBootsLabels earlyMessage) firstBootMessage earlyMessage ∧
    (publishedIds (twoBootsLabels earlyMessage)).Nodup ∧
    ¬ KeepsOrder (nvsBackend noUsage slotConfig) (nvsWorld noUsage slotConfig workingStore) sys
      firstBootMessage earlyMessage := by
  have hcheck : (nvsPlay slotConfig (.off emptyStore) (twoBootsScript earlyMessage) []).any
      earlyShows = true := by decide +kernel
  obtain ⟨⟨labels, sys⟩, hplay, hshows⟩ := (Option.any_eq_true _ _).mp hcheck
  cases sys with
  | off s => cases hshows
  | on ctx s =>
    obtain ⟨hstate, hclaim⟩ := Bool.and_eq_true_iff.mp hshows
    obtain ⟨rfl, hfirst, hearly⟩ := of_decide_eq_true hstate
    refine ⟨_, twoBoots_run hplay, acceptedBefore_twoBoots _, by decide, fun h => ?_⟩
    split at hclaim
    case h_2 => cases hclaim
    case h_1 op reply sys' hact =>
      obtain ⟨rfl, hid⟩ := of_decide_eq_true hclaim
      exact (h ctx s rfl hfirst hearly rfl sys').1 6000 reply
        (nvsAct_step (fun _ _ => by simp [workingStore]) (by simp) hact) hid

end EdgeSync
