/-
  Stack/Durable.lean --- the stack over a storage that loses nothing.

  Both backends lose nothing they accepted, the flash queue as long as retries are of
  messages in flight.  The worker sees to that: what it settles it has claimed.
-/
import EdgeSync.Contents
import EdgeSync.Flashq.Atomic
import EdgeSync.Nvs.Atomic
import EdgeSync.Stack.Journey

set_option autoImplicit false

namespace EdgeSync

open Foundation

/-! ## Backends that lose nothing -/

/-- Retries are of messages in flight. -/
def RetriesFlying {B : StorageBackend} : StorageSystem B → FlashqStepLabel → Prop
  | .on ctx _, label => ∀ id nextRetryTimeUs deadLetter lastError,
      label.op? = some (.scheduleRetry id nextRetryTimeUs deadLetter lastError) →
      ∀ e ∈ B.metas ctx, e.id = id → e.state = FlashqState.inFlight.code
  | .off _, _ => True

/-- A backend in a world where it does what an object that loses nothing does.  `Allowed` is
what is asked of the calls, and `view` shows what is never changed of a message. -/
structure DurableBackend where
  B : StorageBackend
  W : StorageWorld B
  blank : B.Dev
  queue : B.Ctx → B.Dev → List StoredMessage
  object : AtomicObject (List StoredMessage)
  view : StoredMessage → StoredMessage
  Allowed : List FlashqStepLabel → Prop
  allowed_left : ∀ {labels labels' : List FlashqStepLabel}, Allowed (labels ++ labels') →
    Allowed labels
  metas_queue : ∀ ctx dev, metas (queue ctx dev) = B.metas ctx
  entries : object.Shows metas entryTable
  keeps : object.Keeps view
  atomic : ∀ {labels : List FlashqStepLabel} {ctx : B.Ctx} {dev : B.Dev},
    StepRun (Guarded (StorageStep B W) RetriesFlying) (.off blank) labels (.on ctx dev) →
    (publishedIds labels).Nodup → Allowed labels →
    StepRun (AtomicStep object) (.off []) labels (.on (queue ctx dev))

theorem publishedIds_append (labels labels' : List FlashqStepLabel) :
    publishedIds (labels ++ labels') = publishedIds labels ++ publishedIds labels' :=
  List.filterMap_append

theorem AtomicStep.shows_run {Q Q' : Type} {O : AtomicObject Q} {O' : AtomicObject Q'} {f : Q → Q'}
    (h : O.Shows f O') {p p' : Powered Q} {labels : List FlashqStepLabel}
    (run : StepRun (AtomicStep O) p labels p') :
    StepRun (AtomicStep O') (p.map f) labels (p'.map f) := by
  induction run with
  | nil => exact .nil
  | snoc _ last ih => exact ih.snoc (last.shows h)

section Flashq

variable {fcfg : FlashqConfig}

/-- A run of the storage system is a run of the flash queue. -/
theorem flashq_guarded {W : FlashqWorld} {s s' : StorageSystem (flashqBackend fcfg)}
    {labels : List FlashqStepLabel}
    (run : StepRun (Guarded (StorageStep (flashqBackend fcfg) (W.storage fcfg)) RetriesFlying) s
      labels s') :
    StepRun (Guarded (FlashqStep fcfg W) RetriesInFlight) s.flashq labels s'.flashq := by
  induction run with
  | nil => exact .nil
  | @snoc labels s1 s2 label _ last ih =>
    refine ih.snoc ⟨last.1.flashq, ?_⟩
    cases s1 with
    | off dev => trivial
    | on ctx dev => exact last.2

theorem flashq_durable {labels : List FlashqStepLabel} {ctx : FlashqCtx} {m : Memory}
    (run : StepRun (Guarded (StorageStep (flashqBackend fcfg) ((detected fcfg).world.storage fcfg))
      RetriesFlying) (.off erasedFlash) labels (.on ctx m))
    (hu : (publishedIds labels).Nodup) (hfit : AllFit fcfg labels) :
    StepRun (AtomicStep messageQueue) (.off []) labels (.on (ctx.core.queue fcfg m)) :=
  flashq_atomic (R := detected fcfg) (fun h => h) (fun _ _ h => h.symm) (flashq_guarded run) hu hfit

theorem flashq_metas_queue (ctx : FlashqCtx) (m : Memory) :
    metas (ctx.core.queue fcfg m) = ctx.metas := metas_contents _ _

variable (fcfg) in
/-- The flash queue, where the scan detects what a power cut left. -/
def flashqDurable : DurableBackend where
  B := flashqBackend fcfg
  W := (detected fcfg).world.storage fcfg
  blank := erasedFlash
  queue ctx m := FlashqCtx.core ctx |>.queue fcfg m
  object := messageQueue
  view := StoredMessage.accepted
  Allowed := AllFit fcfg
  allowed_left := AllFit.left
  metas_queue := flashq_metas_queue
  entries := messageQueue_entries
  keeps := messageQueue_keeps
  atomic := flashq_durable

end Flashq

section Nvs

variable {ncfg : NvsConfig} {usage : BlobStore → UInt32 × UInt32}

/-- The entries of the queue of slots. -/
theorem slotQueue_entries : (slotQueue ncfg).Shows metas entryTable where
  call {q op res q'} step := by
    refine ⟨q.length + 1, ?_⟩
    cases step with
    | refused why => exact .refused
    | candidate selected entry => exact .candidate selected (entries_getElem? entry)
    | stats counted => exact .stats
    | enqueued room encodes =>
      rw [entries_append]
      refine .enqueued ?_
      rw [metas, List.length_map]
      exact Nat.lt_succ_self _
    | claimed selected entry =>
      rw [entries_modify q _ fun _ => rfl]
      exact .claimed selected (entries_getElem? entry) ⟨rfl, rfl, rfl, rfl, rfl, rfl, rfl, rfl, rfl⟩
    | retired retires found =>
      rw [entries_swapRemove]
      exact .retired retires (entries_find found)
    | retried found =>
      rw [entries_modify q _ fun _ => rfl]
      exact .retried (entries_find found)
  kept {q q'} h := by
    have hmap := h.map fun s : StoredMessage => s.toEntryMeta.durable
    have hrestarted : ∀ s : StoredMessage, s.restarted.toEntryMeta.durable = s.toEntryMeta.durable := by
      intro s
      rw [s.restarted_toEntryMeta, EntryMeta.durable_settle]
    simp only [List.map_map, Function.comp_def, hrestarted] at hmap
    show ((metas q').map EntryMeta.durable).Perm ((metas q).map EntryMeta.durable)
    rwa [metas, metas, List.map_map, List.map_map]
  restart {q q'} h := by
    refine List.Perm.of_eq ?_
    rw [h, metas, metas, List.map_map, List.map_map]
    exact List.map_congr_left fun s _ => s.restarted_toEntryMeta

theorem storageRun_of_stepRun {B : StorageBackend} {W : StorageWorld B} {s s' : StorageSystem B}
    {labels : List FlashqStepLabel} (run : StepRun (StorageStep B W) s labels s') :
    StorageRun B W s labels s' := by
  induction run with
  | nil => exact .nil
  | snoc _ last ih => exact ih.snoc last

/-- No payload is longer than its length field can say. -/
def AllCounted (labels : List FlashqStepLabel) : Prop := ∀ op ∈ callsOf labels, op.Counted

instance (op : StorageOp) : Decidable op.Counted :=
  match op with
  | .enqueue message =>
      inferInstanceAs (Decidable (message.payloadLen.toNat = message.payload.length))
  | .claimNext _ => .isTrue trivial
  | .markDelivered _ => .isTrue trivial
  | .scheduleRetry _ _ _ _ => .isTrue trivial
  | .remove _ => .isTrue trivial
  | .findDropCandidate _ => .isTrue trivial
  | .getStats _ => .isTrue trivial

instance (labels : List FlashqStepLabel) : Decidable (AllCounted labels) :=
  inferInstanceAs (Decidable (∀ op ∈ callsOf labels, op.Counted))

theorem AllCounted.left {labels labels' : List FlashqStepLabel} (h : AllCounted (labels ++ labels')) :
    AllCounted labels := fun op hop => h op (by
  rw [callsOf_append]
  exact List.mem_append_left _ hop)

theorem nvs_durable (hmax : ncfg.maxMessages.toNat ≤ 100000) {labels : List FlashqStepLabel}
    {ctx : NvsCtx} {m : BlobStore}
    (run : StepRun (Guarded (StorageStep (nvsBackend usage ncfg) (nvsWorld usage ncfg workingStore))
      RetriesFlying) (.off emptyStore) labels (.on ctx m))
    (_hu : (publishedIds labels).Nodup) (hlen : AllCounted labels) :
    StepRun (AtomicStep (slotQueue ncfg)) (.off []) labels (.on (ctx.queue m)) :=
  (nvs_atomic hmax (storageRun_of_stepRun run.unguarded) hlen).2

theorem restarted_heading (x : StoredMessage) : x.restarted.accepted.heading = x.accepted.heading := by
  unfold StoredMessage.restarted
  split
  · rfl
  · rfl

/-- The queue of slots may lose payloads, but nothing else. -/
theorem slotQueue_keeps : (slotQueue ncfg).Keeps fun x => x.accepted.heading where
  heading h := h
  call {q op res q'} step x' hx' := by
    cases step with
    | refused why => exact .inl ⟨x', hx', rfl⟩
    | candidate selected entry => exact .inl ⟨x', hx', rfl⟩
    | stats counted => exact .inl ⟨x', hx', rfl⟩
    | claimed selected entry =>
      rcases mem_of_mem_modify hx' with hx' | ⟨x, hx, rfl⟩
      · exact .inl ⟨x', hx', rfl⟩
      · exact .inl ⟨x, List.mem_of_getElem? hx, rfl⟩
    | retried found =>
      rcases mem_of_mem_modify hx' with hx' | ⟨x, hx, rfl⟩
      · exact .inl ⟨x', hx', rfl⟩
      · exact .inl ⟨x, List.mem_of_getElem? hx, rfl⟩
    | retired retires found => exact .inl ⟨x', mem_of_mem_swapRemove hx', rfl⟩
    | enqueued room encodes =>
      rcases List.mem_append.mp hx' with hx' | hx'
      · exact .inl ⟨x', hx', rfl⟩
      · exact .inr ⟨_, rfl, rfl, by rw [List.mem_singleton.mp hx']⟩
  claim {q nowUs c q'} step := by
    cases step with
    | claimed selected entry =>
      exact ⟨_, List.mem_of_getElem? entry, ⟨rfl, rfl, rfl, rfl, rfl⟩⟩
  kept {q q'} h x' hx' := by
    have hmem : x'.restarted ∈ q.map StoredMessage.restarted := h.mem_iff.mp (List.mem_map_of_mem hx')
    obtain ⟨x, hx, hview⟩ := List.mem_map.mp hmem
    refine ⟨x, hx, ?_⟩
    rw [← restarted_heading x', ← restarted_heading x, hview]
  restart {q q'} h x' hx' := by
    rw [show q' = _ from h] at hx'
    obtain ⟨x, hx, rfl⟩ := List.mem_map.mp hx'
    exact ⟨x, hx, restarted_heading x⟩

variable (usage ncfg) in
/-- The NVS backend with slots for at most 100000 messages, where the store does what it is
asked to. -/
def nvsDurable (hmax : ncfg.maxMessages.toNat ≤ 100000) : DurableBackend where
  B := nvsBackend usage ncfg
  W := nvsWorld usage ncfg workingStore
  blank := emptyStore
  queue := NvsCtx.queue
  object := slotQueue ncfg
  view x := x.accepted.heading
  Allowed := AllCounted
  allowed_left := AllCounted.left
  metas_queue := metas_nvsQueue
  entries := slotQueue_entries
  keeps := slotQueue_keeps
  atomic := nvs_durable hmax

end Nvs

/-! ## The stack -/

section Stack

variable {D : DurableBackend} {cfg : StackConfig} {labels : List StackLabel} {label : StackLabel}
  {s s' : StackSystem D.B}

/-- The worker of a run. -/
theorem stack_worker {B : StorageBackend} {W : StorageWorld B} {dev : B.Dev} {s : StackSystem B}
    (run : StepRun (StackStep W cfg) (.off dev) labels s) :
    StepRun (WorkerStep cfg) none labels s.worker? := by
  induction run with
  | nil => exact .nil
  | snoc _ last ih => exact ih.snoc last.worker

/-- A call that is no retry may happen anywhere. -/
theorem retriesFlying_of_op {B : StorageBackend} {label : FlashqStepLabel}
    (h : ∀ id nextRetryTimeUs deadLetter lastError,
      label.op? ≠ some (.scheduleRetry id nextRetryTimeUs deadLetter lastError))
    (s : StorageSystem B) : RetriesFlying s label := by
  cases s with
  | off dev => trivial
  | on ctx dev => exact fun id next dead err hop => absurd hop (h id next dead err)

/-- The calls of a publish are no retries. -/
theorem PublishCalls.no_retry {policy : OverflowPolicy} {message : EdgesyncMessage}
    {calls : List StorageCall} {report : PublishReport}
    (made : PublishCalls policy message calls report) :
    ∀ label ∈ calls.map StorageCall.label, ∀ id nextRetryTimeUs deadLetter lastError,
      label.op? ≠ some (.scheduleRetry id nextRetryTimeUs deadLetter lastError) := by
  cases made <;> simp [StorageCall.label, FlashqStepLabel.op?]

theorem PublishCut.no_retry {policy : OverflowPolicy} {message : EdgesyncMessage}
    {calls : List StorageCall} {op : StorageOp} (made : PublishCut policy message calls op) :
    ∀ label ∈ calls.map StorageCall.label ++ [.callCut op],
      ∀ id nextRetryTimeUs deadLetter lastError,
      label.op? ≠ some (.scheduleRetry id nextRetryTimeUs deadLetter lastError) := by
  cases made <;> simp [StorageCall.label, FlashqStepLabel.op?]

/-- A step makes no retry, or settles a delivery. -/
theorem StackStep.retries {B : StorageBackend} {W : StorageWorld B} {s s' : StackSystem B}
    (step : StackStep W cfg s label s') :
    (∀ l ∈ label.storage, ∀ id nextRetryTimeUs deadLetter lastError,
      l.op? ≠ some (.scheduleRetry id nextRetryTimeUs deadLetter lastError)) ∨
    ∃ t op events l, s = .on t ∧ t.worker = .settling op events ∧ label.storage = [l] ∧
      l.op? = some op := by
  cases step with
  | task step =>
    cases step with
    | publish idle run made => exact .inl made.no_retry
    | settle settles run => exact .inr ⟨_, _, _, _, rfl, settles, rfl, rfl⟩
    | _ => exact .inl (by simp [StackLabel.storage, TasksLabel.calls, StorageCall.label,
        FlashqStepLabel.op?])
  | publishCut idle run made => exact .inl made.no_retry
  | callCut calling run =>
    cases calling with
    | claim ready => exact .inl (by simp [StackLabel.storage, FlashqStepLabel.op?])
    | settle settles => exact .inr ⟨_, _, _, _, rfl, settles, rfl, rfl⟩
    | stats => exact .inl (by simp [StackLabel.storage, FlashqStepLabel.op?])
  | _ => exact .inl (by simp [StackLabel.storage, FlashqStepLabel.op?])

/-- The message `id` in a running stack. -/
theorem journey_of_entries {t : Tasks D.B} (id : UInt64)
    (run : StepRun (AtomicStep entryTable) (.off []) (storageLabels labels) (.on (D.B.metas t.ctx)))
    (worker : StepRun (WorkerStep cfg) none labels (some t.worker))
    (hu : (publishedIds (storageLabels labels)).Nodup) :
    ∃ l, StepRun (JourneyStep cfg id) (.off .new) labels (.on l t.worker) ∧
      SeenAs id (storageLabels labels) (D.B.metas t.ctx) l := by
  obtain ⟨p, mrun, seen⟩ := message_run id run hu
  obtain ⟨j, hpower, hworker, jrun⟩ := journey_run mrun worker
  cases seen with
  | @on q l seen =>
    cases j with
    | off l' => cases hpower
    | on l' w =>
      cases hpower
      cases hworker
      exact ⟨l, jrun, seen⟩

/-- The entries of a run that loses nothing. -/
theorem DurableBackend.entries_run {labels : List FlashqStepLabel} {ctx : D.B.Ctx} {dev : D.B.Dev}
    (run : StepRun (AtomicStep D.object) (.off []) labels (.on (D.queue ctx dev))) :
    StepRun (AtomicStep entryTable) (.off []) labels (.on (D.B.metas ctx)) := by
  have hentries := AtomicStep.shows_run D.entries run
  rwa [show (Powered.on (D.queue ctx dev)).map metas = .on (D.B.metas ctx) from
    congrArg Powered.on (D.metas_queue ctx dev)] at hentries

/-- What the worker settles is in flight, so the storage loses nothing. -/
theorem stack_guarded (run : StepRun (StackStep D.W cfg) (.off D.blank) labels s)
    (hu : (publishedIds (storageLabels labels)).Nodup) (hall : D.Allowed (storageLabels labels)) :
    StepRun (Guarded (StorageStep D.B D.W) RetriesFlying) (.off D.blank) (storageLabels labels)
      s.storage := by
  induction run with
  | nil => exact .nil
  | @snoc labels s1 s2 label run last ih =>
    rw [storageLabels_snoc] at hu hall ⊢
    rw [publishedIds_append] at hu
    have hu1 := hu.of_append_left
    have hall1 := D.allowed_left hall
    have hrun := ih hu1 hall1
    refine hrun.append ?_
    rcases last.retries with hno | ⟨t, op, events, l, rfl, hsettles, hl, hop⟩
    · exact last.storage.guarded fun l hl s => retriesFlying_of_op (hno l hl) s
    · have hstep := last.storage
      rw [hl] at hstep ⊢
      refine StepRun.single_iff.mpr ⟨StepRun.single_iff.mp hstep, ?_⟩
      intro id nextRetryTimeUs deadLetter lastError hretry e he hid
      obtain ⟨l', jrun, seen⟩ := journey_of_entries id
        (D.entries_run (D.atomic hrun hu1 hall1)) (stack_worker run) hu1
      have held : Held cfg id labels l' t.worker := journey_held jrun
      obtain ⟨msg, result, nowUs, randomU32, -, hhandled, hshown⟩ := held.settling op events hsettles
      have hmsg : msg.id = id := by
        have hsettled := handled_settles cfg.retry msg nowUs randomU32 result
        rw [← hhandled, Option.some.inj (hop.symm.trans hretry)] at hsettled
        exact (Option.some.inj hsettled).symm
      obtain ⟨e', rfl, hflying, -⟩ := hshown hmsg
      obtain ⟨he', hid'⟩ := seen.inTable
      rw [List.inj_on_of_nodup_map seen.unique he he' (hid.trans hid'.symm)]
      exact hflying

variable (D cfg) in
/-- A run of the stack, over any number of boots, in which every message has its own id. -/
structure DurableRun (labels : List StackLabel) (t : Tasks D.B) : Prop where
  run : StepRun (StackStep D.W cfg) (.off D.blank) labels (.on t)
  unique : (publishedIds (storageLabels labels)).Nodup
  allowed : D.Allowed (storageLabels labels)

variable {t : Tasks D.B}

/-- The storage of such a run loses nothing. -/
theorem DurableRun.queue (h : DurableRun D cfg labels t) :
    StepRun (AtomicStep D.object) (.off []) (storageLabels labels) (.on (D.queue t.ctx t.dev)) :=
  D.atomic (stack_guarded h.run h.unique h.allowed) h.unique h.allowed

/-- Every message of it makes its journey. -/
theorem DurableRun.journey (h : DurableRun D cfg labels t) (id : UInt64) :
    ∃ l, StepRun (JourneyStep cfg id) (.off .new) labels (.on l t.worker) ∧
      SeenAs id (storageLabels labels) (D.B.metas t.ctx) l :=
  journey_of_entries id (D.entries_run h.queue) (stack_worker h.run) h.unique

end Stack

end EdgeSync
