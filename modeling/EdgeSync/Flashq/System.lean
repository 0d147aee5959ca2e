/-
  Flashq/System.lean --- the backend over many calls and many boots.

  A system is a partition with or without a running backend.  Its steps are the
  storage calls, the restarts, and the power cuts in either; what the flash may
  do in a step is given by a `FlashqWorld`.  A run records what the callers saw.
-/
import EdgeSync.Flashq.Invariant

set_option autoImplicit false

namespace EdgeSync

open Foundation

/-! ## Runs -/

/-- The partition, switched off or with a running backend. -/
inductive FlashqSystem where
  | off (flash : Memory)
  | on (ctx : FlashqCtx) (flash : Memory)

/-- What happens to the backend, as its callers see it. -/
inductive FlashqStepLabel where
  /-- a call that returned -/
  | call (op : StorageOp) (res : Except EspErr StorageReply)
  /-- the power went during a call -/
  | callCut (op : StorageOp)
  /-- the power went between two calls -/
  | stopped
  /-- `op_recover` returned `ESP_OK` -/
  | booted
  | bootFailed (err : EspErr)
  /-- the power went during `op_recover` -/
  | bootCut
  deriving DecidableEq

/-- The events the flash may choose, during calls and during `op_recover`.  A
restart picks one of the environments of `boots`. -/
structure FlashqWorld where
  calls : Env FlashCall Memory FlashEvent
  boots : Fin 2 → Env FlashCall Memory FlashEvent

/-- One step. -/
inductive FlashqStep (cfg : FlashqConfig) (W : FlashqWorld) :
    FlashqSystem → FlashqStepLabel → FlashqSystem → Prop where
  | returned {ctx ctx' : FlashqCtx} {m m' : Memory} {op : StorageOp} {reply : StorageReply}
      (run : Runs cfg.device W.calls (flashqCall cfg op) ctx m (.ok reply ctx' m')) :
      FlashqStep cfg W (.on ctx m) (.call op (.ok reply)) (.on ctx' m')
  | failed {ctx ctx' : FlashqCtx} {m m' : Memory} {op : StorageOp} {err : EspErr}
      (run : Runs cfg.device W.calls (flashqCall cfg op) ctx m (.error err ctx' m')) :
      FlashqStep cfg W (.on ctx m) (.call op (.error err)) (.on ctx' m')
  | cut {ctx : FlashqCtx} {m m' : Memory} {op : StorageOp}
      (run : Runs cfg.device W.calls (flashqCall cfg op) ctx m (.cut m')) :
      FlashqStep cfg W (.on ctx m) (.callCut op) (.off m')
  | stop {ctx : FlashqCtx} {m : Memory} : FlashqStep cfg W (.on ctx m) .stopped (.off m)
  | boot {ctx' : FlashqCtx} {m m' : Memory} {g : Fin 2}
      (run : Runs cfg.device (W.boots g) (opRecover cfg) (FlashqCtx.fresh cfg) m (.ok () ctx' m')) :
      FlashqStep cfg W (.off m) .booted (.on ctx' m')
  | bootFail {ctx' : FlashqCtx} {m m' : Memory} {g : Fin 2} {err : EspErr}
      (run : Runs cfg.device (W.boots g) (opRecover cfg) (FlashqCtx.fresh cfg) m
        (.error err ctx' m')) :
      FlashqStep cfg W (.off m) (.bootFailed err) (.off m')
  | bootCut {m m' : Memory} {g : Fin 2}
      (run : Runs cfg.device (W.boots g) (opRecover cfg) (FlashqCtx.fresh cfg) m (.cut m')) :
      FlashqStep cfg W (.off m) .bootCut (.off m')

/-- Many steps; the labels are in order. -/
inductive FlashqRun (cfg : FlashqConfig) (W : FlashqWorld) (s : FlashqSystem) :
    List FlashqStepLabel → FlashqSystem → Prop where
  | nil : FlashqRun cfg W s [] s
  | snoc {labels : List FlashqStepLabel} {s' s'' : FlashqSystem} {label : FlashqStepLabel}
      (run : FlashqRun cfg W s labels s') (step : FlashqStep cfg W s' label s'') :
      FlashqRun cfg W s (labels ++ [label]) s''

/-- The last step of a run. -/
theorem FlashqRun.last {cfg : FlashqConfig} {W : FlashqWorld} {s s'' : FlashqSystem}
    {labels : List FlashqStepLabel} {label : FlashqStepLabel}
    (run : FlashqRun cfg W s (labels ++ [label]) s'') :
    ∃ s', FlashqRun cfg W s labels s' ∧ FlashqStep cfg W s' label s'' := by
  generalize hl : labels ++ [label] = all at run
  cases run with
  | nil => simp at hl
  | snoc run step =>
    obtain ⟨rfl, hlast⟩ := List.append_inj' hl rfl
    cases hlast
    exact ⟨_, run, step⟩

theorem FlashqRun.eq_of_nil {cfg : FlashqConfig} {W : FlashqWorld} {s s' : FlashqSystem}
    (run : FlashqRun cfg W s [] s') : s' = s := by
  generalize hl : ([] : List FlashqStepLabel) = all at run
  cases run with
  | nil => rfl
  | snoc run step => simp at hl

/-- A run whose steps all meet a condition on the system before the step. -/
inductive GuardedRun (cfg : FlashqConfig) (W : FlashqWorld)
    (guard : FlashqSystem → FlashqStepLabel → Prop) (s : FlashqSystem) :
    List FlashqStepLabel → FlashqSystem → Prop where
  | nil : GuardedRun cfg W guard s [] s
  | snoc {labels : List FlashqStepLabel} {s' s'' : FlashqSystem} {label : FlashqStepLabel}
      (run : GuardedRun cfg W guard s labels s') (step : FlashqStep cfg W s' label s'')
      (meets : guard s' label) : GuardedRun cfg W guard s (labels ++ [label]) s''

/-- A guarded run is a run. -/
theorem GuardedRun.unguarded {cfg : FlashqConfig} {W : FlashqWorld}
    {guard : FlashqSystem → FlashqStepLabel → Prop} {s s' : FlashqSystem}
    {labels : List FlashqStepLabel} (run : GuardedRun cfg W guard s labels s') :
    FlashqRun cfg W s labels s' := by
  induction run with
  | nil => exact .nil
  | snoc _ step _ ih => exact ih.snoc step

/-- Two runs, one after the other. -/
theorem FlashqRun.append {cfg : FlashqConfig} {W : FlashqWorld} {s s' s'' : FlashqSystem}
    {labels labels' : List FlashqStepLabel} (run : FlashqRun cfg W s labels s')
    (run' : FlashqRun cfg W s' labels' s'') : FlashqRun cfg W s (labels ++ labels') s'' := by
  induction run' with
  | nil => rwa [List.append_nil]
  | snoc _ step ih =>
    rw [← List.append_assoc]
    exact ih.snoc step

/-- A run in two parts. -/
theorem FlashqRun.split {cfg : FlashqConfig} {W : FlashqWorld} {s s'' : FlashqSystem}
    {labels labels' : List FlashqStepLabel} (run : FlashqRun cfg W s (labels ++ labels') s'') :
    ∃ s', FlashqRun cfg W s labels s' ∧ FlashqRun cfg W s' labels' s'' := by
  induction labels' using List.reverseRecOn generalizing s'' with
  | nil => exact ⟨s'', by rwa [List.append_nil] at run, .nil⟩
  | append_singleton labels' last ih =>
    rw [← List.append_assoc] at run
    obtain ⟨s1, run, step⟩ := run.last
    obtain ⟨s', first, rest⟩ := ih run
    exact ⟨s', first, rest.snoc step⟩

/-- The first step of a run. -/
theorem FlashqRun.first {cfg : FlashqConfig} {W : FlashqWorld} {s s'' : FlashqSystem}
    {labels : List FlashqStepLabel} {label : FlashqStepLabel}
    (run : FlashqRun cfg W s (label :: labels) s'') :
    ∃ s', FlashqStep cfg W s label s' ∧ FlashqRun cfg W s' labels s'' := by
  induction labels using List.reverseRecOn generalizing s'' with
  | nil =>
    have hrun : FlashqRun cfg W s ([] ++ [label]) s'' := run
    obtain ⟨s', run, step⟩ := hrun.last
    obtain rfl := run.eq_of_nil
    exact ⟨s'', step, .nil⟩
  | append_singleton labels last ih =>
    rw [← List.cons_append] at run
    obtain ⟨s', run, step⟩ := run.last
    obtain ⟨s1, first, rest⟩ := ih run
    exact ⟨s1, first, rest.snoc step⟩

/-- Fully erased flash. -/
def erasedFlash : Memory := fun _ => 0xFF

/-- The call of a step, whether or not it returned. -/
def FlashqStepLabel.op? : FlashqStepLabel → Option StorageOp
  | call op _ => some op
  | callCut op => some op
  | _ => none

/-- The calls of a run, in order. -/
def callsOf (labels : List FlashqStepLabel) : List StorageOp := labels.filterMap (·.op?)

/-- The id of the message a step may have stored.  One that was refused for want of room
was not, and may be offered again. -/
def FlashqStepLabel.publishedId? : FlashqStepLabel → Option UInt64
  | call (.enqueue _) (.error .queueFull) => none
  | label => label.op?.bind (·.enqueueId?)

/-- The ids of the messages that were published. -/
def publishedIds (labels : List FlashqStepLabel) : List UInt64 := labels.filterMap (·.publishedId?)

/-- Every message is within the configured size. -/
def AllFit (cfg : FlashqConfig) (labels : List FlashqStepLabel) : Prop :=
  ∀ op ∈ callsOf labels, op.Fits cfg.maxMessageSize

instance (cfg : FlashqConfig) (labels : List FlashqStepLabel) : Decidable (AllFit cfg labels) :=
  inferInstanceAs (Decidable (∀ op ∈ callsOf labels, op.Fits cfg.maxMessageSize))

section Labels

variable {cfg : FlashqConfig} {labels : List FlashqStepLabel} {label : FlashqStepLabel}
  {op : StorageOp}

theorem callsOf_snoc (labels : List FlashqStepLabel) (label : FlashqStepLabel) :
    callsOf (labels ++ [label]) = callsOf labels ++ label.op?.toList := by
  simp [callsOf, List.filterMap_append, List.filterMap_cons]
  cases label.op? <;> rfl

theorem publishedIds_snoc (labels : List FlashqStepLabel) (label : FlashqStepLabel) :
    publishedIds (labels ++ [label]) = publishedIds labels ++ label.publishedId?.toList := by
  rw [publishedIds, List.filterMap_append, ← publishedIds]
  cases h : label.publishedId? <;> simp [h]

/-- A call that returned `ESP_OK` may have stored what it was given. -/
theorem publishedId?_ok (op : StorageOp) (reply : StorageReply) :
    (FlashqStepLabel.call op (.ok reply)).publishedId? = op.enqueueId? := by
  cases op <;> rfl

/-- No message comes from a step that does not offer one. -/
theorem publishedId?_none (h : label.op?.bind (·.enqueueId?) = none) :
    label.publishedId? = none := by
  unfold FlashqStepLabel.publishedId?
  split
  · rfl
  · exact h

theorem callsOf_append (labels labels' : List FlashqStepLabel) :
    callsOf (labels ++ labels') = callsOf labels ++ callsOf labels' := List.filterMap_append

theorem AllFit.left {labels labels' : List FlashqStepLabel} (h : AllFit cfg (labels ++ labels')) :
    AllFit cfg labels := by
  intro op hop
  refine h op ?_
  rw [callsOf_append]
  exact List.mem_append_left _ hop

theorem AllFit.init (h : AllFit cfg (labels ++ [label])) : AllFit cfg labels := by
  intro op hop
  refine h op ?_
  rw [callsOf_snoc]
  exact List.mem_append_left _ hop

theorem AllFit.last (h : AllFit cfg (labels ++ [label])) (hop : label.op? = some op) :
    op.Fits cfg.maxMessageSize := by
  refine h op ?_
  rw [callsOf_snoc, hop]
  exact List.mem_append_right _ (List.mem_singleton.mpr rfl)

theorem unique_init (h : (publishedIds (labels ++ [label])).Nodup) :
    (publishedIds labels).Nodup := by
  rw [publishedIds_snoc] at h
  exact h.of_append_left

/-- A new message has an id that was not published before. -/
theorem fresh_of_unique {id : UInt64} (h : (publishedIds (labels ++ [label])).Nodup)
    (hid : label.publishedId? = some id) : id ∉ publishedIds labels := by
  rw [publishedIds_snoc, hid] at h
  exact fun hm => List.disjoint_of_nodup_append h hm (List.mem_singleton.mpr rfl)

theorem mem_published_init {id : UInt64} (h : id ∈ publishedIds labels)
    (label : FlashqStepLabel) : id ∈ publishedIds (labels ++ [label]) := by
  rw [publishedIds_snoc]
  exact List.mem_append_left _ h

theorem mem_published_last {id : UInt64} (hid : label.publishedId? = some id) :
    id ∈ publishedIds (labels ++ [label]) := by
  rw [publishedIds_snoc, hid]
  exact List.mem_append_right _ (List.mem_singleton.mpr rfl)

/-- The ids of the queue are unique, and were published. -/
structure KnownIds (labels : List FlashqStepLabel) (q : List StoredMessage) : Prop where
  nodup : (messageIds q).Nodup
  published : ∀ id ∈ messageIds q, id ∈ publishedIds labels

/-- A call keeps the ids known. -/
theorem KnownIds.call {q q' : List StoredMessage} {res : Except EspErr StorageReply}
    (h : KnownIds labels q) (hu : (publishedIds (labels ++ [.call op res])).Nodup)
    (step : QueueStep q op res q') : KnownIds (labels ++ [.call op res]) q' where
  nodup := by
    cases res with
    | error err => rw [step.ids_of_error]; exact h.nodup
    | ok reply =>
      refine step.nodup h.nodup fun id hid hm => ?_
      rw [← publishedId?_ok op reply] at hid
      exact fresh_of_unique hu hid (h.published _ hm)
  published id hid := by
    cases res with
    | error err =>
      rw [step.ids_of_error] at hid
      exact mem_published_init (h.published id hid) _
    | ok reply =>
      rcases step.mem_ids hid with hid | hid
      · exact mem_published_init (h.published id hid) _
      · rw [← publishedId?_ok op reply] at hid
        exact mem_published_last hid

end Labels

/-! ## Calls and boots, from the specifications -/

section Steps

variable {cfg : FlashqConfig} {R : Regime cfg} {ctx ctx' : FlashqCtx} {m m' : Memory}
  {recs : List (Nat × RecordHdr)} {op : StorageOp} {Q : List StoredMessage → Prop}

theorem updateQueues_true {v : Memory} {index : List FlashqIndexEntry} {id : UInt64}
    {p : Progress} : UpdateQueues cfg (fun _ => True) v recs index id p :=
  ⟨trivial, trivial, trivial, trivial⟩

theorem callQueues_true {v : Memory} {c : Core} : CallQueues R (fun _ => True) v recs c op := by
  cases op with
  | enqueue message => exact ⟨trivial, trivial, fun _ _ => trivial, fun _ _ => trivial⟩
  | claimNext nowUs => exact fun _ _ _ _ => updateQueues_true
  | markDelivered id => exact fun _ _ _ _ => updateQueues_true
  | remove id => exact fun _ _ _ _ => updateQueues_true
  | scheduleRetry id nextRetryTimeUs deadLetter lastError => exact fun _ _ _ _ => updateQueues_true
  | findDropCandidate policy => trivial
  | getStats stats => trivial

/-- A call that returned `ESP_OK`. -/
theorem call_returned {reply : StorageReply} (hquiet : ¬ R.mayFail) (b : Base R ctx.core m recs)
    (hfits : op.Fits cfg.maxMessageSize)
    (run : Runs cfg.device R.env (flashqCall cfg op) ctx m (.ok reply ctx' m')) :
    ∃ recs', Effect R ctx.core m recs op (.ok reply) ctx'.core m' recs' :=
  wp_sound (P := ⟨fun reply (ctx' : FlashqCtx) m' => ∃ recs',
      Effect R ctx.core m recs op (.ok reply) ctx'.core m' recs', fun _ _ _ => True,
      fun _ => True⟩) run
    (wp_flashqCall hquiet b hfits callQueues_true (fun _ _ _ recs' ef => ⟨recs', ef⟩)
      (fun _ _ _ _ _ => trivial) fun _ _ => trivial)

/-- A call that returned an error. -/
theorem call_failed {err : EspErr} (hquiet : ¬ R.mayFail) (b : Base R ctx.core m recs)
    (hfits : op.Fits cfg.maxMessageSize)
    (run : Runs cfg.device R.env (flashqCall cfg op) ctx m (.error err ctx' m')) :
    ∃ recs', Effect R ctx.core m recs op (.error err) ctx'.core m' recs' :=
  wp_sound (P := ⟨fun _ _ _ => True, fun err (ctx' : FlashqCtx) m' => ∃ recs',
      Effect R ctx.core m recs op (.error err) ctx'.core m' recs', fun _ => True⟩) run
    (wp_flashqCall hquiet b hfits callQueues_true (fun _ _ _ _ _ => trivial)
      (fun _ _ _ recs' ef => ⟨recs', ef⟩) fun _ _ => trivial)

/-- A call that was cut. -/
theorem call_cut (hquiet : ¬ R.mayFail) (b : Base R ctx.core m recs)
    (hfits : op.Fits cfg.maxMessageSize)
    (hQ : CallQueues R Q (view cfg m ctx.activeRegion) recs ctx.core op)
    (run : Runs cfg.device R.env (flashqCall cfg op) ctx m (.cut m')) : Image R m' Q :=
  wp_sound (P := ⟨fun _ _ _ => True, fun _ _ _ => True, fun m' => Image R m' Q⟩) run
    (wp_flashqCall hquiet b hfits hQ (fun _ _ _ _ _ => trivial) (fun _ _ _ _ _ => trivial)
      fun _ h => h)

theorem messageIds_contents (v : Memory) (index : List FlashqIndexEntry) :
    messageIds (contents v index) = index.map (·.id) := by
  rw [messageIds, contents, List.map_map]
  rfl

theorem messageIds_queue (c : Core) (m : Memory) :
    messageIds (c.queue cfg m) = c.index.map (·.id) := messageIds_contents _ _

variable {Q0 : List StoredMessage → Prop} {J : Core → Memory → List (Nat × RecordHdr) → Prop}

/-- How `op_recover` can end. -/
inductive Booted (R : Regime cfg) (J : Core → Memory → List (Nat × RecordHdr) → Prop)
    (Q0 : List StoredMessage → Prop) (m : Memory) (c' : Core) (m' : Memory) : Prop where
  /-- the partition was initialized -/
  | fresh (none : ∀ r, ¬ IsActive (view cfg m r)) {claimScratch : Bytes}
      (core_eq : c' = Core.initialized claimScratch) (base : Base R c' m' [])
  /-- a log was replayed -/
  | replayed {c0 : Core} {m0 : Memory} {recs0 recs' : List (Nat × RecordHdr)}
      (opened : Opened R m c0 m0 recs0) (durable : Q0 (c0.queue cfg m0)) (base : Base R c' m' recs')
      (inv : J c' m' recs')
      (metas : c'.index.map (·.toEntryMeta) = (c0.index.map (·.toEntryMeta)).map EntryMeta.settle)

theorem wp_boot {P : Post FlashqCtx Memory EspErr Unit} (img : Image R m Q0)
    (inv : RequeueInvariant R J Q) (hQ : ∀ q, Q0 q → Q q)
    (hJ : ∀ c0 m0 recs0, Opened R m c0 m0 recs0 → Q0 (c0.queue cfg m0) → J c0 m0 recs0)
    (hok : ∀ (ctx' : FlashqCtx) m', Booted R J Q0 m ctx'.core m' → P.ok () ctx' m')
    (herr : ∀ err ctx' m', Image R m' Q → P.error err ctx' m')
    (hcut : ∀ m', Image R m' Q → P.cut m') :
    wp cfg.device R.env (opRecover cfg) P ctx m :=
  wp_opRecover img inv hQ hJ (fun hnone ctx' m' hc b => hok ctx' m' (.fresh hnone hc b))
    (fun _ _ _ ctx' m' _ ho hq b hJ hm => hok ctx' m' (.replayed ho hq b hJ hm))
    (fun _ _ _ _ _ _ _ ctx' m' hi _ => herr _ ctx' m' hi) (fun _ ctx' m' hi => herr _ ctx' m' hi)
    (fun _ err ctx' m' hi => herr err ctx' m' hi) hcut

/-- The invariant that says nothing. -/
theorem requeueInvariant_true : RequeueInvariant R (fun _ _ _ => True) fun _ => True where
  log _ _ := trivial
  queues _ _ _ _ := updateQueues_true
  step _ _ _ _ _ _ := trivial

/-- Every end of `op_recover` leaves a good partition. -/
theorem boot_meets {o : Outcome FlashqCtx Memory EspErr Unit} (img : Image R m Q0)
    (inv : RequeueInvariant R J Q) (hQ : ∀ q, Q0 q → Q q)
    (hJ : ∀ c0 m0 recs0, Opened R m c0 m0 recs0 → Q0 (c0.queue cfg m0) → J c0 m0 recs0)
    (run : Runs cfg.device R.env (opRecover cfg) ctx m o) :
    o.Meets ⟨fun _ ctx' m' => Booted R J Q0 m ctx'.core m', fun _ _ m' => Image R m' Q,
      fun m' => Image R m' Q⟩ :=
  wp_sound run (wp_boot img inv hQ hJ (fun _ _ h => h) (fun _ _ _ h => h) fun _ h => h)

theorem erased_not_active (r : Fin 2) : ¬ IsActive (view cfg erasedFlash r) :=
  @not_isActive_of_erased cfg _ fun _ _ _ => rfl

/-- An erased partition holds no queue. -/
theorem image_erased {Q : List StoredMessage → Prop} (hQ : Q []) : Image R erasedFlash Q :=
  Image.of_none erased_not_active
    (fun _ hv => hv.1 (@blank_of_erased cfg _ fun _ _ _ => rfl)) hQ

/-- The first boot initializes the partition. -/
theorem boot_erased (run : Runs cfg.device R.env (opRecover cfg) ctx erasedFlash (.ok () ctx' m')) :
    ctx'.core = Core.initialized ctx.claimScratch ∧ Base R ctx'.core m' [] :=
  wp_sound (P := ⟨fun _ (ctx' : FlashqCtx) m' => ctx'.core = Core.initialized ctx.claimScratch ∧
      Base R ctx'.core m' [], fun _ _ _ => True, fun _ => True⟩) run
    (wp_opRecover (image_erased (Q := fun _ => True) trivial) requeueInvariant_true (fun _ h => h)
      (fun _ _ _ _ _ => trivial) (fun _ _ _ hc b => ⟨hc, b⟩)
      (fun _ _ _ _ _ _ ho _ _ _ _ => absurd ho.chosen.active (erased_not_active _))
      (fun _ _ _ _ _ _ _ _ _ _ _ => trivial) (fun _ _ _ _ => trivial) (fun _ _ _ _ _ => trivial)
      fun _ _ => trivial)

end Steps

end EdgeSync
