/-
  Live.lean --- the messages that were accepted and are not done.

  What the callers saw tells which messages a backend owes them: those it accepted,
  without those it reported as delivered or removed.  The queue of either backend
  holds exactly these.
-/
import EdgeSync.Flashq.Tracked
import EdgeSync.Nvs.Invariant

set_option autoImplicit false

namespace EdgeSync

open Foundation

/-- What a step does to the messages that are owed. -/
def liveAfter (ids : List UInt64) : FlashqStepLabel → List UInt64
  | .call (.enqueue message) (.ok _) => ids ++ [message.id]
  | .call (.markDelivered id) (.ok _) => ids.erase id
  | .call (.remove id) (.ok _) => ids.erase id
  | _ => ids

/-- The messages that were accepted, and neither delivered nor removed. -/
def liveIds (labels : List FlashqStepLabel) : List UInt64 := labels.foldl liveAfter []

theorem liveIds_snoc (labels : List FlashqStepLabel) (label : FlashqStepLabel) :
    liveIds (labels ++ [label]) = liveAfter (liveIds labels) label := by
  rw [liveIds, List.foldl_append]
  rfl

theorem List.Perm.liveAfter {ids ids' : List UInt64} (h : ids.Perm ids') (label : FlashqStepLabel) :
    (liveAfter ids label).Perm (liveAfter ids' label) := by
  unfold EdgeSync.liveAfter
  split
  · exact h.append_right _
  · exact h.erase _
  · exact h.erase _
  · exact h

/-- A step that is no call changes nothing. -/
theorem liveAfter_of_op {ids : List UInt64} {label : FlashqStepLabel} (h : label.op? = none) :
    liveAfter ids label = ids := by
  cases label <;> first | rfl | exact absurd h (by simp [FlashqStepLabel.op?])

/-- With unique ids, what is owed is unique and was published. -/
theorem nodup_liveIds {labels : List FlashqStepLabel} (hu : (publishedIds labels).Nodup) :
    (liveIds labels).Nodup ∧ ∀ id ∈ liveIds labels, id ∈ publishedIds labels := by
  induction labels using List.reverseRecOn with
  | nil => exact ⟨List.nodup_nil, fun _ h => absurd h List.not_mem_nil⟩
  | append_singleton labels label ih =>
    obtain ⟨hnodup, hpub⟩ := ih (unique_init hu)
    rw [liveIds_snoc]
    unfold liveAfter
    split
    · rename_i message reply
      have hnew := fresh_of_unique hu rfl
      refine ⟨hnodup.append (List.nodup_singleton _) fun id hid hid' => hnew ?_, fun id hid => ?_⟩
      · rw [← List.mem_singleton.mp hid']
        exact hpub id hid
      · rcases List.mem_append.mp hid with hid | hid
        · exact mem_published_init (hpub id hid) _
        · rw [List.mem_singleton.mp hid]
          exact mem_published_last rfl
    · exact ⟨hnodup.erase _, fun id hid => mem_published_init (hpub id (List.mem_of_mem_erase hid)) _⟩
    · exact ⟨hnodup.erase _, fun id hid => mem_published_init (hpub id (List.mem_of_mem_erase hid)) _⟩
    · exact ⟨hnodup, fun id hid => mem_published_init (hpub id hid) _⟩

/-- A call that is refused changes nothing. -/
theorem liveAfter_error (ids : List UInt64) (op : StorageOp) (err : EspErr) :
    liveAfter ids (.call op (.error err)) = ids := by
  cases op <;> rfl

/-- The queue holds what is owed. -/
def LiveQueue (labels : List FlashqStepLabel) (q : List StoredMessage) : Prop :=
  (messageIds q).Perm (liveIds labels)

section Steps

variable {labels : List FlashqStepLabel} {q q' : List StoredMessage} {op : StorageOp}
  {res : Except EspErr StorageReply}

theorem erase_perm_messageIds {id : UInt64} {pos : Nat} (hpos : findMessage q id = some pos) :
    (messageIds (swapRemove q pos)).Perm ((messageIds q).erase id) := by
  obtain ⟨x, hx, hid⟩ := findPos_some hpos
  have hperm := (perm_swapRemove hx).map (·.id)
  have herase := hperm.erase id
  rw [List.map_cons, eq_of_beq hid, List.erase_cons_head] at herase
  exact herase.symm

/-- The message that is delivered or removed is no longer owed. -/
theorem Retires.liveAfter {id : UInt64} {newState : FlashqState} (h : Retires op id newState)
    (ids : List UInt64) : liveAfter ids (.call op (.ok .done)) = ids.erase id := by
  cases h <;> rfl

theorem LiveQueue.of_messageIds (h : LiveQueue labels q) (hids : messageIds q' = messageIds q) :
    LiveQueue labels q' := by
  rw [LiveQueue, hids]
  exact h

/-- A call of the flash queue. -/
theorem QueueStep.live (step : QueueStep q op res q') (h : LiveQueue labels q) :
    LiveQueue (labels ++ [.call op res]) q' := by
  rw [LiveQueue, liveIds_snoc]
  refine List.Perm.trans ?_ (List.Perm.liveAfter h _)
  cases step with
  | refused =>
    rw [liveAfter_error]
  | staged found =>
    rw [messageIds_modify]
    exact .refl _
  | candidate selected entry => exact .refl _
  | stats => exact .refl _
  | enqueued =>
    rw [messageIds, List.map_append]
    exact .refl _
  | claimed selected entry =>
    rw [messageIds_modify]
    exact .refl _
  | retired retires found =>
    rw [retires.liveAfter]
    exact erase_perm_messageIds found
  | retried found =>
    rw [messageIds_modify]
    exact .refl _

/-- A call of the NVS backend. -/
theorem SlotStep.live {cfg : NvsConfig} (step : SlotStep cfg q op res q') (h : LiveQueue labels q) :
    LiveQueue (labels ++ [.call op res]) q' := by
  rw [LiveQueue, liveIds_snoc]
  refine List.Perm.trans ?_ (List.Perm.liveAfter h _)
  cases step with
  | refused why =>
    rw [liveAfter_error]
  | candidate selected entry => exact .refl _
  | stats counted => exact .refl _
  | enqueued room encodes =>
    rw [messageIds, List.map_append]
    exact .refl _
  | claimed selected entry =>
    rw [messageIds_modify]
    exact .refl _
  | retired retires found =>
    rw [retires.liveAfter]
    exact erase_perm_messageIds found
  | retried found =>
    refine List.Perm.of_eq ?_
    exact map_modify_of_eq fun _ _ => rfl

/-- A step that is no call. -/
theorem LiveQueue.restart {label : FlashqStepLabel} (hop : label.op? = none)
    (h : LiveQueue labels q) : LiveQueue (labels ++ [label]) q := by
  rw [LiveQueue, liveIds_snoc, liveAfter_of_op hop]
  exact h

theorem liveQueue_keptByRequeue : KeptByRequeue LiveQueue labels :=
  fun _ h _ _ => h.of_messageIds (messageIds_modify _ _ _)

/-- The queue of the flash backend holds what is owed, in every run. -/
theorem queueInvariant_live : QueueInvariant LiveQueue where
  init := .refl _
  call _ h _ step := step.live h
  requeue := liveQueue_keptByRequeue
  restart hl h := by
    rcases hl with rfl | rfl
    · exact h.restart rfl
    · exact h.restart rfl

/-- An UPDATE that is not final changes no id. -/
theorem messageIds_progressTo {id : UInt64} {p : Progress} (hp : isFinal p.state = false) :
    messageIds (progressTo id p q) = messageIds q := by
  unfold progressTo
  split
  · rfl
  · rw [hp]
    exact messageIds_modify _ _ _

end Steps

/-! ## Runs of the flash queue -/

section Runs

variable {cfg : FlashqConfig} {labels : List FlashqStepLabel}

/-- What is known of a queue, if all that is known are its ids. -/
theorem TrackedOn.updateQueues {c : Core} {m : Memory} {recs : List (Nat × RecordHdr)}
    {Q : List StoredMessage → Prop} (h : TrackedOn cfg LiveQueue labels c m recs)
    (hQ : ∀ q, messageIds q = c.index.map (·.id) → Q q) {pos : Nat} {id : UInt64} {p : Progress}
    (hp : isFinal p.state = false) (nextRetryTimeUs : Int64) (deadLetter : Bool) (lastError : Int32) :
    UpdateQueues cfg Q (view cfg m c.region) recs
      (c.stagedAt pos nextRetryTimeUs deadLetter lastError).index id p := by
  have hlog : messageIds (contents (view cfg m c.region) (replay cfg recs).index) =
      c.index.map (·.id) := by
    rw [h.queue_eq, messageIds_queue]
  have hram : messageIds (contents (view cfg m c.region)
      (c.stagedAt pos nextRetryTimeUs deadLetter lastError).index) = c.index.map (·.id) := by
    rw [messageIds_contents, stagedAt_ids]
  refine ⟨hQ _ hlog, hQ _ hram, hQ _ ?_, hQ _ ?_⟩
  · rwa [messageIds_progressTo hp]
  · rwa [messageIds_progressTo hp]

/-- What is kept while the power is off. -/
def LiveKnown (labels : List FlashqStepLabel) (q : List StoredMessage) : Prop :=
  KnownIds labels q ∧ LiveQueue labels q

theorem LiveKnown.of_messageIds {q q' : List StoredMessage} (h : LiveKnown labels q)
    (hids : messageIds q' = messageIds q) : LiveKnown labels q' := by
  refine ⟨⟨?_, ?_⟩, h.2.of_messageIds hids⟩
  · rw [hids]
    exact h.1.nodup
  · rw [hids]
    exact h.1.published

/-- A restart that fails for want of space keeps the queue as well. -/
theorem Tracked.live_boot {m : Memory} (h : Tracked cfg LiveQueue labels (.off m)) :
    wp cfg.device calmEnv (opRecover cfg)
      ⟨fun _ ctx' m' => Tracked cfg LiveQueue labels (.on ctx' m'),
        fun _ _ m' => Tracked cfg LiveQueue labels (.off m'), fun _ => True⟩
      (FlashqCtx.fresh cfg) m := by
  have hrequeue : RequeueInvariant (quiet cfg) (TrackedOn cfg LiveQueue labels)
      (LiveKnown labels) := by
    have hknown : ∀ {c m recs}, TrackedOn cfg LiveQueue labels c m recs →
        ∀ q, messageIds q = c.index.map (·.id) → LiveKnown labels q := by
      intro c m recs htr q hq
      refine LiveKnown.of_messageIds ⟨htr.ids, htr.holds⟩ ?_
      rw [hq, messageIds_queue]
    refine ⟨fun htr _ => ?_, fun htr _ _ hin => ?_, fun htr _ he hin mv up => ?_⟩
    · rw [htr.queue_eq]
      exact ⟨htr.ids, htr.holds⟩
    · exact htr.updateQueues (hknown htr) (isFinal_requeued hin) _ _ _
    · exact htr.requeue liveQueue_keptByRequeue he hin mv up
  refine wp_opRecover (R := quiet cfg) (J := TrackedOn cfg LiveQueue labels) h hrequeue
    (fun _ hq => hq) ?_ ?_ ?_ (fun _ _ _ _ _ _ _ _ _ img _ => img) (fun hl => hl.elim)
    (fun hm => hm.elim) fun _ _ => trivial
  · intro c0 m0 recs0 ho hq
    exact ⟨ho.base, by rw [ho.replay_eq]; exact LensEq.refl _ _, hq.1, hq.2⟩
  · intro hnone ctx' m' hcore b
    obtain ⟨_, hids, hP⟩ := h.fresh hnone
    refine ⟨[], b, ?_, ?_, ?_⟩ <;> rw [hcore]
    · rfl
    · exact hids
    · exact hP
  · exact fun _ _ _ _ _ recs' _ _ _ hJ _ => ⟨recs', hJ⟩

theorem Tracked.live_restart {s : FlashqSystem} {label : FlashqStepLabel}
    (h : Tracked cfg LiveQueue labels s) (hop : label.op? = none) :
    Tracked cfg LiveQueue (labels ++ [label]) s := by
  cases s with
  | on ctx m =>
    obtain ⟨recs, htr⟩ := h
    exact ⟨recs, htr.base, htr.same, htr.ids.restart, htr.holds.restart hop⟩
  | off m => exact Image.mono h fun q hq => ⟨hq.1.restart, hq.2.restart hop⟩

theorem Tracked.live_step {s s' : FlashqSystem} {label : FlashqStepLabel}
    (h : Tracked cfg LiveQueue labels s) (step : FlashqStep cfg quietWorld s label s')
    (hu : (publishedIds (labels ++ [label])).Nodup)
    (hfit : ∀ op, label.op? = some op → op.Fits cfg.maxMessageSize) :
    Tracked cfg LiveQueue (labels ++ [label]) s' := by
  by_cases hfail : ∃ err, label = .bootFailed err
  · obtain ⟨err, rfl⟩ := hfail
    cases step with
    | bootFail run => exact Tracked.live_restart (wp_sound run h.live_boot) rfl
  · exact h.step queueInvariant_live step hu hfit fun err heq => hfail ⟨err, heq⟩

/-- The queue holds what is owed, whether or not restarts found space. -/
theorem Tracked.live_run {s s' : FlashqSystem} {labels' : List FlashqStepLabel}
    (h : Tracked cfg LiveQueue labels s) (run : FlashqRun cfg quietWorld s labels' s')
    (hu : (publishedIds (labels ++ labels')).Nodup) (hfit : AllFit cfg labels') :
    Tracked cfg LiveQueue (labels ++ labels') s' := by
  induction run with
  | nil => rwa [List.append_nil]
  | @snoc labels' s1 s2 label run step ih =>
    rw [← List.append_assoc] at hu ⊢
    exact (ih (unique_init hu) hfit.init).live_step step hu fun op hop => hfit.last hop

/-- From erased flash. -/
theorem tracked_live {s : FlashqSystem}
    (run : FlashqRun cfg quietWorld (.off erasedFlash) labels s) (hu : (publishedIds labels).Nodup)
    (hfit : AllFit cfg labels) : Tracked cfg LiveQueue labels s := by
  have h : Tracked cfg LiveQueue [] (.off erasedFlash) :=
    image_erased ⟨⟨List.nodup_nil, fun _ h => absurd h List.not_mem_nil⟩, .refl _⟩
  exact h.live_run run hu hfit

end Runs

end EdgeSync
