/-
  Stack/Deadlines.lean --- a retry is not made before its time.

  The time of a retry outlives the power, the clock does not.  As long as no claim is made
  at that time or later, on the clock of its own boot, the message is not handed out.
-/
import EdgeSync.Selected
import EdgeSync.Stack.Duplicates

set_option autoImplicit false

namespace EdgeSync

open Foundation

/-- The time at which a step claims. -/
def StackLabel.claimTime? : StackLabel → Option Int64
  | .task (.claim nowUs _) => some nowUs
  | .callCut (.claimNext nowUs) => some nowUs
  | _ => none

/-- Every claim was made before the time. -/
def ClaimsBefore (nextRetryTimeUs : Int64) (labels : List StackLabel) : Prop :=
  ∀ label ∈ labels, ∀ nowUs, label.claimTime? = some nowUs → nowUs < nextRetryTimeUs

/-- The message waits for its retry, or it made room for another one. -/
def Life.Waits (nextRetryTimeUs : Int64) : Life → Prop
  | .new => False
  | .queued e => e.state = FlashqState.pending.code ∧ e.nextRetryAtUs = nextRetryTimeUs
  | .gone => True

/-- The same of a journey; without power it is what a restart will find. -/
def Journey.Waits (nextRetryTimeUs : Int64) : Journey → Prop
  | .off l => (l.map EntryMeta.settle).Waits nextRetryTimeUs
  | .on l _ => l.Waits nextRetryTimeUs

section Waits

variable {cfg : StackConfig} {id : UInt64} {labels : List StackLabel} {label : StackLabel}
  {l l1 l' : Life} {w w' : WorkerPhase} {j j' : Journey} {op : StorageOp}
  {res : Except EspErr StorageReply} {nextRetryTimeUs nowUs : Int64}

theorem Life.Waits.not_shown (waits : l.Waits nextRetryTimeUs) (msg : ClaimedMessage) :
    ¬ msg.ShownBy l := by
  rintro ⟨e, rfl, hflying, -⟩
  rw [waits.1] at hflying
  exact absurd hflying (by decide)

theorem Life.Waits.settle (waits : l.Waits nextRetryTimeUs) :
    (l.map EntryMeta.settle).Waits nextRetryTimeUs := by
  cases l with
  | new => exact waits
  | gone => exact waits
  | queued e =>
    have hsettle : e.settle = e := EntryMeta.settle_of_ne (by rw [waits.1]; decide)
    show e.settle.state = _ ∧ e.settle.nextRetryAtUs = _
    rw [hsettle]
    exact waits

/-- What is kept, a restart makes the same. -/
theorem kept_waits (kept : (messageObject id).kept l l')
    (waits : (l.map EntryMeta.settle).Waits nextRetryTimeUs) :
    (l'.map EntryMeta.settle).Waits nextRetryTimeUs := by
  have hkept : l'.map EntryMeta.durable = l.map EntryMeta.durable := kept
  cases l with
  | new => exact waits.elim
  | gone =>
    rw [(kept_gone kept).mpr rfl]
    exact waits
  | queued e =>
    cases l' with
    | new => cases hkept
    | gone => cases hkept
    | queued e' =>
      have hdurable : e'.durable = e.durable := Life.queued.inj hkept
      have hstate : e'.durable.state = e.durable.state := congrArg EntryMeta.state hdurable
      have hnext : e'.durable.nextRetryAtUs = e.durable.nextRetryAtUs :=
        congrArg EntryMeta.nextRetryAtUs hdurable
      exact ⟨hstate.trans waits.1, hnext.trans waits.2⟩

/-- A claim before the time takes another message. -/
theorem MessageStep.waits_claim (step : MessageStep id l (.claimNext nowUs) res l')
    (hbefore : nowUs < nextRetryTimeUs) (waits : l.Waits nextRetryTimeUs) :
    l' = l ∧ (StorageOp.claimNext nowUs).subject? res ≠ some id := by
  have hnot : ∀ {e : EntryMeta}, (Life.queued e).Waits nextRetryTimeUs →
      e.eligible nowUs ≠ true := by
    intro e waits heligible
    have hready := (EntryMeta.eligible_iff.mp heligible).2
    rw [waits.2] at hready
    exact absurd hbefore (Int64.not_lt.mpr hready)
  cases step with
  | aside other => exact ⟨rfl, other⟩
  | claimed eligible shows => exact absurd eligible (hnot waits)
  | corrupt eligible => exact absurd eligible (hnot waits)
  | marked eligible => exact absurd eligible (hnot waits)
  | retired retires => cases retires

theorem PublishLife.waits {message : EdgesyncMessage} {removed : List UInt64}
    (life : PublishLife id message removed l l') (waits : l.Waits nextRetryTimeUs) :
    l'.Waits nextRetryTimeUs := by
  cases life with
  | aside => exact waits
  | accepted same => exact waits.elim
  | dropped pending removed => trivial

/-- The worker settles what is in flight. -/
theorem MessageStep.waits_settle {events : Events} (step : MessageStep id l op res l')
    (held : Held cfg id labels l w) (hw : w = .settling op events)
    (waits : l.Waits nextRetryTimeUs) : l'.Waits nextRetryTimeUs := by
  obtain ⟨msg, result, nowUs, randomU32, -, hop, hshown⟩ := held.settling op events hw
  have hsettles := handled_settles cfg.retry msg nowUs randomU32 result
  rw [← hop] at hsettles
  cases step with
  | aside other => exact waits
  | accepted same => cases hsettles
  | claimed eligible shows => cases hsettles
  | corrupt eligible => cases hsettles
  | marked eligible => cases hsettles
  | candidate pending => cases hsettles
  | retired retires => trivial
  | retried => exact absurd (hshown (Option.some.inj hsettles).symm) (waits.not_shown msg)
  | staged => exact absurd (hshown (Option.some.inj hsettles).symm) (waits.not_shown msg)

theorem Life.Waits.step (held : j.Held cfg id labels) (waits : j.Waits nextRetryTimeUs)
    (hbefore : ∀ nowUs, label.claimTime? = some nowUs → nowUs < nextRetryTimeUs)
    (step : JourneyStep cfg id j label j') :
    j'.Waits nextRetryTimeUs ∧ ∀ msg, label.hands? = some msg → msg.id ≠ id := by
  cases step with
  | publish life accepted removed => exact ⟨life.waits waits, fun _ h => by cases h⟩
  | @idle l w w' label idle next =>
    exact ⟨waits, fun msg h => by rw [hands?_of_idle idle] at h; cases h⟩
  | claim step =>
    obtain ⟨rfl, -⟩ := step.waits_claim (hbefore _ rfl) waits
    exact ⟨waits, fun _ h => by cases h⟩
  | @deliver l msg result nowUs randomU32 events =>
    refine ⟨waits, fun msg' h hid => ?_⟩
    cases h
    exact Life.Waits.not_shown waits msg (Held.delivering held msg rfl hid)
  | settle step => exact ⟨step.waits_settle held rfl waits, fun _ h => by cases h⟩
  | publishCut life removed kept =>
    exact ⟨kept_waits kept (life.waits waits).settle, fun _ h => by cases h⟩
  | @callCut l l1 l' w op calling step kept =>
    refine ⟨kept_waits kept (Life.Waits.settle (?_ : l1.Waits _)), fun _ h => by cases h⟩
    rcases step with rfl | ⟨res, step⟩
    · exact waits
    · cases calling with
      | claim ready =>
        obtain ⟨rfl, -⟩ := step.waits_claim (hbefore _ rfl) waits
        exact waits
      | settle settles => exact step.waits_settle held settles waits
      | stats =>
        rw [step.stats]
        exact waits
  | stopped kept => exact ⟨kept_waits kept (Life.Waits.settle waits), fun _ h => by cases h⟩
  | booted => exact ⟨waits, fun _ h => by cases h⟩
  | bootFailed kept => exact ⟨kept_waits kept waits, fun _ h => by cases h⟩
  | bootCut kept => exact ⟨kept_waits kept waits, fun _ h => by cases h⟩

/-- A retry that was recorded. -/
theorem JourneyStep.retried {lastError : Int32} {reply : StorageReply}
    (step : JourneyStep cfg id j
      (.task (.settle (.scheduleRetry id nextRetryTimeUs false lastError) (.ok reply))) j') :
    j'.Waits nextRetryTimeUs := by
  cases step with
  | idle idle next => cases idle
  | settle step =>
    cases step with
    | aside other => exact absurd rfl other
    | retired retires => trivial
    | retried => exact ⟨rfl, rfl⟩

/-- Until a claim is made at the time of the retry, the message is not handed out. -/
theorem journey_waits {before after : List StackLabel} {lastError : Int32} {reply : StorageReply}
    (run : StepRun (JourneyStep cfg id) (.off .new) (before ++
      .task (.settle (.scheduleRetry id nextRetryTimeUs false lastError) (.ok reply)) :: after) j)
    (hbefore : ClaimsBefore nextRetryTimeUs after) : ∀ msg ∈ handedMessages after, msg.id ≠ id :=
  journey_kept_away (fun j => j.Waits nextRetryTimeUs)
    (fun label => ∀ nowUs, label.claimTime? = some nowUs → nowUs < nextRetryTimeUs) run
    (fun _ _ step => step.retried)
    (fun _ _ _ _ held waits hok step => Life.Waits.step held waits hok step) hbefore

end Waits

/-- Once a retry is recorded, the message is not handed to the transport as long as no claim is
made at the time of the retry or later, whatever happens to the power. -/
theorem retry_time_kept (cfg : StackConfig) :
    (∀ (fcfg : FlashqConfig) (before after : List StackLabel) (t : Tasks (flashqBackend fcfg))
        (id : UInt64) (nextRetryTimeUs : Int64) (lastError : Int32) (reply : StorageReply),
      DurableRun (flashqDurable fcfg) cfg (before ++
        .task (.settle (.scheduleRetry id nextRetryTimeUs false lastError) (.ok reply)) :: after) t →
      ClaimsBefore nextRetryTimeUs after → ∀ msg ∈ handedMessages after, msg.id ≠ id) ∧
    ∀ (usage : BlobStore → UInt32 × UInt32) (ncfg : NvsConfig)
        (hmax : ncfg.maxMessages.toNat ≤ 100000) (before after : List StackLabel)
        (t : Tasks (nvsBackend usage ncfg)) (id : UInt64) (nextRetryTimeUs : Int64)
        (lastError : Int32) (reply : StorageReply),
      DurableRun (nvsDurable ncfg usage hmax) cfg (before ++
        .task (.settle (.scheduleRetry id nextRetryTimeUs false lastError) (.ok reply)) :: after) t →
      ClaimsBefore nextRetryTimeUs after → ∀ msg ∈ handedMessages after, msg.id ≠ id := by
  have hkept : ∀ {D : DurableBackend} {before after : List StackLabel} {t : Tasks D.B}
      {id : UInt64} {nextRetryTimeUs : Int64} {lastError : Int32} {reply : StorageReply},
      DurableRun D cfg (before ++ .task (.settle (.scheduleRetry id nextRetryTimeUs false lastError)
        (.ok reply)) :: after) t →
      ClaimsBefore nextRetryTimeUs after → ∀ msg ∈ handedMessages after, msg.id ≠ id := by
    intro D before after t id nextRetryTimeUs lastError reply h hbefore
    obtain ⟨l, jrun, -⟩ := h.journey id
    exact journey_waits jrun hbefore
  exact ⟨fun _ _ _ _ _ _ _ _ h hbefore => hkept h hbefore,
    fun _ _ _ _ _ _ _ _ _ _ h hbefore => hkept h hbefore⟩

/-- A delivery fails, and after a restart another message is delivered at an early time. -/
def earlyScript : StackScript (nvsBackend noUsage slotConfig) :=
  [(.boot, []), (.task (.publish 0 slotMessage), []), (.task (.claim 10), []),
    (.task (.deliver .retryableFailure 20 0), []), (.task .settle, []), (.stop, []), (.boot, []),
    (.task (.publish 0 nextMessage), []), (.task (.claim 30), []),
    (.task (.deliver .success 40 0), [])]

/-- The step that records the retry. -/
def retryLabel : StackLabel :=
  .task (.settle (.scheduleRetry 7 100020 false EspErr.transport.code) (.ok .done))

theorem retry_time_kept_restarted :
    ∃ before after t, DurableRun slotDurable rejectingStack (before ++ retryLabel :: after) t ∧
      ClaimsBefore 100020 after ∧ (handedMessages after).map (·.id) = [nextMessage.id] ∧
      ∀ msg ∈ handedMessages after, msg.id ≠ slotMessage.id := by
  have hcheck : (StackSystem.play rejectingStack (.off emptyStore) earlyScript []).any
      (slotShows fun labels _ => decide (labels.take 4 ++ retryLabel :: labels.drop 5 = labels ∧
        (handedMessages (labels.drop 5)).map (·.id) = [nextMessage.id] ∧
        (labels.drop 5).filterMap (·.claimTime?) = [30])) = true := by
    decide +kernel
  obtain ⟨labels, t, run, htest⟩ := slotRun (by decide) hcheck
  obtain ⟨hlabels, hhanded, htimes⟩ := of_decide_eq_true htest
  have hbefore : ClaimsBefore 100020 (labels.drop 5) := by
    intro label hlabel nowUs htime
    have hmem : nowUs ∈ (labels.drop 5).filterMap (·.claimTime?) :=
      List.mem_filterMap.mpr ⟨label, hlabel, htime⟩
    rw [htimes] at hmem
    rw [List.mem_singleton.mp hmem]
    decide
  rw [← hlabels] at run
  exact ⟨labels.take 4, labels.drop 5, t, run, hbefore, hhanded, (retry_time_kept rejectingStack).2
    noUsage slotConfig slotConfig_max _ _ t _ _ _ _ run hbefore⟩

end EdgeSync
