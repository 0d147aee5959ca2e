/-
  Api/Publish.lean --- configuring the stack and publishing (`edgesync.c`, `edgesync_id.c`).

  `edgesync_init` fills in the defaults of the configuration, and `edgesync_publish`
  checks what a caller passes before it makes a message of it.  What it lets through is
  what the storage backends rely on, so a run of the API is a run that loses nothing.
-/
import EdgeSync.Stack.Delivery

set_option autoImplicit false

namespace EdgeSync

open Foundation

/-! ## The configuration -/

/-- The errors of the API; `external` is what a call outside it reported. -/
inductive ApiErr where
  | invalidArg
  | noMem
  | notInitialized
  | alreadyStarted
  | invalidState
  | messageTooLarge
  | storage
  | transport
  | external
  deriving DecidableEq, Repr

/-- What the queue and the worker use of `edgesync_config_t`. -/
structure EdgesyncConfig where
  maxQueueSize : UInt32
  maxMessageSize : UInt32
  overflowPolicy : OverflowPolicy
  retryInitialMs : UInt32
  retryMaxMs : UInt32
  retryMultiplier : UInt32
  retryJitter : Bool
  retryMaxAttempts : UInt32

/-- `CONFIG_EDGESYNC_MAX_QUEUE_SIZE`. -/
def defaultMaxQueueSize : UInt32 := 256

/-- `CONFIG_EDGESYNC_MAX_MESSAGE_SIZE`. -/
def defaultMaxMessageSize : UInt32 := 2048

/-- `CONFIG_EDGESYNC_DEFAULT_RETRY_INITIAL_MS`. -/
def defaultRetryInitialMs : UInt32 := 1000

/-- `CONFIG_EDGESYNC_DEFAULT_RETRY_MAX_MS`. -/
def defaultRetryMaxMs : UInt32 := 300000

namespace EdgesyncConfig

variable (config : EdgesyncConfig)

/-- `max_queue_size` of `edgesync_init`. -/
def queueSize : UInt32 := if config.maxQueueSize = 0 then defaultMaxQueueSize else config.maxQueueSize

/-- `ctx->max_message_size`. -/
def messageSize : UInt32 :=
  if config.maxMessageSize = 0 then defaultMaxMessageSize else config.maxMessageSize

/-- `ctx->retry_cfg`. -/
def retryCfg : EdgesyncRetryConfig :=
  (⟨config.retryInitialMs, config.retryMaxMs, config.retryMultiplier, config.retryJitter,
    config.retryMaxAttempts⟩ : EdgesyncRetryConfig).applyDefaults defaultRetryInitialMs
      defaultRetryMaxMs 2

/-- What the queue and the worker are created with. -/
def stack : StackConfig := ⟨config.overflowPolicy, config.retryCfg⟩

end EdgesyncConfig

/-! ## Publishing -/

/-- `edgesync_id_generate`, from what `esp_fill_random` draws. -/
def edgesyncIdGenerate (draws : List UInt64) : Option UInt64 := draws.find? (· ≠ 0)

/-- `edgesync_publish_options_t`. -/
structure EdgesyncPublishOptions where
  messageId : UInt64
  priority : UInt8

/-- What a caller passes; nothing stands for `NULL`, and `data` points to `dataLen` bytes. -/
structure PublishArgs where
  destination : Option Bytes
  data : Option Bytes
  dataLen : Nat
  options : Option EdgesyncPublishOptions
  points : ∀ bytes ∈ data, bytes.length = dataLen

/-- `EDGESYNC_PRIORITY_NORMAL`. -/
def priorityNormal : UInt8 := 1

/-- The id of the message: the caller's, or a new one. -/
def PublishArgs.messageId (args : PublishArgs) (generated : UInt64) : UInt64 :=
  match args.options with
  | some options => if options.messageId = 0 then generated else options.messageId
  | none => generated

/-- `edgesync_publish`, up to the queue. -/
def edgesyncPublish (started : Bool) (maxMessageSize : UInt32) (args : PublishArgs)
    (generated : UInt64) (nowUs : Int64) : Except ApiErr EdgesyncMessage :=
  if started = false then .error .notInitialized
  else
    match args.destination with
    | none => .error .invalidArg
    | some destination =>
        if 0 < args.dataLen ∧ args.data = none then .error .invalidArg
        else if strlen destination = 0 ∨ maxDestinationLen < strlen destination ∨
            maxMessageSize.toNat < args.dataLen then .error .messageTooLarge
        else .ok
          { id := args.messageId generated
            destination := cString destination
            priority := (args.options.map (·.priority)).getD priorityNormal
            createdAtUs := nowUs
            payload := args.data.getD [] }

/-- The message is one that `edgesync_publish` makes. -/
def EdgesyncMessage.Checked (maxMessageSize : UInt32) (message : EdgesyncMessage) : Prop :=
  ∃ args generated nowUs,
    edgesyncPublish true maxMessageSize args generated nowUs = .ok message

section Checked

variable {maxMessageSize : UInt32} {message : EdgesyncMessage} {started : Bool}
  {args : PublishArgs} {generated : UInt64} {nowUs : Int64}

theorem PublishArgs.payload_le (args : PublishArgs) : (args.data.getD []).length ≤ args.dataLen := by
  cases hdata : args.data with
  | none => exact Nat.zero_le _
  | some bytes => exact Nat.le_of_eq (args.points bytes hdata)

/-- What is published is within the limits, and is what the caller passed. -/
theorem edgesyncPublish_ok
    (h : edgesyncPublish started maxMessageSize args generated nowUs = .ok message) :
    started = true ∧ (∃ destination, args.destination = some destination ∧
      message.destination = cString destination) ∧ strlen message.destination ≠ 0 ∧
      strlen message.destination ≤ maxDestinationLen ∧
      message.payload = args.data.getD [] ∧ args.dataLen ≤ maxMessageSize.toNat := by
  unfold edgesyncPublish at h
  split at h
  · cases h
  · rename_i hstarted
    split at h
    · cases h
    · rename_i destination hdestination
      split_ifs at h with hdata hlong
      rw [← Except.ok.inj h]
      have hself : strlen (cString destination) = strlen destination := by
        rw [strlen_eq_length_cString, cString_eq_self fun b hb => ne_zero_of_mem_cString hb,
          strlen_eq_length_cString]
      simp only [not_or, Nat.not_lt] at hlong
      refine ⟨by simpa using hstarted, ⟨destination, hdestination, rfl⟩, ?_, ?_, rfl, hlong.2.2⟩
      · show strlen (cString destination) ≠ 0
        rw [hself]
        exact hlong.1
      · show strlen (cString destination) ≤ maxDestinationLen
        rw [hself]
        exact hlong.2.1

/-- No message has the id 0, which stands for no id. -/
theorem edgesyncPublish_id_ne {draws : List UInt64}
    (hdraw : edgesyncIdGenerate draws = some generated)
    (h : edgesyncPublish started maxMessageSize args generated nowUs = .ok message) :
    message.id ≠ 0 := by
  have hgenerated : generated ≠ 0 := by
    have hfound := List.find?_some hdraw
    simpa using hfound
  have hid : args.messageId generated ≠ 0 := by
    unfold PublishArgs.messageId
    split
    · split
      · exact hgenerated
      · assumption
    · exact hgenerated
  unfold edgesyncPublish at h
  split at h
  · cases h
  · split at h
    · cases h
    · split_ifs at h
      cases h
      exact hid

theorem EdgesyncMessage.Checked.fits (h : message.Checked maxMessageSize) :
    message.payload.length ≤ maxMessageSize.toNat := by
  obtain ⟨args, generated, nowUs, hok⟩ := h
  obtain ⟨-, -, -, -, hpayload, hlen⟩ := edgesyncPublish_ok hok
  rw [hpayload]
  exact Nat.le_trans args.payload_le hlen

theorem EdgesyncMessage.Checked.counted (h : message.Checked maxMessageSize) :
    message.payloadLen.toNat = message.payload.length := by
  have hfits := h.fits
  have hmax := maxMessageSize.toNat_lt
  rw [EdgesyncMessage.payloadLen, UInt32.toNat_ofNat', Nat.mod_eq_of_lt (by omega)]

theorem EdgesyncMessage.Checked.destination_eq (h : message.Checked maxMessageSize) :
    cString message.destination = message.destination := by
  obtain ⟨args, generated, nowUs, hok⟩ := h
  obtain ⟨-, ⟨destination, -, hdestination⟩, -⟩ := edgesyncPublish_ok hok
  rw [hdestination]
  exact cString_eq_self fun b hb => ne_zero_of_mem_cString hb

end Checked

/-! ## Runs of the API -/

/-- The message of a publish. -/
def StackLabel.message? : StackLabel → Option EdgesyncMessage
  | .task (.publish _ message _ _) => some message
  | .publishCut message _ _ => some message
  | _ => none

/-- Every message was published through `edgesync_publish`. -/
def ApiPublished (maxMessageSize : UInt32) (labels : List StackLabel) : Prop :=
  ∀ label ∈ labels, ∀ message, label.message? = some message → message.Checked maxMessageSize

/-- The call enqueues a message that was checked, or none. -/
def StorageOp.Sound (maxMessageSize : UInt32) : StorageOp → Prop
  | .enqueue message => message.Checked maxMessageSize
  | _ => True

section Sound

variable {maxMessageSize : UInt32} {cfg : StackConfig} {labels : List StackLabel}
  {label : StackLabel} {w w' : Option WorkerPhase} {op : StorageOp} {message : EdgesyncMessage}
  {calls : List StorageCall} {report : PublishReport}

theorem StorageOp.Sound.of_none (h : op.enqueueId? = none) : op.Sound maxMessageSize := by
  cases op with
  | enqueue message => cases h
  | _ => trivial

theorem StorageOp.Sound.fits (h : op.Sound maxMessageSize) : op.Fits maxMessageSize := by
  cases op with
  | enqueue message => exact EdgesyncMessage.Checked.fits h
  | _ => trivial

theorem StorageOp.Sound.counted (h : op.Sound maxMessageSize) : op.Counted := by
  cases op with
  | enqueue message => exact EdgesyncMessage.Checked.counted h
  | _ => trivial

theorem sound_findDropCandidate {policy : OverflowPolicy} :
    (StorageOp.findDropCandidate policy).Sound maxMessageSize := .of_none rfl

theorem sound_remove {id : UInt64} : (StorageOp.remove id).Sound maxMessageSize := .of_none rfl

theorem EdgesyncMessage.Checked.sound (h : message.Checked maxMessageSize) :
    (StorageOp.enqueue message).Sound maxMessageSize := h

theorem PublishCalls.sound (made : PublishCalls cfg.overflowPolicy message calls report)
    (h : message.Checked maxMessageSize) : ∀ call ∈ calls, call.1.Sound maxMessageSize := by
  cases made <;> simp [h.sound, sound_findDropCandidate, sound_remove]

theorem PublishCut.sound (made : PublishCut cfg.overflowPolicy message calls op)
    (h : message.Checked maxMessageSize) :
    (∀ call ∈ calls, call.1.Sound maxMessageSize) ∧ op.Sound maxMessageSize := by
  cases made <;> simp [h.sound, sound_findDropCandidate, sound_remove]

/-- The calls of a run, and the one that the worker is about to make. -/
structure SoundCalls (maxMessageSize : UInt32) (labels : List StackLabel) (w : Option WorkerPhase) :
    Prop where
  made : ∀ op ∈ callsOf (storageLabels labels), op.Sound maxMessageSize
  next : ∀ op events, w = some (.settling op events) → op.Sound maxMessageSize

theorem callsOf_calls (calls : List StorageCall) :
    callsOf (calls.map StorageCall.label) = calls.map (·.1) := by
  rw [callsOf, List.filterMap_map, ← List.filterMap_eq_map]
  rfl

theorem SoundCalls.later (h : SoundCalls maxMessageSize labels w)
    (hmade : ∀ op ∈ callsOf label.storage, op.Sound maxMessageSize)
    (hnext : ∀ op events, w' = some (.settling op events) → w = some (.settling op events) ∨
      op.Sound maxMessageSize) : SoundCalls maxMessageSize (labels ++ [label]) w' where
  made op hop := by
    rw [storageLabels_snoc, callsOf_append] at hop
    exact (List.mem_append.mp hop).elim (h.made op) (hmade op)
  next op events hw := (hnext op events hw).elim (h.next op events) fun h => h

theorem SoundCalls.step (h : SoundCalls maxMessageSize labels w)
    (checked : ∀ message, label.message? = some message → message.Checked maxMessageSize)
    (step : WorkerStep cfg w label w') : SoundCalls maxMessageSize (labels ++ [label]) w' := by
  have hone : ∀ {label : FlashqStepLabel} {op : StorageOp}, label.op? = some op →
      op.Sound maxMessageSize → ∀ op ∈ callsOf [label], op.Sound maxMessageSize := by
    intro label op hlabel hsound op' hop'
    rw [callsOf, List.filterMap_cons, hlabel] at hop'
    rw [List.mem_singleton.mp hop']
    exact hsound
  have hnothing : ∀ op ∈ callsOf [], op.Sound maxMessageSize := fun _ h => absurd h List.not_mem_nil
  have hquiet : ∀ {label : FlashqStepLabel}, label.op? = none →
      ∀ op ∈ callsOf [label], op.Sound maxMessageSize := by
    intro label hlabel op hop
    rw [callsOf, List.filterMap_cons, hlabel] at hop
    exact absurd hop List.not_mem_nil
  cases step with
  | @publish w p message calls report made =>
    refine h.later (fun op hop => ?_) fun _ _ hw => .inl hw
    rw [show (StackLabel.task (.publish p message calls report)).storage =
      calls.map StorageCall.label from rfl, callsOf_calls] at hop
    obtain ⟨call, hcall, rfl⟩ := List.mem_map.mp hop
    exact made.sound (checked message rfl) call hcall
  | publisherFires => exact h.later hnothing fun _ _ hw => .inl hw
  | wake => exact h.later hnothing fun _ _ hw => .inl hw
  | @claim nowUs res =>
    refine h.later (hone rfl (.of_none rfl)) fun op events hw => ?_
    rcases res with err | reply
    · cases hw
    · rcases reply with _ | reply | _ | _
      · cases hw
      · rcases reply with c | i <;> cases hw
      · cases hw
      · cases hw
  | take waits =>
    refine h.later hnothing fun op events hw => ?_
    rcases waits with rfl | rfl <;> cases hw
  | woken => exact h.later hnothing fun _ _ hw => by cases hw
  | timeout => exact h.later hnothing fun _ _ hw => by cases hw
  | @deliver msg result nowUs randomU32 =>
    refine h.later hnothing fun op events hw => .inr (.of_none ?_)
    have hsettles := handled_settles cfg.retry msg nowUs randomU32 result
    rw [(WorkerPhase.settling.inj (Option.some.inj hw)).1] at hsettles
    cases op <;> first | rfl | cases hsettles
  | @settle op events res => exact h.later (hone rfl (h.next op events rfl)) fun _ _ hw => by cases hw
  | workerFires => exact h.later hnothing fun _ _ hw => by cases hw
  | stats => exact h.later (hone rfl (.of_none rfl)) fun _ _ hw => .inl hw
  | @publishCut w message calls op made =>
    refine h.later (fun op' hop => ?_) fun _ _ hw => by cases hw
    obtain ⟨hcalls, hcut⟩ := made.sound (checked message rfl)
    rw [show (StackLabel.publishCut message calls op).storage =
      calls.map StorageCall.label ++ [.callCut op] from rfl, callsOf_append, callsOf_calls] at hop
    rcases List.mem_append.mp hop with hop | hop
    · obtain ⟨call, hcall, rfl⟩ := List.mem_map.mp hop
      exact hcalls call hcall
    · exact hone rfl hcut op' hop
  | claimCut => exact h.later (hone rfl (.of_none rfl)) fun _ _ hw => by cases hw
  | @settleCut op events => exact h.later (hone rfl (h.next op events rfl)) fun _ _ hw => by cases hw
  | statsCut => exact h.later (hone rfl (.of_none rfl)) fun _ _ hw => by cases hw
  | stopped => exact h.later (hquiet rfl) fun _ _ hw => by cases hw
  | booted => exact h.later (hquiet rfl) fun _ _ hw => by cases hw
  | bootFailed => exact h.later (hquiet rfl) fun _ _ hw => by cases hw
  | bootCut => exact h.later (hquiet rfl) fun _ _ hw => by cases hw

/-- The storage is only asked for what `edgesync_publish` has checked. -/
theorem worker_sound (run : StepRun (WorkerStep cfg) none labels w)
    (checked : ApiPublished maxMessageSize labels) : SoundCalls maxMessageSize labels w := by
  have hall := run.invariant
    (I := fun labels w => ApiPublished maxMessageSize labels → SoundCalls maxMessageSize labels w)
    (fun _ => ⟨fun _ h => absurd h List.not_mem_nil, fun _ _ h => by cases h⟩)
    fun labels w label w' ih step checked =>
      (ih fun x hx => checked x (List.mem_append_left _ hx)).step
        (checked label (List.mem_append_right _ List.mem_cons_self)) step
  exact hall checked

/-- The storage gets no other messages. -/
theorem published_checked (run : StepRun (WorkerStep cfg) none labels w)
    (checked : ApiPublished maxMessageSize labels)
    (hm : message ∈ publishedMessages (storageLabels labels)) : message.Checked maxMessageSize := by
  obtain ⟨label, hlabel, hsome⟩ := List.mem_filterMap.mp hm
  have hop : label.op? = some (.enqueue message) := by
    unfold FlashqStepLabel.publishedMessage? at hsome
    split at hsome <;> first | rfl | cases hsome
    all_goals rfl
  exact (worker_sound run checked).made (.enqueue message) (List.mem_filterMap.mpr ⟨label, hlabel, hop⟩)

end Sound

/-- A run in which all messages are published through the API. -/
structure ApiRun (D : DurableBackend) (config : EdgesyncConfig) (labels : List StackLabel)
    (t : Tasks D.B) : Prop where
  run : StepRun (StackStep D.W config.stack) (.off D.blank) labels (.on t)
  published : ApiPublished config.messageSize labels
  unique : (publishedIds (storageLabels labels)).Nodup

/-- A run of the API over the flash queue loses nothing. -/
theorem ApiRun.flashq {fcfg : FlashqConfig} {config : EdgesyncConfig} {labels : List StackLabel}
    {t : Tasks (flashqBackend fcfg)} (h : ApiRun (flashqDurable fcfg) config labels t)
    (hsize : fcfg.maxMessageSize = config.messageSize) :
    DurableRun (flashqDurable fcfg) config.stack labels t where
  run := h.run
  unique := h.unique
  allowed op hop := by
    rw [hsize]
    exact ((worker_sound (stack_worker h.run) h.published).made op hop).fits

/-- So does one over the NVS backend. -/
theorem ApiRun.nvs {ncfg : NvsConfig} {usage : BlobStore → UInt32 × UInt32}
    {hmax : ncfg.maxMessages.toNat ≤ 100000} {config : EdgesyncConfig} {labels : List StackLabel}
    {t : Tasks (nvsBackend usage ncfg)} (h : ApiRun (nvsDurable ncfg usage hmax) config labels t) :
    DurableRun (nvsDurable ncfg usage hmax) config.stack labels t where
  run := h.run
  unique := h.unique
  allowed op hop := ((worker_sound (stack_worker h.run) h.published).made op hop).counted

end EdgeSync
