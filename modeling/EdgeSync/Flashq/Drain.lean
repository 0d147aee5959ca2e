/-
  Flashq/Drain.lean --- room for the UPDATE records.

  A compacted region holds the live records, the END marker and whatever is
  appended next.  As long as two small records fit behind the live ones, every
  state change can be recorded.  `op_enqueue` asks for one of them only, so a
  message can take the last bytes; the condition `KeepsReserve` says that none
  does.
-/
import EdgeSync.Flashq.Tracked

set_option autoImplicit false

namespace EdgeSync

open Foundation

variable {cfg : FlashqConfig}

/-- The bytes the messages take. -/
def queueBytes (q : List StoredMessage) : Nat := (q.map fun s => s.toEntryMeta.recordSize).sum

theorem queueBytes_contents (v : Memory) (index : List FlashqIndexEntry) :
    queueBytes (contents v index) = liveBytes index := by
  rw [queueBytes, contents, List.map_map]
  rfl

theorem queueBytes_singleton (message : EdgesyncMessage) :
    queueBytes [StoredMessage.ofMessage message] = message.recordSize := Nat.add_zero _

variable (cfg) in
/-- Behind the live records there is room for an END marker and an UPDATE. -/
def HasReserve (index : List FlashqIndexEntry) : Prop :=
  liveBytes index + updateSize + updateSize ≤ cfg.dataCapacity

variable (cfg) in
/-- `op_enqueue` has room for the message, which the encoder takes, and for the END marker,
but not for an UPDATE behind them. -/
def TakesReserve (index : List FlashqIndexEntry) (message : EdgesyncMessage) : Prop :=
  index.length < cfg.indexCapacity ∧ message.Encodes cfg ∧
    liveBytes index + message.recordSize + updateSize ≤ cfg.dataCapacity ∧
    cfg.dataCapacity < liveBytes index + message.recordSize + updateSize + updateSize

variable (cfg) in
/-- The step is not an `op_enqueue` that takes the last bytes. -/
def KeepsReserve : FlashqSystem → FlashqStepLabel → Prop
  | .on ctx _, .call (.enqueue message) _ => ¬ TakesReserve cfg ctx.index message
  | _, _ => True

/-- A message within the configured size is encoded if its destination is not too
long. -/
theorem encodes_of_fits {message : EdgesyncMessage}
    (hfits : (StorageOp.enqueue message).Fits cfg.maxMessageSize)
    (hd : strlen message.destination ≤ maxDestinationLen) : message.Encodes cfg := by
  refine ⟨hd, ?_⟩
  have hpay : message.payloadLen.toNat = message.payload.length :=
    EdgesyncMessage.payloadLen_toNat hfits
  have hlen : message.payload.length ≤ cfg.maxMessageSize.toNat := hfits
  have hdest : (UInt16.ofNat (strlen message.destination)).toNat ≤ 63 := by
    rw [UInt16.toNat_ofNat_of_lt' (by simp only [maxDestinationLen] at hd; simp [UInt16.size]; omega)]
    exact hd
  have h63 : (UInt16.ofNat maxDestinationLen).toNat = 63 := by decide
  simp only [EdgesyncMessage.recordSize, FlashqConfig.scratchSize, recordTotalSize, round4, h63]
  omega

section Calls

variable {R : Regime cfg} {c cS c' : Core} {m m' : Memory} {recs recs' : List (Nat × RecordHdr)}
  {op : StorageOp} {res : Except EspErr StorageReply}

theorem Prepared.liveBytes (prep : Prepared c cS op) : liveBytes cS.index = liveBytes c.index :=
  liveBytes_congr (identities_of_keys prep.keys)

theorem Updated.liveBytes {c1 c2 : Core} {m1 m2 : Memory} {pos : Nat} {id : UInt64} {p : Progress}
    (up : Updated R c1 m1 pos id p c2 m2) : liveBytes c2.index = liveBytes c1.index :=
  liveBytes_congr (identities_of_keys up.keys)

/-- A message that keeps the reserve keeps it. -/
theorem Effect.hasReserve (ef : Effect R c m recs op res c' m' recs') (h : HasReserve cfg c.index)
    (hkeep : ∀ message, op = .enqueue message → ¬ TakesReserve cfg c.index message) :
    HasReserve cfg c'.index := by
  cases ef with
  | refused why => exact h
  | looked seen => exact h
  | full prepared moved low =>
    rw [HasReserve, moved.liveBytes_eq, prepared.liveBytes]
    exact h
  | spoilt lossy prepared moved left =>
    rw [HasReserve, moved.liveBytes_eq, prepared.liveBytes]
    exact h
  | @enqueued message c1 _ m1 _ recs1 moved enqueued =>
    have hroom := enqueued.room
    have hlive := enqueued.live
    have hsize : liveBytes [(message.hdr c1.nextSeq).indexEntry c1.cursor] = message.recordSize :=
      Nat.add_zero _
    have hnot := hkeep message rfl
    rw [moved.length_eq] at hroom
    rw [HasReserve, enqueued.core_eq]
    simp only
    rw [liveBytes_append, hsize]
    rw [moved.liveBytes_eq] at hlive ⊢
    have hencodes := encodes_of_fits enqueued.payload_le enqueued.destination_le
    exact Nat.le_of_not_lt fun hlt => hnot ⟨hroom, hencodes, hlive, hlt⟩
  | claimed selected entry borrowed moved updated =>
    rw [HasReserve, updated.liveBytes, moved.liveBytes_eq]
    exact h
  | @retired _ id newState pos e c1 c2 m1 _ recs1 retires found entry moved updated =>
    have hsame := updated.liveBytes
    rw [moved.liveBytes_eq] at hsame
    obtain ⟨e1, he1, _⟩ := moved.getElem? entry
    have hentry : c2.index[pos]? = some (e1.withProgress (e.progress.inState newState)) := by
      rw [updated.core_eq]
      simp only [List.getElem?_modify, if_true, he1]
      rfl
    have hle := liveBytes_swapRemove hentry
    have hsmall : EdgeSync.liveBytes (c2.retired pos).index =
        EdgeSync.liveBytes (swapRemove c2.index pos) := rfl
    rw [HasReserve] at h ⊢
    omega
  | @retried id nextRetryTimeUs deadLetter lastError pos e c1 _ m1 _ recs1 found entry moved
      updated =>
    have hstage : EdgeSync.liveBytes (c.stagedAt pos nextRetryTimeUs deadLetter lastError).index =
        EdgeSync.liveBytes c.index := liveBytes_modify c.index pos _
    rw [HasReserve, updated.liveBytes, moved.liveBytes_eq, hstage]
    exact h

/-- With the reserve, only a new message can lack space. -/
theorem Effect.storage_enqueue (hlossy : ¬ R.lossy)
    (ef : Effect R c m recs op (.error .storage) c' m' recs') (h : HasReserve cfg c.index) :
    ∃ message, op = .enqueue message := by
  cases ef with
  | refused why =>
    cases op with
    | enqueue message => exact ⟨message, rfl⟩
    | getStats stats => exact why.elim
    | _ => exact absurd why.1 (by simp)
  | full prepared moved low =>
    cases op with
    | enqueue message => exact ⟨message, rfl⟩
    | findDropCandidate policy => exact prepared.elim
    | getStats stats => exact prepared.elim
    | _ => exact absurd low (Nat.not_lt.mpr h)
  | spoilt lossy prepared moved left => exact absurd lossy hlossy

end Calls

/-! ## What succeeds with the reserve -/

section Succeeds

variable {ctx : FlashqCtx} {m : Memory} {recs : List (Nat × RecordHdr)}

/-- An eligible message is claimed. -/
theorem quiet_claim {nowUs : Int64} {pos : Nat} {s : StoredMessage}
    (b : Base (quiet cfg) ctx.core m recs) (h : HasReserve cfg ctx.index)
    (hsel : selectClaim nowUs (metas (ctx.core.queue cfg m)) = some pos)
    (hs : (ctx.core.queue cfg m)[pos]? = some s) :
    ∃ ctx' m' recs', FlashqStep cfg quietWorld (.on ctx m)
        (.call (.claimNext nowUs) (.ok (.claim (.claimed (s.claimedMessage nowUs))))) (.on ctx' m') ∧
      Base (quiet cfg) ctx'.core m' recs' ∧ HasReserve cfg ctx'.index ∧
      ctx'.core.queue cfg m' = (ctx.core.queue cfg m).modify pos (·.change (Progress.claimed nowUs)) := by
  rw [Core.queue, metas_contents] at hsel
  obtain ⟨res, ctx', m', recs', step, ef⟩ := quiet_call (.claimNext nowUs) b trivial
  have hbase := ef.base b
  have hres := ef.hasReserve h fun _ heq => by simp at heq
  have hq := ef.queueStep
  generalize hop : StorageOp.claimNext nowUs = op at ef
  generalize ctx'.core = c' at ef
  cases ef with
  | refused why =>
    subst hop
    exact absurd (hsel.symm.trans why.2) (by simp)
  | looked seen =>
    subst hop
    exact seen.elim
  | full prepared moved low =>
    subst hop
    exact absurd low (Nat.not_lt.mpr h)
  | spoilt lossy prepared moved left => exact lossy.elim
  | @claimed now' pos' e claimScratch c1 _ m1 _ recs1 selected entry borrowed moved updated =>
    cases hop
    obtain rfl : pos = pos' := Option.some.inj (hsel.symm.trans selected)
    have hcontent : (ctx.core.queue cfg m)[pos]? = some (contentOf (view cfg m ctx.core.region) e) :=
      contents_getElem? entry
    obtain rfl := Option.some.inj (hs.symm.trans hcontent)
    obtain ⟨pos', s', hsel', _, _, hq'⟩ := hq.claim_ok
    rw [Core.queue, metas_contents] at hsel'
    obtain rfl : pos = pos' := Option.some.inj (hsel.symm.trans hsel')
    exact ⟨ctx', m', _, step, hbase, hres, hq'⟩
  | retired retires found entry moved updated => cases retires <;> simp at hop
  | enqueued moved enqueued => simp at hop
  | retried found entry moved updated => simp at hop

/-- A retry of a queued message is recorded. -/
theorem quiet_retry {id : UInt64} (nextRetryTimeUs : Int64) (deadLetter : Bool) (lastError : Int32)
    {pos : Nat} (b : Base (quiet cfg) ctx.core m recs) (h : HasReserve cfg ctx.index)
    (hpos : findMessage (ctx.core.queue cfg m) id = some pos) :
    ∃ ctx' m' recs', FlashqStep cfg quietWorld (.on ctx m)
        (.call (.scheduleRetry id nextRetryTimeUs deadLetter lastError) (.ok .done)) (.on ctx' m') ∧
      Base (quiet cfg) ctx'.core m' recs' ∧ HasReserve cfg ctx'.index ∧
      ctx'.core.queue cfg m' = (ctx.core.queue cfg m).modify pos
        (·.change (Progress.retried nextRetryTimeUs deadLetter lastError)) := by
  have hfind : findEntry ctx.index id = some pos := (findEntry_contents _ _ _).symm.trans hpos
  obtain ⟨res, ctx', m', recs', step, ef⟩ :=
    quiet_call (.scheduleRetry id nextRetryTimeUs deadLetter lastError) b trivial
  have hbase := ef.base b
  have hres := ef.hasReserve h fun _ heq => by simp at heq
  have hq := ef.queueStep
  generalize hop : StorageOp.scheduleRetry id nextRetryTimeUs deadLetter lastError = op at ef
  generalize ctx'.core = c' at ef
  cases ef with
  | refused why =>
    subst hop
    exact absurd (hfind.symm.trans why.2) (by simp)
  | looked seen =>
    subst hop
    exact seen.elim
  | full prepared moved low =>
    subst hop
    exact absurd low (Nat.not_lt.mpr h)
  | spoilt lossy prepared moved left => exact lossy.elim
  | claimed selected entry borrowed moved updated => simp at hop
  | retired retires found entry moved updated => cases retires <;> simp at hop
  | enqueued moved enqueued => simp at hop
  | retried found entry moved updated =>
    cases hop
    obtain ⟨pos', hpos', hq'⟩ := hq.retry_ok
    obtain rfl := Option.some.inj (hpos.symm.trans hpos')
    exact ⟨ctx', m', _, step, hbase, hres, hq'⟩

/-- A queued message that is delivered or removed is gone. -/
theorem quiet_retire {op : StorageOp} {id : UInt64} {newState : FlashqState} {pos : Nat}
    (retires : Retires op id newState) (b : Base (quiet cfg) ctx.core m recs)
    (h : HasReserve cfg ctx.index) (hpos : findMessage (ctx.core.queue cfg m) id = some pos) :
    ∃ ctx' m' recs', FlashqStep cfg quietWorld (.on ctx m) (.call op (.ok .done)) (.on ctx' m') ∧
      Base (quiet cfg) ctx'.core m' recs' ∧ HasReserve cfg ctx'.index ∧
      ctx'.core.queue cfg m' = swapRemove (ctx.core.queue cfg m) pos := by
  have hfind : findEntry ctx.index id = some pos := (findEntry_contents _ _ _).symm.trans hpos
  have hfits : op.Fits cfg.maxMessageSize := by
    cases retires <;> trivial
  obtain ⟨res, ctx', m', recs', step, ef⟩ := quiet_call op b hfits
  have hbase := ef.base b
  have hres := ef.hasReserve h fun message heq => by
    subst heq
    cases retires
  have hq := ef.queueStep
  generalize ctx'.core = c' at ef
  cases ef with
  | refused why =>
    cases retires <;> exact absurd (hfind.symm.trans why.2) (by simp)
  | looked seen =>
    cases retires <;> exact seen.elim
  | full prepared moved low =>
    cases retires <;> exact absurd low (Nat.not_lt.mpr h)
  | spoilt lossy prepared moved left => exact lossy.elim
  | claimed selected entry borrowed moved updated => cases retires
  | retried found entry moved updated => cases retires
  | enqueued moved enqueued => cases retires
  | retired retires' found entry moved updated =>
    obtain ⟨pos', hpos', hq'⟩ := hq.retired_ok retires
    obtain rfl := Option.some.inj (hpos.symm.trans hpos')
    exact ⟨ctx', m', _, step, hbase, hres, hq'⟩

/-- A message that is encoded and fits is accepted. -/
theorem quiet_enqueue {message : EdgesyncMessage} (b : Base (quiet cfg) ctx.core m recs)
    (hfits : (StorageOp.enqueue message).Fits cfg.maxMessageSize) (henc : message.Encodes cfg)
    (hroom : ctx.index.length < cfg.indexCapacity)
    (hlive : liveBytes ctx.index + updateSize + message.recordSize ≤ cfg.dataCapacity) :
    ∃ ctx' m' recs', FlashqStep cfg quietWorld (.on ctx m)
        (.call (.enqueue message) (.ok .done)) (.on ctx' m') ∧
      Base (quiet cfg) ctx'.core m' recs' ∧
      ctx'.core.queue cfg m' = ctx.core.queue cfg m ++ [StoredMessage.ofMessage message] := by
  obtain ⟨res, ctx', m', recs', step, ef⟩ := quiet_call (.enqueue message) b hfits
  have hbase := ef.base b
  have hq := ef.queueStep
  generalize hop : StorageOp.enqueue message = op at ef
  generalize ctx'.core = c' at ef
  cases ef with
  | refused why =>
    subst hop
    rcases why with ⟨_, hcap⟩ | ⟨_, _, hnot⟩
    · exact absurd hroom (Nat.not_lt.mpr hcap)
    · exact absurd henc hnot
  | looked seen =>
    subst hop
    exact seen.elim
  | full prepared moved low =>
    subst hop
    exact absurd low (Nat.not_lt.mpr hlive)
  | spoilt lossy prepared moved left => exact lossy.elim
  | claimed selected entry borrowed moved updated => simp at hop
  | retired retires found entry moved updated => cases retires <;> simp at hop
  | enqueued moved enqueued =>
    cases hop
    exact ⟨ctx', m', _, step, hbase, hq.enqueue_ok⟩
  | retried found entry moved updated => simp at hop

end Succeeds

/-! ## Runs -/

section Runs

/-- What a run keeps: a running backend has the reserve, a partition that is
switched off holds a queue with room for it. -/
def Drainable (cfg : FlashqConfig) : FlashqSystem → Prop
  | .on ctx m => (∃ recs, Base (quiet cfg) ctx.core m recs) ∧ HasReserve cfg ctx.index
  | .off m => Image (quiet cfg) m fun q => queueBytes q + updateSize + updateSize ≤ cfg.dataCapacity

theorem drainable_erased : Drainable cfg (.off erasedFlash) := by
  have hcap := cfg.dataStart_add_le
  have hu : updateSize + updateSize ≤ sectorSize := by decide
  refine image_erased ?_
  simp only [queueBytes, List.map_nil, List.sum_nil, FlashqConfig.dataCapacity]
  omega

/-- `op_recover` has room for the UPDATE records of its requeues. -/
theorem Drainable.boot {m : Memory} (h : Drainable cfg (.off m)) :
    wp cfg.device calmEnv (opRecover cfg) ⟨fun _ ctx' m' => Drainable cfg (.on ctx' m'),
      fun _ _ _ => False, fun _ => True⟩ (FlashqCtx.fresh cfg) m := by
  have hzero : liveBytes [] + updateSize + updateSize ≤ cfg.dataCapacity := by
    have hcap := cfg.dataStart_add_le
    have hu : updateSize + updateSize ≤ sectorSize := by decide
    rw [liveBytes_nil, FlashqConfig.dataCapacity]
    omega
  refine wp_opRecover (R := quiet cfg) h requeueInvariant_true (fun _ _ => trivial)
    (fun _ _ _ _ _ => trivial) ?_ ?_ ?_ (fun hl => hl.elim) (fun hm => hm.elim) fun _ _ => trivial
  · intro _ ctx' m' hcore b
    refine ⟨⟨[], b⟩, ?_⟩
    have hidx : ctx'.index = [] := congrArg Core.index hcore
    rw [hidx]
    exact hzero
  · intro c0 m0 recs0 ctx' m' recs' _ hq b _ hmetas
    refine ⟨⟨recs', b⟩, ?_⟩
    rw [queueBytes_contents] at hq
    have hsame : liveBytes ctx'.index = liveBytes c0.index := by
      rw [liveBytes_eq_sum, liveBytes_eq_sum c0.index, hmetas, List.map_map]
      rfl
    rw [HasReserve, hsame]
    exact hq
  · intro c0 m0 recs0 _ hq _ hlow
    rw [queueBytes_contents] at hq
    exact absurd hlow (Nat.not_lt.mpr hq)

/-- One step. -/
theorem Drainable.step {s s' : FlashqSystem} {label : FlashqStepLabel} (h : Drainable cfg s)
    (step : FlashqStep cfg quietWorld s label s') (hkeep : KeepsReserve cfg s label)
    (hfit : ∀ op, label.op? = some op → op.Fits cfg.maxMessageSize) :
    Drainable cfg s' ∧
      (∀ op, label = .call op (.error .storage) → ∃ message, op = .enqueue message) ∧
      ∀ err, label ≠ .bootFailed err := by
  have hcall : ∀ {ctx : FlashqCtx} {m : Memory} {op : StorageOp}
      {res : Except EspErr StorageReply} {s' : FlashqSystem}, Drainable cfg (.on ctx m) →
      KeepsReserve cfg (.on ctx m) (.call op res) → op.Fits cfg.maxMessageSize →
      FlashqStep cfg quietWorld (.on ctx m) (.call op res) s' → Drainable cfg s' ∧
        (∀ op', FlashqStepLabel.call op res = .call op' (.error .storage) →
          ∃ message, op' = .enqueue message) ∧
        ∀ err, FlashqStepLabel.call op res ≠ .bootFailed err := by
    intro ctx m op res s' ⟨⟨recs, b⟩, hres⟩ hkeep hfit step
    obtain ⟨ctx', m', recs', rfl, ef⟩ := quiet_effect b hfit step
    refine ⟨⟨⟨recs', ef.base b⟩, ef.hasReserve hres ?_⟩, ?_, fun _ => by simp⟩
    · rintro message rfl
      exact hkeep
    · intro op' heq
      cases heq
      exact ef.storage_enqueue (fun h => h) hres
  have hstep := step
  cases step with
  | returned run => exact hcall h hkeep (hfit _ rfl) hstep
  | failed run => exact hcall h hkeep (hfit _ rfl) hstep
  | cut run => exact absurd hstep quiet_not_callCut
  | stop =>
    obtain ⟨⟨recs, b⟩, hres⟩ := h
    refine ⟨b.image ?_, fun _ h => by simp at h, fun _ => by simp⟩
    rw [queueBytes_contents, ← liveBytes_congr (identities_of_keys b.same)]
    exact hres
  | boot run => exact ⟨wp_sound run h.boot, fun _ h => by simp at h, fun _ => by simp⟩
  | bootFail run => exact (wp_sound run h.boot).elim
  | bootCut run => exact absurd hstep quiet_not_bootCut

theorem Drainable.run {labels : List FlashqStepLabel} {s : FlashqSystem}
    (run : GuardedRun cfg quietWorld (KeepsReserve cfg) (.off erasedFlash) labels s)
    (hfit : AllFit cfg labels) :
    Drainable cfg s ∧ ∀ label ∈ labels,
      (∀ op, label = .call op (.error .storage) → ∃ message, op = .enqueue message) ∧
      ∀ err, label ≠ .bootFailed err := by
  induction run with
  | nil => exact ⟨drainable_erased, fun _ h => absurd h List.not_mem_nil⟩
  | snoc run step meets ih =>
    obtain ⟨hdrain, hall⟩ := ih hfit.init
    obtain ⟨hdrain', hlast⟩ := hdrain.step step meets fun op hop => hfit.last hop
    refine ⟨hdrain', fun label hl => ?_⟩
    rcases List.mem_append.mp hl with hl | hl
    · exact hall label hl
    · rw [List.mem_singleton.mp hl]
      exact hlast

/-- Nothing is asked of the queue. -/
theorem queueInvariant_true : QueueInvariant fun _ _ => True where
  init := trivial
  call _ _ _ _ := trivial
  requeue _ _ _ _ := trivial
  restart _ _ := trivial

/-- A restart with the reserve finds the queue, with the messages in flight requeued. -/
theorem quiet_reboot {ctx : FlashqCtx} {m : Memory} {labels : List FlashqStepLabel}
    (run : FlashqRun cfg quietWorld (.off erasedFlash) labels (.on ctx m))
    (hu : (publishedIds labels).Nodup) (hfit : AllFit cfg labels) (hboots : BootsReturn labels)
    (h : HasReserve cfg ctx.index) :
    ∃ ctx' m' recs', FlashqStep cfg quietWorld (.off m) .booted (.on ctx' m') ∧
      Base (quiet cfg) ctx'.core m' recs' ∧ HasReserve cfg ctx'.index ∧
      ctx'.core.queue cfg m' = (ctx.core.queue cfg m).map StoredMessage.settle := by
  obtain ⟨recs, tracked⟩ := Tracked.run queueInvariant_true run hu hfit hboots
  have hdrain : Drainable cfg (.off m) := by
    refine tracked.base.image ?_
    rw [tracked.queue_eq, Core.queue, queueBytes_contents]
    exact h
  have himage : Image (quiet cfg) m fun q =>
      KnownIds labels (ctx.core.queue cfg m) ∧ q = ctx.core.queue cfg m :=
    tracked.base.image ⟨tracked.ids, tracked.queue_eq⟩
  obtain ⟨_, ctx', m', hexec, hbase, hreserve⟩ := calm_exec_ok hdrain.boot
  have hrun := @calm_runs cfg _ (opRecover cfg) (FlashqCtx.fresh cfg) m
  rw [hexec] at hrun
  obtain ⟨hqueue, _⟩ := wp_sound hrun (wp_opRecover_settled himage)
  obtain ⟨recs', b⟩ := hbase
  exact ⟨ctx', m', recs', .boot (g := 0) hrun, b, hreserve, hqueue⟩

/-- In every run in which no message takes the last bytes, every state change of
a queued message finds room, and so does every restart. -/
theorem update_never_full {labels : List FlashqStepLabel} {s : FlashqSystem}
    (run : GuardedRun cfg quietWorld (KeepsReserve cfg) (.off erasedFlash) labels s)
    (hfit : AllFit cfg labels) : ∀ label ∈ labels,
      (∀ op, label = .call op (.error .storage) → ∃ message, op = .enqueue message) ∧
      ∀ err, label ≠ .bootFailed err :=
  (Drainable.run run hfit).2

/-- The first message that is published is queued alone. -/
theorem quiet_first {message : EdgesyncMessage}
    (hfits : (StorageOp.enqueue message).Fits cfg.maxMessageSize) (henc : message.Encodes cfg)
    (hroom : 0 < cfg.indexCapacity) (hlive : message.recordSize + updateSize ≤ cfg.dataCapacity) :
    ∃ ctx m ctx' m' recs', FlashqStep cfg quietWorld (.off erasedFlash) .booted (.on ctx m) ∧
      ctx.index = [] ∧ FlashqStep cfg quietWorld (.on ctx m)
        (.call (.enqueue message) (.ok .done)) (.on ctx' m') ∧
      Base (quiet cfg) ctx'.core m' recs' ∧
      ctx'.core.queue cfg m' = [StoredMessage.ofMessage message] ∧
      liveBytes ctx'.index = message.recordSize := by
  obtain ⟨ctx, m, boot, hcore, b⟩ := quiet_boot cfg
  have hindex : ctx.index = [] := congrArg Core.index hcore
  obtain ⟨ctx', m', recs', step, b', hq⟩ := quiet_enqueue b hfits henc
    (by rw [hindex]; exact hroom) (by rw [hindex, liveBytes_nil]; omega)
  have hqueue : ctx'.core.queue cfg m' = [StoredMessage.ofMessage message] := by
    rw [hq, Core.queue, show ctx.core.index = [] from hindex]
    rfl
  refine ⟨ctx, m, ctx', m', recs', boot, hindex, step, b', hqueue, ?_⟩
  have hbytes : queueBytes (ctx'.core.queue cfg m') = message.recordSize := by
    rw [hqueue, queueBytes_singleton]
  rwa [Core.queue, queueBytes_contents] at hbytes

/-- A partition with one sector of data in a region. -/
def fullConfig : FlashqConfig where
  partitionSize := 16384
  maxMessages := 4
  maxMessageSize := 4000
  maxMessages_ne := smallConfig.maxMessages_ne
  aligned := smallConfig.aligned
  sectors := smallConfig.sectors

/-- A record of 3960 bytes: 136 bytes are left, for the END marker and an UPDATE. -/
def snugMessage : EdgesyncMessage := ⟨7, [0x61], 1, 5, List.replicate 3893 0⟩

theorem recordSize_snugMessage : snugMessage.recordSize = 3960 := by
  have hlen : snugMessage.payloadLen = 3893 := by
    rw [EdgesyncMessage.payloadLen, snugMessage, List.length_replicate]
    rfl
  rw [EdgesyncMessage.recordSize, hlen]
  rfl

theorem snugMessage_fits : (StorageOp.enqueue snugMessage).Fits fullConfig.maxMessageSize := by
  show (List.replicate 3893 (0 : UInt8)).length ≤ 4000
  rw [List.length_replicate]
  decide

/-- The message as the first claim hands it out, and as the second one does. -/
def snugClaims : StoredMessage × StoredMessage :=
  let queued := StoredMessage.ofMessage snugMessage
  (queued, ((queued.change (Progress.claimed 9)).change (Progress.retried 20 false 0)).settle)

/-- The message is claimed, retried after a restart, requeued by the next one and removed. -/
def snugLabels : List FlashqStepLabel :=
  [.booted, .call (.enqueue snugMessage) (.ok .done),
    .call (.claimNext 9) (.ok (.claim (.claimed (snugClaims.1.claimedMessage 9)))),
    .call (.scheduleRetry 7 20 false 0) (.ok .done), .stopped, .booted,
    .call (.claimNext 30) (.ok (.claim (.claimed (snugClaims.2.claimedMessage 30)))),
    .stopped, .booted, .call (.remove 7) (.ok .done), .stopped, .booted]

theorem snugLabels_fit : AllFit fullConfig snugLabels := by
  intro op hop
  simp only [callsOf, snugLabels, FlashqStepLabel.op?, List.filterMap_cons, List.filterMap_nil,
    List.mem_cons, List.not_mem_nil, or_false] at hop
  obtain rfl | rfl | rfl | rfl | rfl := hop
  · exact snugMessage_fits
  all_goals trivial

theorem snugLabels_take_fit (n : Nat) : AllFit fullConfig (snugLabels.take n) := by
  have h := snugLabels_fit
  rw [← List.take_append_drop n snugLabels] at h
  exact h.left

/-- A message that leaves room for one UPDATE: every change of its state is recorded. -/
theorem update_never_full_snug : ∃ s,
    GuardedRun fullConfig quietWorld (KeepsReserve fullConfig) (.off erasedFlash) snugLabels s ∧
    ∀ label ∈ snugLabels,
      (∀ op, label = .call op (.error .storage) → ∃ message, op = .enqueue message) ∧
      ∀ err, label ≠ .bootFailed err := by
  have hsize := recordSize_snugMessage
  have henc : snugMessage.Encodes fullConfig := by
    refine ⟨by decide, ?_⟩
    rw [hsize]
    decide
  obtain ⟨ctx, m, ctx1, m1, recs1, boot, hindex, step1, b1, hq1, hlive⟩ :=
    quiet_first snugMessage_fits henc (by decide) (by rw [hsize]; decide)
  have hkeep : ¬ TakesReserve fullConfig ctx.index snugMessage := by
    rintro ⟨_, _, _, hlt⟩
    rw [hindex, hsize] at hlt
    exact absurd hlt (by decide)
  have hres1 : HasReserve fullConfig ctx1.index := by
    rw [HasReserve, hlive, hsize]
    decide
  -- the claim and the retry
  obtain ⟨ctx2, m2, recs2, step2, b2, hres2, hq2⟩ := @quiet_claim _ _ _ _ 9 0 _ b1 hres1
    (by rw [hq1]; decide +kernel) (by rw [hq1]; rfl)
  rw [hq1] at hq2
  obtain ⟨ctx3, m3, recs3, step3, b3, hres3, hq3⟩ := @quiet_retry _ _ _ _ 7 20 false 0 0 b2
    hres2 (by rw [hq2]; decide +kernel)
  rw [hq2] at hq3
  have run3 : GuardedRun fullConfig quietWorld (KeepsReserve fullConfig) (.off erasedFlash)
      (snugLabels.take 4) (.on ctx3 m3) :=
    (((GuardedRun.nil.snoc boot trivial).snoc step1 hkeep).snoc step2 trivial).snoc step3 trivial
  obtain ⟨ctx4, m4, recs4, step4, b4, hres4, hq4⟩ := quiet_reboot run3.unguarded (by decide)
    (snugLabels_take_fit 4) (by simp [BootsReturn, snugLabels]) hres3
  rw [hq3] at hq4
  -- the second claim, lost with the power
  obtain ⟨ctx5, m5, recs5, step5, b5, hres5, hq5⟩ := @quiet_claim _ _ _ _ 30 0 _ b4 hres4
    (by rw [hq4]; decide +kernel) (by rw [hq4]; rfl)
  rw [hq4] at hq5
  have run5 : GuardedRun fullConfig quietWorld (KeepsReserve fullConfig) (.off erasedFlash)
      (snugLabels.take 7) (.on ctx5 m5) :=
    ((run3.snoc .stop trivial).snoc step4 trivial).snoc step5 trivial
  obtain ⟨ctx6, m6, recs6, step6, b6, hres6, hq6⟩ := quiet_reboot run5.unguarded (by decide)
    (snugLabels_take_fit 7) (by simp [BootsReturn, snugLabels]) hres5
  rw [hq5] at hq6
  -- the removal
  obtain ⟨ctx7, m7, recs7, step7, b7, hres7, _⟩ := @quiet_retire _ _ _ _ _ _ _ 0 (.removed 7) b6 hres6
    (by rw [hq6]; decide +kernel)
  have run7 : GuardedRun fullConfig quietWorld (KeepsReserve fullConfig) (.off erasedFlash)
      (snugLabels.take 10) (.on ctx7 m7) :=
    ((run5.snoc .stop trivial).snoc step6 trivial).snoc step7 trivial
  obtain ⟨ctx8, m8, recs8, step8, _⟩ := quiet_reboot run7.unguarded (by decide)
    (snugLabels_take_fit 10) (by simp [BootsReturn, snugLabels]) hres7
  have run : GuardedRun fullConfig quietWorld (KeepsReserve fullConfig) (.off erasedFlash)
      snugLabels (.on ctx8 m8) := (run7.snoc .stop trivial).snoc step8 trivial
  exact ⟨_, run, update_never_full run snugLabels_fit⟩

end Runs

/-! ## A message that takes the last bytes -/

section Full

/-- A record of 4028 bytes: 68 bytes are left, for the END marker. -/
def fullMessage : EdgesyncMessage := ⟨7, [0x61], 1, 5, List.replicate 3961 0⟩

theorem recordSize_fullMessage : fullMessage.recordSize = 4028 := by
  have hlen : fullMessage.payloadLen = 3961 := by
    rw [EdgesyncMessage.payloadLen, fullMessage, List.length_replicate]
    rfl
  rw [EdgesyncMessage.recordSize, hlen]
  rfl

theorem fullMessage_fits : (StorageOp.enqueue fullMessage).Fits fullConfig.maxMessageSize := by
  show (List.replicate 3961 (0 : UInt8)).length ≤ 4000
  rw [List.length_replicate]
  decide

theorem fullMessage_encodes : fullMessage.Encodes fullConfig := by
  refine ⟨by decide, ?_⟩
  rw [recordSize_fullMessage]
  decide

/-- The claim of the message has no room. -/
theorem fullMessage_not_claimed {c c' : Core} {m m' : Memory} {recs recs' : List (Nat × RecordHdr)}
    {res : Except EspErr StorageReply} (hlive : liveBytes c.index = 4028)
    (hsel : selectClaim 9 (c.index.map (·.toEntryMeta)) = some 0)
    (ef : Effect (quiet fullConfig) c m recs (.claimNext 9) res c' m' recs') :
    res = .error .storage := by
  cases ef with
  | refused why => exact absurd (hsel.symm.trans why.2) (by simp)
  | looked seen => exact seen.elim
  | full prepared moved low => rfl
  | spoilt lossy prepared moved left => exact lossy.elim
  | claimed selected entry borrowed moved updated =>
    have hroom := updated.room
    have hsame := moved.liveBytes_eq
    simp only at hsame
    rw [hsame, hlive] at hroom
    exact absurd hroom (by decide)
  | retired retires found entry moved updated => cases retires

/-- The run that publishes it. -/
theorem fullMessage_queued : ∃ ctx m recs,
    FlashqRun fullConfig quietWorld (.off erasedFlash)
      [.booted, .call (.enqueue fullMessage) (.ok .done)] (.on ctx m) ∧
    AllFit fullConfig [.booted, .call (.enqueue fullMessage) (.ok .done)] ∧
    Base (quiet fullConfig) ctx.core m recs ∧
    ctx.core.queue fullConfig m = [StoredMessage.ofMessage fullMessage] ∧
    liveBytes ctx.index = 4028 := by
  have hsize := recordSize_fullMessage
  obtain ⟨ctx, m, ctx1, m1, recs1, boot, _, step1, b1, hq, hlive⟩ :=
    quiet_first fullMessage_fits fullMessage_encodes (by decide) (by rw [hsize]; decide)
  rw [hsize] at hlive
  refine ⟨ctx1, m1, recs1, (FlashqRun.nil.snoc boot).snoc step1, ?_, b1, hq, hlive⟩
  intro op hop
  rw [List.mem_singleton.mp hop]
  exact fullMessage_fits

/-- A message that fills the region to the last 68 bytes is accepted, and then
cannot be claimed. -/
theorem update_full : ∃ ctx m s,
    FlashqRun fullConfig quietWorld (.off erasedFlash)
      [.booted, .call (.enqueue fullMessage) (.ok .done)] (.on ctx m) ∧
    AllFit fullConfig [.booted, .call (.enqueue fullMessage) (.ok .done)] ∧
    selectClaim 9 (ctx.index.map (·.toEntryMeta)) = some 0 ∧
    FlashqStep fullConfig quietWorld (.on ctx m) (.call (.claimNext 9) (.error .storage)) s := by
  obtain ⟨ctx, m, recs, run, hfit, b, hq, hlive⟩ := fullMessage_queued
  have hmetas : ctx.index.map (·.toEntryMeta) = metas [StoredMessage.ofMessage fullMessage] := by
    rw [← hq, Core.queue, metas_contents]
    rfl
  have hsel : selectClaim 9 (ctx.index.map (·.toEntryMeta)) = some 0 := by
    rw [hmetas]
    decide +kernel
  obtain ⟨res2, ctx2, m2, recs2, step2, ef2⟩ := quiet_call (.claimNext 9) b trivial
  obtain rfl := fullMessage_not_claimed hlive hsel ef2
  exact ⟨ctx, m, _, run, hfit, hsel, step2⟩

end Full

end EdgeSync
