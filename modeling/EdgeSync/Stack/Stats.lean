/-
  Stack/Stats.lean --- what the index holds and what the statistics say.

  Whatever the storage primitives report, the index holds the messages that were
  accepted and neither delivered nor removed, and `edgesync_queue_get_stats` accounts
  for all of them.
-/
import EdgeSync.Agreement
import EdgeSync.Flashq.Garbage
import EdgeSync.Stack.Overflow
import EdgeSync.Stack.Script

set_option autoImplicit false

namespace EdgeSync

open Foundation

/-! ## The history of a run -/

/-- The storage calls of a run, in order. -/
def storageCalls (labels : List TasksLabel) : List StorageCall := labels.flatMap (·.calls)

/-- They are steps of the storage. -/
def StorageCall.label (call : StorageCall) : FlashqStepLabel := .call call.1 call.2

/-- The id of the message that a call accepted. -/
def StorageCall.acceptedId? : StorageCall → Option UInt64
  | (.enqueue message, .ok _) => some message.id
  | _ => none

/-- The messages that were accepted. -/
def acceptedIds (calls : List StorageCall) : List UInt64 := calls.filterMap (·.acceptedId?)

/-- `op_mark_delivered` returned `ESP_OK`. -/
def StorageCall.delivers : StorageCall → Bool
  | (.markDelivered _, .ok _) => true
  | _ => false

/-- `op_remove` returned `ESP_OK`. -/
def StorageCall.removes : StorageCall → Bool
  | (.remove _, .ok _) => true
  | _ => false

/-- The message was accepted, and neither delivered nor removed since. -/
def Owed (calls : List StorageCall) (id : UInt64) : Prop :=
  ∃ before message reply after, calls = before ++ (.enqueue message, .ok reply) :: after ∧
    message.id = id ∧
    ∀ op reply', (op, .ok reply') ∈ after → ∀ newState, ¬ Retires op id newState

/-! ## What the calls leave -/

section Calls

variable {calls calls' : List StorageCall} {early : Bool} {capacity : Nat} {q q' : List EntryMeta}
  {op : StorageOp} {res : Except EspErr StorageReply} {id : UInt64}

theorem Owed.snoc (call : StorageCall) (h : Owed calls id)
    (hkeeps : ∀ reply, call.2 = .ok reply → ∀ newState, ¬ Retires call.1 id newState) :
    Owed (calls ++ [call]) id := by
  obtain ⟨before, message, reply, after, rfl, hid, hafter⟩ := h
  refine ⟨before, message, reply, after ++ [call], by simp, hid, fun op reply' hmem => ?_⟩
  rcases List.mem_append.mp hmem with hmem | hmem
  · exact hafter op reply' hmem
  · rw [List.mem_singleton] at hmem
    subst hmem
    exact hkeeps reply' rfl

theorem owed_snoc_iff {call : StorageCall} : Owed (calls ++ [call]) id ↔
    (Owed calls id ∧ ∀ reply, call.2 = .ok reply → ∀ newState, ¬ Retires call.1 id newState) ∨
      call.acceptedId? = some id := by
  constructor
  · rintro ⟨before, message, reply, after, heq, hid, hafter⟩
    rcases List.eq_nil_or_concat after with rfl | ⟨after, last, rfl⟩
    · obtain ⟨-, hlast⟩ := List.append_inj' heq rfl
      cases hlast
      exact .inr (by rw [← hid]; rfl)
    · rw [List.concat_eq_append, ← List.cons_append, ← List.append_assoc] at heq
      obtain ⟨hcalls, hlast⟩ := List.append_inj' heq rfl
      obtain rfl := List.singleton_inj.mp hlast
      refine .inl ⟨⟨before, message, reply, after, hcalls, hid, fun op reply' hmem => ?_⟩, ?_⟩
      · exact hafter op reply' (by simp [hmem])
      · exact fun reply' hok => hafter call.1 reply' (by simp [← hok])
  · rintro (⟨howed, hkeeps⟩ | haccepted)
    · exact howed.snoc call hkeeps
    · unfold StorageCall.acceptedId? at haccepted
      split at haccepted
      · exact ⟨calls, _, _, [], rfl, Option.some.inj haccepted, by simp⟩
      · cases haccepted

/-- The messages an index holds, by what the calls returned. -/
structure Tallied (capacity : Nat) (calls : List StorageCall) (q : List EntryMeta) : Prop where
  unique : (acceptedIds calls).Nodup → (q.map (·.id)).Nodup
  owed : (acceptedIds calls).Nodup → ∀ id, id ∈ q.map (·.id) ↔ Owed calls id
  total : q.length + calls.countP (·.delivers) + calls.countP (·.removes) =
    (acceptedIds calls).length
  states : ∀ e ∈ q, e.state = FlashqState.pending.code ∨ e.state = FlashqState.inFlight.code ∨
    e.state = FlashqState.deadLetter.code
  room : q.length ≤ capacity

theorem tallied_nil (capacity : Nat) : Tallied capacity [] [] where
  unique _ := List.nodup_nil
  owed _ id := by simp [Owed]
  total := rfl
  states := by simp
  room := Nat.zero_le _

theorem acceptedIds_snoc (calls : List StorageCall) (call : StorageCall) :
    acceptedIds (calls ++ [call]) = acceptedIds calls ++ call.acceptedId?.toList := by
  rw [acceptedIds, List.filterMap_append, ← acceptedIds]
  cases h : call.acceptedId? <;> simp [h]

theorem Owed.accepted (h : Owed calls id) : id ∈ acceptedIds calls := by
  obtain ⟨before, message, reply, after, rfl, rfl, -⟩ := h
  simp [acceptedIds, StorageCall.acceptedId?]

theorem countP_snoc (p : StorageCall → Bool) (calls : List StorageCall) (call : StorageCall) :
    (calls ++ [call]).countP p = calls.countP p + if p call then 1 else 0 := by
  rw [List.countP_append, List.countP_singleton]

/-- A call that accepts no message and ends none. -/
structure StorageCall.Keeps (call : StorageCall) : Prop where
  accepts : call.acceptedId? = none
  ends : ∀ reply, call.2 = .ok reply → ∀ id newState, ¬ Retires call.1 id newState

theorem StorageCall.Keeps.error (op : StorageOp) (err : EspErr) :
    StorageCall.Keeps (op, .error err) :=
  ⟨by cases op <;> rfl, fun _ h => by cases h⟩

theorem StorageCall.Keeps.counts {call : StorageCall} (h : call.Keeps) :
    call.delivers = false ∧ call.removes = false := by
  obtain ⟨op, res⟩ := call
  cases res with
  | error err => cases op <;> exact ⟨rfl, rfl⟩
  | ok reply =>
    cases op with
    | markDelivered id => exact absurd (.delivered id) (h.ends reply rfl id .delivered)
    | remove id => exact absurd (.removed id) (h.ends reply rfl id .removed)
    | _ => exact ⟨rfl, rfl⟩

/-- A call that keeps the messages. -/
theorem Tallied.keep {call : StorageCall} (h : Tallied capacity calls q)
    (hids : q'.map (·.id) = q.map (·.id))
    (hstates : ∀ e ∈ q', e.state = FlashqState.pending.code ∨ e.state = FlashqState.inFlight.code ∨
      e.state = FlashqState.deadLetter.code) (hkeeps : call.Keeps) :
    Tallied capacity (calls ++ [call]) q' := by
  obtain ⟨hdelivers, hremoves⟩ := hkeeps.counts
  have haccepted : acceptedIds (calls ++ [call]) = acceptedIds calls := by
    rw [acceptedIds_snoc, hkeeps.accepts, Option.toList_none, List.append_nil]
  have hlen : q'.length = q.length := by
    simpa using congrArg List.length hids
  refine ⟨?_, ?_, ?_, hstates, hlen ▸ h.room⟩
  · rw [haccepted, hids]
    exact h.unique
  · rw [haccepted, hids]
    intro hu id
    rw [h.owed hu id, owed_snoc_iff, hkeeps.accepts]
    exact ⟨fun howed => .inl ⟨howed, fun reply hok => hkeeps.ends reply hok id⟩,
      fun howed => (howed.resolve_right nofun).1⟩
  · rw [haccepted, countP_snoc, countP_snoc, hdelivers, hremoves, hlen]
    exact h.total

/-- The entry of a message changes. -/
theorem Tallied.change {call : StorageCall} (h : Tallied capacity calls q) (pos : Nat)
    {f : Progress → Progress} (hf : ∀ p : Progress, (f p).state = p.state ∨
      (f p).state = FlashqState.pending.code ∨ (f p).state = FlashqState.inFlight.code ∨
      (f p).state = FlashqState.deadLetter.code) (hkeeps : call.Keeps) :
    Tallied capacity (calls ++ [call]) (q.modify pos (·.change f)) := by
  refine h.keep (map_modify_of_eq fun _ _ => rfl) (fun e he => ?_) hkeeps
  rcases mem_of_mem_modify he with he | ⟨b, hb, rfl⟩
  · exact h.states e he
  · rcases hf b.progress with hsame | hother
    · have hstate : (b.change f).state = b.state := hsame
      rw [hstate]
      exact h.states b (List.mem_of_getElem? hb)
    · exact hother

/-- A new message. -/
theorem Tallied.accept {message : EdgesyncMessage} (h : Tallied capacity calls q)
    (hroom : q.length < capacity) :
    Tallied capacity (calls ++ [(.enqueue message, .ok .done)]) (q ++ [message.entry]) := by
  have haccepted : acceptedIds (calls ++ [(.enqueue message, .ok .done)]) =
      acceptedIds calls ++ [message.id] := acceptedIds_snoc _ _
  refine ⟨fun hu => ?_, fun hu id => ?_, ?_, ?_, ?_⟩
  · rw [haccepted] at hu
    rw [List.map_append]
    refine (h.unique hu.of_append_left).append (List.nodup_singleton _) fun id hid hid' => ?_
    rw [List.map_singleton, List.mem_singleton] at hid'
    have hold := ((h.owed hu.of_append_left id).mp hid).accepted
    exact List.disjoint_of_nodup_append hu hold (by rw [hid']; exact List.mem_singleton_self _)
  · rw [haccepted] at hu
    rw [List.map_append, List.mem_append, h.owed hu.of_append_left id, owed_snoc_iff,
      List.map_singleton, List.mem_singleton]
    constructor
    · rintro (howed | rfl)
      · exact .inl ⟨howed, fun _ _ _ hretires => by cases hretires⟩
      · exact .inr rfl
    · rintro (⟨howed, _⟩ | hid)
      · exact .inl howed
      · exact .inr (Option.some.inj hid).symm
  · have hdelivers : StorageCall.delivers (.enqueue message, .ok .done) = false := rfl
    have hremoves : StorageCall.removes (.enqueue message, .ok .done) = false := rfl
    have := h.total
    rw [haccepted, countP_snoc, countP_snoc, List.length_append, List.length_append, hdelivers,
      hremoves]
    simp only [List.length_singleton, Bool.false_eq_true, if_false]
    omega
  · intro e he
    rcases List.mem_append.mp he with he | he
    · exact h.states e he
    · rw [List.mem_singleton.mp he]
      exact .inl rfl
  · rw [List.length_append]
    exact hroom

/-- A message that is done. -/
theorem Tallied.retire {newState : FlashqState} {pos : Nat} (h : Tallied capacity calls q)
    (retires : Retires op id newState) (found : findMeta q id = some pos) :
    Tallied capacity (calls ++ [(op, .ok .done)]) (swapRemove q pos) := by
  obtain ⟨e, he, hid⟩ := findPos_some found
  obtain rfl : e.id = id := eq_of_beq hid
  have hperm := (perm_swapRemove he).map (·.id)
  have hpos := (List.getElem?_eq_some_iff.mp he).1
  have haccepted : acceptedIds (calls ++ [(op, .ok .done)]) = acceptedIds calls := by
    rw [acceptedIds_snoc]
    cases retires <;> exact List.append_nil _
  have hnone : StorageCall.acceptedId? (op, .ok .done) = none := by cases retires <;> rfl
  refine ⟨fun hu => ?_, fun hu id => ?_, ?_, ?_, ?_⟩
  · rw [haccepted] at hu
    exact (hperm.nodup_iff.mp (h.unique hu)).of_cons
  · rw [haccepted] at hu
    have hnodup := hperm.nodup_iff.mp (h.unique hu)
    rw [List.map_cons, List.nodup_cons] at hnodup
    have hmem := hperm.mem_iff (a := id)
    rw [List.map_cons, List.mem_cons, h.owed hu id] at hmem
    rw [owed_snoc_iff, hnone, hmem]
    constructor
    · intro hid
      refine .inl ⟨.inr hid, fun reply _ newState' hretires => hnodup.1 ?_⟩
      obtain rfl : id = e.id := by cases retires <;> cases hretires <;> rfl
      exact hid
    · rintro (⟨rfl | hid, hkeeps⟩ | hid)
      · exact absurd retires (hkeeps .done rfl newState)
      · exact hid
      · cases hid
  · have hone : (if StorageCall.delivers (op, .ok .done) then 1 else 0) +
        (if StorageCall.removes (op, .ok .done) then 1 else 0) = 1 := by cases retires <;> rfl
    have := h.total
    rw [haccepted, countP_snoc, countP_snoc, length_swapRemove]
    omega
  · exact fun x hx => h.states x (mem_of_mem_swapRemove hx)
  · rw [length_swapRemove]
    exact (Nat.sub_le _ _).trans h.room

/-- Every call. -/
theorem Tallied.step (h : Tallied capacity calls q) (step : CallStep early capacity q op res q') :
    Tallied capacity (calls ++ [(op, res)]) q' := by
  cases step with
  | refused => exact h.keep rfl h.states (.error _ _)
  | enqueued room => exact h.accept room
  | claimed selected entry shows =>
    exact h.change _ (fun _ => .inr (.inr (.inl rfl))) ⟨rfl, fun _ _ _ _ hr => by cases hr⟩
  | claimLost isEarly selected =>
    exact h.change _ (fun _ => .inr (.inr (.inl rfl))) (.error _ _)
  | corrupt selected entry =>
    exact h.change _ (fun _ => .inr (.inr (.inr rfl))) ⟨rfl, fun _ _ _ _ hr => by cases hr⟩
  | corruptLost selected => exact h.change _ (fun _ => .inl rfl) (.error _ _)
  | retired retires found => exact h.retire retires found
  | @retried _ nextRetryTimeUs deadLetter lastError pos found =>
    refine h.change _ (fun p => ?_) ⟨rfl, fun _ _ _ _ hr => by cases hr⟩
    cases deadLetter
    · exact .inr (.inl rfl)
    · exact .inr (.inr (.inr rfl))
  | @retryLost _ nextRetryTimeUs deadLetter lastError pos err found =>
    refine h.change _ (fun p => ?_) (.error _ _)
    cases early
    · exact .inl rfl
    · cases deadLetter
      · exact .inr (.inl rfl)
      · exact .inr (.inr (.inr rfl))
  | candidate selected entry => exact h.keep rfl h.states ⟨rfl, fun _ _ _ _ hr => by cases hr⟩
  | stats => exact h.keep rfl h.states ⟨rfl, fun _ _ _ _ hr => by cases hr⟩

end Calls

/-! ## What the statistics count -/

namespace EdgesyncStats

/-- The messages that are counted. -/
def messages (stats : EdgesyncStats) : Nat :=
  stats.pendingMessages.toNat + stats.retryingMessages.toNat + stats.inFlightMessages.toNat +
    stats.deadLetterMessages.toNat

variable (stats : EdgesyncStats) {e : EntryMeta} {q : List EntryMeta}

/-- An entry in a known state is counted, with its payload. -/
theorem count_entry (hstate : e.state = FlashqState.pending.code ∨
      e.state = FlashqState.inFlight.code ∨ e.state = FlashqState.deadLetter.code)
    (hmessages : stats.messages + 1 < 2 ^ 32)
    (hbytes : stats.bytesQueued.toNat + e.payloadLen.toNat < 2 ^ 64) :
    (stats.count e).messages = stats.messages + 1 ∧
      (stats.count e).bytesQueued.toNat = stats.bytesQueued.toNat + e.payloadLen.toNat := by
  have hsum : (stats.bytesQueued + e.payloadLen.toUInt64).toNat =
      stats.bytesQueued.toNat + e.payloadLen.toNat := by
    rw [UInt64.toNat_add, UInt32.toNat_toUInt64, Nat.mod_eq_of_lt hbytes]
  have hsucc : ∀ n : UInt32, n.toNat + 1 < 2 ^ 32 → (n + 1).toNat = n.toNat + 1 := by
    intro n hn
    have hone : (1 : UInt32).toNat = 1 := rfl
    rw [UInt32.toNat_add, hone, Nat.mod_eq_of_lt hn]
  have hpending : FlashqState.inFlight.code ≠ FlashqState.pending.code ∧
      FlashqState.deadLetter.code ≠ FlashqState.pending.code ∧
      FlashqState.deadLetter.code ≠ FlashqState.inFlight.code := by decide
  simp only [messages] at hmessages ⊢
  unfold count
  obtain hstate | hstate | hstate := hstate
  · rw [if_pos hstate]
    split
    · refine ⟨?_, hsum⟩
      dsimp only
      rw [hsucc stats.pendingMessages (by omega)]
      omega
    · refine ⟨?_, hsum⟩
      dsimp only
      rw [hsucc stats.retryingMessages (by omega)]
      omega
  · rw [if_neg (hstate ▸ hpending.1), if_pos hstate]
    refine ⟨?_, hsum⟩
    dsimp only
    rw [hsucc stats.inFlightMessages (by omega)]
    omega
  · rw [if_neg (hstate ▸ hpending.2.1), if_neg (hstate ▸ hpending.2.2), if_pos hstate]
    refine ⟨?_, hsum⟩
    dsimp only
    rw [hsucc stats.deadLetterMessages (by omega)]
    omega

/-- All entries are counted. -/
theorem count_entries (hstates : ∀ e ∈ q, e.state = FlashqState.pending.code ∨
      e.state = FlashqState.inFlight.code ∨ e.state = FlashqState.deadLetter.code)
    (hmessages : stats.messages + q.length < 2 ^ 32)
    (hbytes : stats.bytesQueued.toNat + q.length * 2 ^ 32 < 2 ^ 64) :
    (q.foldl EdgesyncStats.count stats).messages = stats.messages + q.length ∧
      (q.foldl EdgesyncStats.count stats).bytesQueued.toNat =
        stats.bytesQueued.toNat + (q.map (·.payloadLen.toNat)).sum := by
  induction q generalizing stats with
  | nil => exact ⟨rfl, rfl⟩
  | cons e q ih =>
    rw [List.length_cons] at hmessages hbytes
    have hlen : e.payloadLen.toNat < 2 ^ 32 := e.payloadLen.toNat_lt
    obtain ⟨hone, hsum⟩ := count_entry stats (hstates e List.mem_cons_self) (by omega)
      (by omega)
    obtain ⟨hrest, hrestSum⟩ := ih (stats.count e)
      (fun x hx => hstates x (List.mem_cons_of_mem _ hx)) (by omega) (by omega)
    rw [List.foldl_cons, List.length_cons, List.map_cons, List.sum_cons]
    omega

end EdgesyncStats

/-! ## Runs -/

section Runs

variable {B : StorageBackend} {env : Env B.Call B.Dev B.Event} {cfg : StackConfig}
  {s s' : Tasks B} {labels : List TasksLabel} {label : TasksLabel}

theorem Tallied.calls {calls0 calls : List StorageCall} {ctx ctx' : B.Ctx} {dev dev' : B.Dev}
    (h : Tallied B.capacity calls0 (B.metas ctx)) (run : Calls B env ctx dev calls ctx' dev') :
    Tallied B.capacity (calls0 ++ calls) (B.metas ctx') := by
  induction run generalizing calls0 with
  | nil => rwa [List.append_nil]
  | cons run rest ih =>
    rw [List.append_cons]
    exact ih (h.step (B.step run))

/-- A publish delivers nothing. -/
theorem PublishCalls.delivers {policy : OverflowPolicy} {message : EdgesyncMessage}
    {calls : List StorageCall} {report : PublishReport}
    (made : PublishCalls policy message calls report) : calls.countP (·.delivers) = 0 := by
  cases made <;> rfl

theorem storageCalls_snoc (labels : List TasksLabel) (label : TasksLabel) :
    storageCalls (labels ++ [label]) = storageCalls labels ++ label.calls := by
  simp [storageCalls]

/-- What the queue counts and what its storage holds. -/
structure Tasks.Tallied (labels : List TasksLabel) (s : Tasks B) : Prop where
  index : EdgeSync.Tallied B.capacity (storageCalls labels) (B.metas s.ctx)
  deliveries : s.counters.successfulDeliveries =
    UInt64.ofNat ((storageCalls labels).countP (·.delivers))

theorem QueueCounters.after_delivers (counters : QueueCounters) (op : StorageOp)
    (res : Except EspErr StorageReply) {n : Nat}
    (h : counters.successfulDeliveries = UInt64.ofNat n) :
    (counters.after op res).successfulDeliveries =
      UInt64.ofNat (n + if StorageCall.delivers (op, res) then 1 else 0) := by
  unfold QueueCounters.after
  split
  · simp [h, StorageCall.delivers, UInt64.ofNat_add]
  · simp [h, StorageCall.delivers]
  · have hnot : StorageCall.delivers (op, res) = false := by
      unfold StorageCall.delivers
      split
      · simp_all
      · rfl
    simp [h, hnot]

theorem Tasks.Tallied.step (h : s.Tallied labels) (step : TasksStep env cfg s label s') :
    s'.Tallied (labels ++ [label]) := by
  -- a step without storage calls
  have hquiet : label.calls = [] → B.metas s'.ctx = B.metas s.ctx →
      s'.counters = s.counters → s'.Tallied (labels ++ [label]) := by
    intro hcalls hmetas hcounters
    refine ⟨?_, ?_⟩
    · rw [storageCalls_snoc, hcalls, List.append_nil, hmetas]
      exact h.index
    · rw [storageCalls_snoc, hcalls, List.append_nil, hcounters]
      exact h.deliveries
  -- storage calls that deliver nothing
  have hcalls : ∀ {ctx' dev'}, Calls B env s.ctx s.dev label.calls ctx' dev' →
      label.calls.countP (·.delivers) = 0 → B.metas s'.ctx = B.metas ctx' →
      s'.counters = s.counters → s'.Tallied (labels ++ [label]) := by
    intro ctx' dev' run hnone hmetas hcounters
    refine ⟨?_, ?_⟩
    · rw [storageCalls_snoc, hmetas]
      exact h.index.calls run
    · rw [storageCalls_snoc, List.countP_append, hnone, Nat.add_zero, hcounters]
      exact h.deliveries
  cases step with
  | publish idle run made => exact hcalls run made.delivers rfl rfl
  | publisherFires fires => exact hquiet rfl rfl rfl
  | wake wakes => exact hquiet rfl rfl rfl
  | claim ready run => exact hcalls (.cons run .nil) rfl rfl rfl
  | take rests => exact hquiet rfl rfl rfl
  | woken blocked notified => exact hquiet rfl rfl rfl
  | timeout blocked => exact hquiet rfl rfl rfl
  | deliver delivers => exact hquiet rfl rfl rfl
  | @settle op events res ctx' dev' settles run =>
    refine ⟨?_, ?_⟩
    · rw [storageCalls_snoc]
      exact h.index.calls (.cons run .nil)
    · rw [storageCalls_snoc]
      show (s.counters.after op res).successfulDeliveries = _
      rw [QueueCounters.after_delivers _ op res h.deliveries]
      exact congrArg UInt64.ofNat (countP_snoc _ _ _).symm
  | workerFires fires => exact hquiet rfl rfl rfl
  | stats run => exact hcalls (.cons run .nil) rfl rfl rfl

/-- What the statistics account for: every accepted message is counted once, and the
payloads of the index are summed up. -/
structure Accounts (calls : List StorageCall) (q : List EntryMeta) (stats : QueueStats) : Prop where
  balance : stats.messages + calls.countP (·.delivers) + calls.countP (·.removes) =
    (acceptedIds calls).length
  deliveries : stats.successfulDeliveries = UInt64.ofNat (calls.countP (·.delivers))
  bytes : stats.bytesQueued.toNat = (q.map (·.payloadLen.toNat)).sum

/-- `edgesync_queue_get_stats` hands out what the storage counted. -/
theorem TasksStep.stats_counted {res : Except EspErr StorageReply} {stats : QueueStats}
    (step : TasksStep env cfg s (.stats res stats) s') : ∃ stored, res = .ok (.stats stored) ∧
      StatsAgree stored ((B.metas s.ctx).foldl EdgesyncStats.count {}) ∧
      stats = s.counters.stats (.ok (.stats stored)) := by
  cases step with
  | stats run =>
    cases res with
    | error err => exact (leaves_sound run (B.stats_counted {} s.ctx)).elim
    | ok reply =>
      obtain ⟨-, stored, rfl, hcounted⟩ := leaves_sound run (B.stats_counted {} s.ctx)
      exact ⟨stored, rfl, hcounted, rfl⟩

theorem Tasks.Tallied.accounts (h : s.Tallied labels) {res : Except EspErr StorageReply}
    {stats : QueueStats} (step : TasksStep env cfg s (.stats res stats) s') :
    Accounts (storageCalls labels) (B.metas s.ctx) stats := by
  obtain ⟨stored, -, hcounted, rfl⟩ := step.stats_counted
  have hlen := h.index.room
  have hcap := B.capacity_lt
  have hzero : ({} : EdgesyncStats).messages = 0 ∧ ({} : EdgesyncStats).bytesQueued.toNat = 0 :=
    ⟨rfl, rfl⟩
  obtain ⟨hmessages, hbytes⟩ := EdgesyncStats.count_entries {} h.index.states
    (by omega) (by omega)
  rw [hzero.1, Nat.zero_add] at hmessages
  rw [hzero.2, Nat.zero_add] at hbytes
  refine ⟨?_, h.deliveries, ?_⟩
  · rw [← h.index.total, ← hmessages]
    simp only [EdgesyncStats.messages, QueueCounters.stats, hcounted.pending, hcounted.retrying,
      hcounted.inFlight, hcounted.deadLetter]
  · rw [← hbytes]
    exact congrArg UInt64.toNat hcounted.bytesQueued

/-- Tasks that start with an empty index. -/
theorem tallied_run {ctx : B.Ctx} {dev : B.Dev} (hempty : B.metas ctx = [])
    (run : StepRun (TasksStep env cfg) (.start ctx dev) labels s) : s.Tallied labels := by
  refine run.invariant (I := fun labels s => s.Tallied labels) ⟨?_, rfl⟩ fun _ _ _ _ h step => h.step step
  show EdgeSync.Tallied B.capacity [] (B.metas ctx)
  rw [hempty]
  exact tallied_nil _

/-- The tasks' storage calls are a run of the storage. -/
theorem Calls.storageRun {W : StorageWorld B} {ctx ctx' : B.Ctx} {dev dev' : B.Dev}
    {calls : List StorageCall} (run : Calls B W.calls ctx dev calls ctx' dev') :
    StorageRun B W (.on ctx dev) (calls.map (·.label)) (.on ctx' dev') := by
  induction run with
  | nil => exact .nil
  | cons run rest ih => exact StorageRun.append (.snoc .nil (.call run)) ih

theorem TasksStep.storageRun {W : StorageWorld B} (step : TasksStep W.calls cfg s label s') :
    StorageRun B W (.on s.ctx s.dev) (label.calls.map (·.label)) (.on s'.ctx s'.dev) := by
  cases step with
  | publish idle run made => exact run.storageRun
  | claim ready run => exact Calls.storageRun (.cons run .nil)
  | settle settles run => exact Calls.storageRun (.cons run .nil)
  | stats run => exact Calls.storageRun (.cons run .nil)
  | _ => exact .nil

theorem tasks_storageRun {W : StorageWorld B} {s0 : Tasks B}
    (run : StepRun (TasksStep W.calls cfg) s0 labels s) :
    StorageRun B W (.on s0.ctx s0.dev) ((storageCalls labels).map (·.label)) (.on s.ctx s.dev) := by
  induction run with
  | nil => exact .nil
  | snoc run step ih =>
    rw [storageCalls_snoc, List.map_append]
    exact ih.append step.storageRun

end Runs

/-- The garbage of the flash queue is what its statistics say. -/
theorem garbage_accounted {fcfg : FlashqConfig} {cfg : StackConfig} {ctx0 : FlashqCtx} {m0 : Memory}
    {labels : List TasksLabel} {s : Tasks (flashqBackend fcfg)}
    (boot : FlashqStep fcfg quietWorld (.off erasedFlash) .booted (.on ctx0 m0))
    (run : StepRun (TasksStep calmEnv cfg) (.start ctx0 m0) labels s)
    (hu : (publishedIds ((storageCalls labels).map (·.label))).Nodup)
    (hfit : AllFit fcfg ((storageCalls labels).map (·.label))) :
    ∃ recs, Log fcfg (view fcfg s.dev s.ctx.activeRegion) dataStart recs s.ctx.cursor ∧
      acceptAt fcfg (view fcfg s.dev s.ctx.activeRegion) s.ctx.cursor = none ∧
      s.ctx.awaitingGcCount.toNat = (awaitingGc recs (s.ctx.index.map (·.id))).length := by
  have hrun : FlashqRun fcfg quietWorld (.on ctx0 m0) _ (.on s.ctx s.dev) :=
    (tasks_storageRun (W := quietWorld.storage fcfg) run).flashq
  have hcalls : OnlyCalls ((storageCalls labels).map (·.label)) := by
    intro label hlabel
    obtain ⟨call, -, rfl⟩ := List.mem_map.mp hlabel
    exact ⟨call.1, call.2, rfl⟩
  obtain ⟨recs, hcollected⟩ := collected_run boot hrun hcalls hu hfit
  exact ⟨recs, hcollected.base.log, (quiet fcfg).tail_stop hcollected.base.tail,
    hcollected.awaitingGcCount⟩

/-- From an empty index on, whatever the storage primitives report: the index holds each
message that was accepted and neither delivered nor removed, once, and the statistics
account for every accepted message.  Where no flash primitive failed, the flash queue
reports the MESSAGE records of its log whose message is no longer indexed. -/
theorem index_accounts :
    (∀ (B : StorageBackend) (env : Env B.Call B.Dev B.Event) (cfg : StackConfig) (ctx : B.Ctx)
        (dev : B.Dev) (labels : List TasksLabel) (s : Tasks B), B.metas ctx = [] →
      StepRun (TasksStep env cfg) (.start ctx dev) labels s →
      ((acceptedIds (storageCalls labels)).Nodup → ((B.metas s.ctx).map (·.id)).Nodup ∧
        ∀ id, id ∈ (B.metas s.ctx).map (·.id) ↔ Owed (storageCalls labels) id) ∧
      ∀ res stats s', TasksStep env cfg s (.stats res stats) s' →
        Accounts (storageCalls labels) (B.metas s.ctx) stats) ∧
    (∀ (fcfg : FlashqConfig) (cfg : StackConfig) (ctx0 : FlashqCtx) (m0 : Memory)
        (labels : List TasksLabel) (s : Tasks (flashqBackend fcfg)),
      FlashqStep fcfg quietWorld (.off erasedFlash) .booted (.on ctx0 m0) →
      StepRun (TasksStep calmEnv cfg) (.start ctx0 m0) labels s →
      (publishedIds ((storageCalls labels).map (·.label))).Nodup →
      AllFit fcfg ((storageCalls labels).map (·.label)) →
      ∃ recs, Log fcfg (view fcfg s.dev s.ctx.activeRegion) dataStart recs s.ctx.cursor ∧
        acceptAt fcfg (view fcfg s.dev s.ctx.activeRegion) s.ctx.cursor = none ∧
        ∀ res stats s', TasksStep calmEnv cfg s (.stats res stats) s' →
          stats.deliveredAwaitingGc.toNat = (awaitingGc recs (s.ctx.index.map (·.id))).length) := by
  constructor
  · intro B env cfg ctx dev labels s hempty run
    have h := tallied_run hempty run
    exact ⟨fun hu => ⟨h.index.unique hu, h.index.owed hu⟩, fun _ _ _ step => h.accounts step⟩
  · intro fcfg cfg ctx0 m0 labels s boot run hu hfit
    obtain ⟨recs, hlog, hstop, hcount⟩ := garbage_accounted boot run hu hfit
    refine ⟨recs, hlog, hstop, fun res stats s' step => ?_⟩
    cases step with
    | @stats _ ctx' dev' srun =>
      cases res with
      | error err => exact (leaves_sound srun (leaves_flashqGetStats fcfg {} s.ctx)).elim
      | ok reply =>
        obtain ⟨-, stored, rfl, -, hgc⟩ := leaves_sound srun (leaves_flashqGetStats fcfg {} s.ctx)
        rw [← hcount, ← hgc]
        rfl

/-- A message is published and delivered on the NVS backend, and published on flash. -/
theorem index_accounts_first :
    (∃ labels s, StepRun (TasksStep quietStore ⟨.rejectNew, ⟨100, 1000, 2, false, 3⟩⟩)
        (.start (NvsCtx.fresh smallStore) emptyStore : Tasks (nvsBackend noUsage smallStore))
        labels s ∧
      (acceptedIds (storageCalls labels) = [7] ∧
        (storageCalls labels).countP (·.delivers) = 1) ∧
      ∀ id, id ∈ (NvsCtx.metas s.ctx).map (·.id) ↔ Owed (storageCalls labels) id) ∧
    ∃ ctx0 m0 labels s recs,
      StepRun (TasksStep calmEnv ⟨.rejectNew, ⟨100, 1000, 2, false, 3⟩⟩)
        (.start ctx0 m0 : Tasks (flashqBackend smallConfig)) labels s ∧
      acceptedIds (storageCalls labels) = [7] ∧
      Log smallConfig (view smallConfig s.dev s.ctx.activeRegion) dataStart recs s.ctx.cursor := by
  constructor
  · have hplay : ((Tasks.start (NvsCtx.fresh smallStore) emptyStore :
        Tasks (nvsBackend noUsage smallStore)).play ⟨.rejectNew, ⟨100, 1000, 2, false, 3⟩⟩
        [(.publish 0 retriedMessage, []), (.claim 9, []), (.deliver .success 10 0, []),
          (.settle, [])] []).any (fun (labels, _) =>
          decide (acceptedIds (storageCalls labels) = [7] ∧
            (storageCalls labels).countP (·.delivers) = 1)) = true := by
      decide +kernel
    obtain ⟨labels, s, run, htest⟩ := Tasks.play_passes quietStore (fun _ _ => rfl)
      (eventsIn_nil (by decide)) hplay
    have hcounts := of_decide_eq_true htest
    refine ⟨labels, s, run, hcounts, ?_⟩
    exact ((index_accounts.1 _ _ _ _ _ labels s rfl run).1
      (by rw [hcounts.1]; exact List.nodup_singleton _)).2
  · obtain ⟨ctx, m, boot, hcore, b⟩ := quiet_boot smallConfig
    have hindex : ctx.index = [] := congrArg Core.index hcore
    obtain ⟨ctx1, m1, recs1, step, -, -⟩ := quiet_enqueue b retriedMessage_fits
      ⟨by decide, by decide⟩ (by rw [hindex]; decide) (by rw [hindex]; decide)
    cases step with
    | returned hrun =>
      have run : StepRun (TasksStep calmEnv ⟨.rejectNew, ⟨100, 1000, 2, false, 3⟩⟩)
          (.start ctx m : Tasks (flashqBackend smallConfig))
          ([] ++ [.publish 0 retriedMessage [(.enqueue retriedMessage, .ok .done)] ⟨.ok (), none⟩])
          _ := .snoc .nil (.publish rfl (.cons hrun .nil) .accepted)
      obtain ⟨recs, hlog, -, -⟩ := index_accounts.2 _ _ _ _ _ _ boot run (by decide) (by decide)
      exact ⟨ctx, m, _, _, recs, run, rfl, hlog⟩

end EdgeSync
