/-
  Transport/Mqtt.lean --- the MQTT transport (`edgesync_mqtt.c`).

  `op_deliver` resets a queue of one slot, publishes and waits for the slot; the task
  of the MQTT client overwrites the slot with every acknowledgement.  The client is
  outside: what its publish returns and which acknowledgements arrive is open.
-/
import EdgeSync.Foundation.Runs
import EdgeSync.Types
import Mathlib.Logic.Function.Basic

set_option autoImplicit false

namespace EdgeSync

open Foundation

/-- `EDGESYNC_MQTT_MAX_TOPIC_LEN`. -/
def mqttMaxTopicLen : Nat := 256

/-- What `op_deliver` builds its topic from. -/
structure MqttConfig where
  baseTopic : Bytes
  noAppendDestination : Bool

/-- The topic of a message, where it fits. -/
def MqttConfig.topic (cfg : MqttConfig) (destination : Bytes) : Option Bytes :=
  if cfg.noAppendDestination then some ((cString cfg.baseTopic).take (mqttMaxTopicLen - 1))
  else
    let topic := cString cfg.baseTopic ++ 0x2F :: cString destination
    if topic.length < mqttMaxTopicLen then some topic else none

/-- A call of `op_deliver`.  The last four fields say what became of it. -/
structure MqttDelivery where
  /-- what the publish returned, where it succeeded -/
  msgId : Option Int
  /-- the acknowledgement the wait took -/
  taken : Option Int
  /-- the acknowledgements posted after the reset and before the timeout, newest first -/
  posted : List Int
  /-- no acknowledgement counts any more: the timeout is over -/
  closed : Bool
  result : Option DeliveryResult
  deriving DecidableEq

/-- A delivery that has not begun. -/
def MqttDelivery.fresh : MqttDelivery where
  msgId := none
  taken := none
  posted := []
  closed := true
  result := none

/-- Where the task that delivers is. -/
inductive MqttPhase where
  | idle
  /-- delivery `i` has reset the queue -/
  | publishing (i : Nat)
  /-- delivery `i` waits on the queue -/
  | waiting (i : Nat) (msgId : Int)
  deriving DecidableEq

/-- The transport, with all its deliveries. -/
structure MqttTransport where
  ackQueue : Option Int
  phase : MqttPhase
  deliveries : Nat → MqttDelivery
  started : Nat

def MqttTransport.initial : MqttTransport where
  ackQueue := none
  phase := .idle
  deliveries := fun _ => .fresh
  started := 0

/-- What happens. -/
inductive MqttLabel where
  /-- `op_deliver` begins: the topic is built, the queue is reset -/
  | deliver (destination : Bytes)
  /-- `esp_mqtt_client_publish` returns -/
  | publish (res : Int)
  /-- `MQTT_EVENT_PUBLISHED` -/
  | post (msgId : Int)
  /-- `xQueueReceive` finds an acknowledgement -/
  | receive
  /-- the timeout of delivery `i` is over -/
  | expire (i : Nat)
  deriving DecidableEq

/-- Change a delivery. -/
def MqttTransport.setDelivery (s : MqttTransport) (i : Nat) (d : MqttDelivery) : MqttTransport :=
  { s with deliveries := Function.update s.deliveries i d }

/-- An acknowledgement arrives within the timeout, or too late. -/
def MqttDelivery.post (d : MqttDelivery) (msgId : Int) : MqttDelivery :=
  if d.closed then d else { d with posted := msgId :: d.posted }

/-- The step with this label, where the state permits it. -/
def MqttTransport.next (cfg : MqttConfig) (s : MqttTransport) : MqttLabel → Option MqttTransport
  | .deliver destination =>
      match s.phase with
      | .idle =>
          match cfg.topic destination with
          | none => some { s with
              deliveries := Function.update s.deliveries s.started
                { MqttDelivery.fresh with result := some .permanentFailure }
              started := s.started + 1 }
          | some _ => some { s with
              ackQueue := none
              phase := .publishing s.started
              deliveries := Function.update s.deliveries s.started
                { MqttDelivery.fresh with closed := false }
              started := s.started + 1 }
      | _ => none
  | .publish res =>
      match s.phase with
      | .publishing i =>
          if res < 0 then
            some ({ s with phase := .idle }.setDelivery i
              { s.deliveries i with closed := true, result := some .retryableFailure })
          else
            some ({ s with phase := .waiting i res }.setDelivery i
              { s.deliveries i with msgId := some res })
      | _ => none
  | .post msgId => some { s with
      ackQueue := some msgId
      deliveries := fun i => (s.deliveries i).post msgId }
  | .receive =>
      match s.phase, s.ackQueue with
      | .waiting i msgId, some ackedId =>
          let result := if ackedId = msgId then .success else .retryableFailure
          some ({ s with phase := .idle, ackQueue := none }.setDelivery i
            { s.deliveries i with taken := some ackedId, result := some result })
      | _, _ => none
  | .expire i =>
      if s.started ≤ i ∨ (s.deliveries i).closed then none
      else match s.phase with
        | .idle => some (s.setDelivery i { s.deliveries i with closed := true })
        | .publishing j =>
            if i = j then none
            else some (s.setDelivery i { s.deliveries i with closed := true })
        | .waiting j _ =>
            if i = j then
              if s.ackQueue = none then
                some ({ s with phase := .idle }.setDelivery i
                  { s.deliveries i with closed := true, result := some .retryableFailure })
              else none
            else some (s.setDelivery i { s.deliveries i with closed := true })

/-- One step. -/
def MqttStep (cfg : MqttConfig) (s : MqttTransport) (label : MqttLabel) (s' : MqttTransport) :
    Prop :=
  s.next cfg label = some s'

/-- After its timeout, a delivery is a success when and only when its own
acknowledgement was posted in time. -/
def MqttDelivery.Matched (d : MqttDelivery) : Prop :=
  d.closed = true → (d.result = some .success ↔ ∃ msgId, d.msgId = some msgId ∧ msgId ∈ d.posted)

/-- The wait took another acknowledgement, and the own one was posted in time. -/
def MqttDelivery.Overtaken (d : MqttDelivery) : Prop :=
  ∃ msgId ackedId, d.msgId = some msgId ∧ d.taken = some ackedId ∧ ackedId ≠ msgId ∧
    msgId ∈ d.posted

/-- What a delivery records. -/
structure MqttDelivery.Recorded (d : MqttDelivery) : Prop where
  success : d.result = some .success → ∃ msgId, d.msgId = some msgId ∧ d.taken = some msgId
  taken : ∀ msgId, d.msgId = some msgId → d.taken = some msgId →
    d.result = some .success ∧ msgId ∈ d.posted
  missed : d.closed = true → d.taken = none → ∀ msgId, d.msgId = some msgId → msgId ∉ d.posted

/-- A delivery that runs: the queue holds the newest acknowledgement since its reset. -/
structure MqttDelivery.Open (d : MqttDelivery) (ackQueue : Option Int) : Prop where
  taken : d.taken = none
  closed : d.closed = false
  result : d.result = none
  newest : ackQueue = d.posted.head?

/-- What every step keeps. -/
structure MqttTransport.Recorded (s : MqttTransport) : Prop where
  each : ∀ i, (s.deliveries i).Recorded
  publishing : ∀ i, s.phase = .publishing i → (s.deliveries i).Open s.ackQueue ∧
    (s.deliveries i).msgId = none
  waiting : ∀ i msgId, s.phase = .waiting i msgId → (s.deliveries i).Open s.ackQueue ∧
    (s.deliveries i).msgId = some msgId
  returned : ∀ i, (s.deliveries i).closed = false → (s.deliveries i).taken = none →
    s.phase = .publishing i ∨ ∃ msgId, s.phase = .waiting i msgId
  begun : ∀ i, (s.deliveries i).closed = false → i < s.started

/-- The condition is exact for a delivery. -/
theorem MqttDelivery.Recorded.matched_iff {d : MqttDelivery} (recorded : d.Recorded)
    (hclosed : d.closed = true) : d.Matched ↔ ¬ d.Overtaken := by
  constructor
  · rintro hmatched ⟨msgId, ackedId, hid, htaken, hne, hposted⟩
    obtain ⟨msgId', hid', htaken'⟩ := recorded.success ((hmatched hclosed).mpr ⟨msgId, hid, hposted⟩)
    rw [hid] at hid'
    rw [htaken, ← hid'] at htaken'
    exact hne (Option.some.inj htaken')
  · intro hnot _
    constructor
    · intro hsuccess
      obtain ⟨msgId, hid, htaken⟩ := recorded.success hsuccess
      exact ⟨msgId, hid, (recorded.taken msgId hid htaken).2⟩
    · rintro ⟨msgId, hid, hposted⟩
      cases htaken : d.taken with
      | none => exact absurd hposted (recorded.missed hclosed htaken msgId hid)
      | some ackedId =>
        by_cases heq : ackedId = msgId
        · exact (recorded.taken msgId hid (heq ▸ htaken)).1
        · exact absurd ⟨msgId, ackedId, hid, htaken, heq, hposted⟩ hnot

/-! ## What the steps keep -/

section Recorded

variable {cfg : MqttConfig} {s s' : MqttTransport} {label : MqttLabel} {i : Nat} {d : MqttDelivery}

theorem MqttDelivery.recorded_fresh (closed : Bool) {result : Option DeliveryResult}
    (hresult : result ≠ some .success) :
    ({ MqttDelivery.fresh with closed, result } : MqttDelivery).Recorded :=
  ⟨fun h => absurd h hresult, nofun, nofun⟩

/-- A delivery that is not open may be closed. -/
theorem MqttDelivery.Recorded.close (recorded : d.Recorded)
    (hmissed : d.taken = none → ∀ msgId, d.msgId = some msgId → msgId ∉ d.posted)
    (result : Option DeliveryResult) (hresult : result = d.result ∨
      (result ≠ some .success ∧ d.taken = none)) :
    ({ d with closed := true, result } : MqttDelivery).Recorded := by
  obtain rfl | ⟨hne, htaken⟩ := hresult
  · exact ⟨recorded.success, recorded.taken, fun _ => hmissed⟩
  · refine ⟨fun h => absurd h hne, fun msgId _ h => ?_, fun _ => hmissed⟩
    have hsome : d.taken = some msgId := h
    rw [htaken] at hsome
    cases hsome

theorem MqttDelivery.Recorded.post (recorded : d.Recorded) (msgId : Int) :
    (d.post msgId).Recorded := by
  unfold MqttDelivery.post
  split
  case isTrue => exact recorded
  case isFalse hopen =>
    refine ⟨recorded.success, fun id hid htaken => ?_, fun hclosed => absurd hclosed hopen⟩
    obtain ⟨hsuccess, hposted⟩ := recorded.taken id hid htaken
    exact ⟨hsuccess, List.mem_cons_of_mem _ hposted⟩

theorem MqttDelivery.post_closed (d : MqttDelivery) (msgId : Int) :
    (d.post msgId).closed = d.closed ∧ (d.post msgId).taken = d.taken := by
  unfold MqttDelivery.post
  split <;> exact ⟨rfl, rfl⟩

theorem MqttDelivery.Open.post {ackQueue : Option Int} (running : d.Open ackQueue) (msgId : Int) :
    (d.post msgId).Open (some msgId) ∧ (d.post msgId).msgId = d.msgId := by
  have hpost : d.post msgId = { d with posted := msgId :: d.posted } := by
    simp [MqttDelivery.post, running.closed]
  rw [hpost]
  exact ⟨⟨running.taken, running.closed, running.result, rfl⟩, rfl⟩

/-- The delivery the wait belongs to takes the newest acknowledgement. -/
theorem MqttDelivery.Open.receive {msgId ackedId : Int} (running : d.Open (some ackedId))
    (hid : d.msgId = some msgId) :
    MqttDelivery.Recorded { d with
      taken := some ackedId
      result := some (if ackedId = msgId then .success else .retryableFailure) } where
  success := fun h => by
    have hsuccess : (if ackedId = msgId then DeliveryResult.success else .retryableFailure) =
      .success := Option.some.inj h
    split at hsuccess
    case isTrue heq => exact ⟨msgId, hid, by rw [heq]⟩
    case isFalse => cases hsuccess
  taken := fun id hid' htaken => by
    obtain rfl : msgId = id := Option.some.inj (hid.symm.trans hid')
    obtain rfl : ackedId = msgId := Option.some.inj htaken
    exact ⟨by simp, List.mem_of_mem_head? running.newest.symm⟩
  missed := fun _ h => by cases h

/-- The delivery that ran returns; or another one changes while nobody delivers. -/
theorem MqttTransport.Recorded.update {ackQueue : Option Int} {started : Nat}
    (recorded : s.Recorded) (hd : d.Recorded)
    (hdone : d.closed = false → d.taken ≠ none ∧ i < s.started) (hstarted : s.started ≤ started)
    (hran : ∀ j, s.phase = .publishing j ∨ (∃ msgId, s.phase = .waiting j msgId) → j = i) :
    MqttTransport.Recorded
      { ackQueue, phase := .idle, deliveries := Function.update s.deliveries i d, started } where
  each j := by
    by_cases hj : j = i
    · subst hj
      simpa using hd
    · simpa [Function.update_of_ne hj] using recorded.each j
  publishing := by simp
  waiting := by simp
  returned j hopen htaken := by
    by_cases hj : j = i
    · subst hj
      simp only [Function.update_self] at hopen htaken
      exact absurd htaken (hdone hopen).1
    · simp only [Function.update_of_ne hj] at hopen htaken
      exact absurd (hran j (recorded.returned j hopen htaken)) hj
  begun j hopen := by
    refine Nat.lt_of_lt_of_le ?_ hstarted
    by_cases hj : j = i
    · subst hj
      simp only [Function.update_self] at hopen
      exact (hdone hopen).2
    · simp only [Function.update_of_ne hj] at hopen
      exact recorded.begun j hopen

/-- The timeout of another delivery than the running one is over. -/
theorem MqttTransport.Recorded.close_other (recorded : s.Recorded)
    (hopen : (s.deliveries i).closed = false)
    (hother : ¬ (s.phase = .publishing i ∨ ∃ msgId, s.phase = .waiting i msgId)) :
    (s.setDelivery i { s.deliveries i with closed := true }).Recorded where
  each j := by
    by_cases hj : j = i
    · subst hj
      simp only [MqttTransport.setDelivery, Function.update_self]
      exact (recorded.each j).close (fun htaken => absurd (recorded.returned j hopen htaken) hother)
        _ (.inl rfl)
    · simpa [MqttTransport.setDelivery, Function.update_of_ne hj] using recorded.each j
  publishing j hj := by
    have hne : j ≠ i := by
      rintro rfl
      exact hother (.inl hj)
    simpa [MqttTransport.setDelivery, Function.update_of_ne hne] using recorded.publishing j hj
  waiting j msgId hj := by
    have hne : j ≠ i := by
      rintro rfl
      exact hother (.inr ⟨msgId, hj⟩)
    simpa [MqttTransport.setDelivery, Function.update_of_ne hne] using recorded.waiting j msgId hj
  returned j hclosed htaken := by
    by_cases hj : j = i
    · subst hj
      simp [MqttTransport.setDelivery] at hclosed
    · simp only [MqttTransport.setDelivery, Function.update_of_ne hj] at hclosed htaken
      exact recorded.returned j hclosed htaken
  begun j hclosed := by
    by_cases hj : j = i
    · subst hj
      exact recorded.begun j hopen
    · simp only [MqttTransport.setDelivery, Function.update_of_ne hj] at hclosed
      exact recorded.begun j hclosed

theorem MqttTransport.Recorded.deliver {destination : Bytes} (recorded : s.Recorded)
    (step : MqttStep cfg s (.deliver destination) s') : s'.Recorded := by
  simp only [MqttStep, MqttTransport.next] at step
  split at step
  case h_2 => cases step
  case h_1 hidle =>
    split at step
    case h_1 =>
      cases step
      rw [hidle]
      refine recorded.update (MqttDelivery.recorded_fresh true ?_) ?_ (Nat.le_succ _) (by simp [hidle])
      · nofun
      · nofun
    case h_2 =>
      cases step
      exact {
        each := fun j => by
          by_cases hj : j = s.started
          · subst hj
            simp only [Function.update_self]
            exact MqttDelivery.recorded_fresh false nofun
          · simpa [Function.update_of_ne hj] using recorded.each j
        publishing := fun j hj => by
          obtain rfl : s.started = j := by simpa using hj
          simp only [Function.update_self]
          exact ⟨⟨rfl, rfl, rfl, rfl⟩, rfl⟩
        waiting := by simp
        returned := fun j hopen htaken => by
          by_cases hj : j = s.started
          · exact .inl (by rw [hj])
          · simp only [Function.update_of_ne hj] at hopen htaken
            have hrunning := recorded.returned j hopen htaken
            simp [hidle] at hrunning
        begun := fun j hopen => by
          by_cases hj : j = s.started
          · exact hj ▸ Nat.lt_succ_self _
          · simp only [Function.update_of_ne hj] at hopen
            exact Nat.lt_succ_of_lt (recorded.begun j hopen) }

theorem MqttTransport.Recorded.publish {res : Int} (recorded : s.Recorded)
    (step : MqttStep cfg s (.publish res) s') : s'.Recorded := by
  simp only [MqttStep, MqttTransport.next] at step
  split at step
  case h_2 => cases step
  case h_1 j hpublishing =>
    obtain ⟨running, hid⟩ := recorded.publishing j hpublishing
    split at step
    case isTrue =>
      cases step
      refine recorded.update ((recorded.each j).close ?_ _ (.inr ⟨?_, running.taken⟩)) nofun
        (Nat.le_refl _) ?_
      · rintro - msgId h
        rw [hid] at h
        cases h
      · nofun
      · rintro k (hk | ⟨msgId, hk⟩)
        · rw [hpublishing] at hk
          exact (MqttPhase.publishing.inj hk).symm
        · rw [hpublishing] at hk
          cases hk
    case isFalse =>
      cases step
      exact {
        each := fun k => by
          by_cases hk : k = j
          · subst hk
            simp only [MqttTransport.setDelivery, Function.update_self]
            refine ⟨fun h => ?_, fun msgId _ h => ?_, fun h => ?_⟩
            · rw [running.result] at h
              cases h
            · rw [running.taken] at h
              cases h
            · rw [running.closed] at h
              cases h
          · simpa [MqttTransport.setDelivery, Function.update_of_ne hk] using recorded.each k
        publishing := by simp [MqttTransport.setDelivery]
        waiting := fun k msgId hk => by
          obtain ⟨rfl, rfl⟩ : j = k ∧ res = msgId := by simpa [MqttTransport.setDelivery] using hk
          simp only [MqttTransport.setDelivery, Function.update_self, and_true]
          exact ⟨running.taken, running.closed, running.result, running.newest⟩
        returned := fun k hopen htaken => by
          by_cases hk : k = j
          · exact .inr ⟨res, by rw [hk]; rfl⟩
          · simp only [MqttTransport.setDelivery, Function.update_of_ne hk] at hopen htaken
            have hrunning := recorded.returned k hopen htaken
            simp only [hpublishing, MqttPhase.publishing.injEq, reduceCtorEq, exists_false,
              or_false] at hrunning
            exact absurd hrunning.symm hk
        begun := fun k hopen => by
          by_cases hk : k = j
          · exact hk ▸ recorded.begun j running.closed
          · simp only [MqttTransport.setDelivery, Function.update_of_ne hk] at hopen
            exact recorded.begun k hopen }

theorem MqttTransport.Recorded.post {msgId : Int} (recorded : s.Recorded)
    (step : MqttStep cfg s (.post msgId) s') : s'.Recorded := by
  simp only [MqttStep, MqttTransport.next] at step
  cases step
  exact {
    each := fun j => (recorded.each j).post msgId
    publishing := fun j hj => by
      obtain ⟨running, hid⟩ := recorded.publishing j hj
      obtain ⟨running', hid'⟩ := running.post msgId
      exact ⟨running', hid'.trans hid⟩
    waiting := fun j id hj => by
      obtain ⟨running, hid⟩ := recorded.waiting j id hj
      obtain ⟨running', hid'⟩ := running.post msgId
      exact ⟨running', hid'.trans hid⟩
    returned := fun j hopen htaken => by
      obtain ⟨hclosed, htaken'⟩ := (s.deliveries j).post_closed msgId
      exact recorded.returned j (hclosed ▸ hopen) (htaken' ▸ htaken)
    begun := fun j hopen => recorded.begun j (((s.deliveries j).post_closed msgId).1 ▸ hopen) }

theorem MqttTransport.Recorded.receive (recorded : s.Recorded)
    (step : MqttStep cfg s .receive s') : s'.Recorded := by
  simp only [MqttStep, MqttTransport.next] at step
  split at step
  case h_2 => cases step
  case h_1 j msgId ackedId hwaiting hack =>
    cases step
    obtain ⟨running, hid⟩ := recorded.waiting j msgId hwaiting
    rw [hack] at running
    refine recorded.update (running.receive hid) (fun hopen => ⟨nofun, recorded.begun j hopen⟩)
      (Nat.le_refl _) ?_
    rintro k (hk | ⟨id, hk⟩)
    · rw [hwaiting] at hk
      cases hk
    · rw [hwaiting] at hk
      exact (MqttPhase.waiting.inj hk).1.symm

theorem MqttTransport.Recorded.expire (recorded : s.Recorded)
    (step : MqttStep cfg s (.expire i) s') : s'.Recorded := by
  simp only [MqttStep, MqttTransport.next] at step
  split at step
  case isTrue => cases step
  case isFalse hnot =>
    have hopen : (s.deliveries i).closed = false := by
      simpa using fun hclosed => hnot (.inr hclosed)
    split at step
    case h_1 hidle =>
      cases step
      exact recorded.close_other hopen (by simp [hidle])
    case h_2 j hpublishing =>
      split at step
      case isTrue => cases step
      case isFalse hne =>
        cases step
        exact recorded.close_other hopen (by simp [hpublishing, Ne.symm hne])
    case h_3 j msgId hwaiting =>
      split at step
      case isFalse hne =>
        cases step
        exact recorded.close_other hopen (by simp [hwaiting, Ne.symm hne])
      case isTrue heq =>
        subst heq
        split at step
        case isFalse => cases step
        case isTrue hempty =>
          cases step
          obtain ⟨running, hid⟩ := recorded.waiting i msgId hwaiting
          -- the queue is empty: nothing was posted since the reset
          have hposted : (s.deliveries i).posted = [] :=
            List.head?_eq_none_iff.mp (running.newest.symm.trans hempty)
          refine recorded.update ((recorded.each i).close ?_ _ (.inr ⟨?_, running.taken⟩)) nofun
            (Nat.le_refl _) ?_
          · rintro - id - hmem
            rw [hposted] at hmem
            cases hmem
          · nofun
          · rintro k (hk | ⟨id, hk⟩)
            · rw [hwaiting] at hk
              cases hk
            · rw [hwaiting] at hk
              exact (MqttPhase.waiting.inj hk).1.symm

theorem MqttTransport.Recorded.step (recorded : s.Recorded) (step : MqttStep cfg s label s') :
    s'.Recorded := by
  cases label with
  | deliver destination => exact recorded.deliver step
  | publish res => exact recorded.publish step
  | post msgId => exact recorded.post step
  | receive => exact recorded.receive step
  | expire i => exact recorded.expire step

end Recorded

theorem MqttTransport.recorded_initial : MqttTransport.initial.Recorded where
  each _ := MqttDelivery.recorded_fresh true nofun
  publishing := by simp [initial]
  waiting := by simp [initial]
  returned := by simp [initial, MqttDelivery.fresh]
  begun := by simp [initial, MqttDelivery.fresh]

/-! ## Matching -/

/-- No wait that takes another acknowledgement than its own has its own posted in time:
not before the other one overwrote it in the queue, and not while the timeout runs. -/
def InOrder (s : MqttTransport) : MqttLabel → Prop
  | .receive =>
      match s.phase, s.ackQueue with
      | .waiting i msgId, some ackedId => ackedId ≠ msgId → msgId ∉ (s.deliveries i).posted
      | _, _ => True
  | .post msgId => ∀ i < s.started, (s.deliveries i).closed = false →
      (s.deliveries i).msgId = some msgId → ∀ ackedId ∈ (s.deliveries i).taken, ackedId = msgId
  | _ => True

instance (s : MqttTransport) : ∀ label, Decidable (InOrder s label)
  | .receive =>
      match h : s.phase, h' : s.ackQueue with
      | .waiting i msgId, some ackedId => decidable_of_iff
          (ackedId ≠ msgId → msgId ∉ (s.deliveries i).posted) (by simp [InOrder, h, h'])
      | .waiting _ _, none => .isTrue (by simp [InOrder, h, h'])
      | .idle, _ => .isTrue (by simp [InOrder, h])
      | .publishing _, _ => .isTrue (by simp [InOrder, h])
  | .post msgId => inferInstanceAs (Decidable (∀ i < s.started, (s.deliveries i).closed = false →
      (s.deliveries i).msgId = some msgId → ∀ ackedId ∈ (s.deliveries i).taken, ackedId = msgId))
  | .deliver _ | .publish _ | .expire _ => .isTrue trivial

/-- The message ids the client gives to publishes are distinct. -/
def DistinctIds (s : MqttTransport) : MqttLabel → Prop
  | .publish msgId => ∀ i < s.started, (s.deliveries i).msgId ≠ some msgId
  | _ => True

instance (s : MqttTransport) : ∀ label, Decidable (DistinctIds s label)
  | .publish msgId =>
      inferInstanceAs (Decidable (∀ i < s.started, (s.deliveries i).msgId ≠ some msgId))
  | .deliver _ | .post _ | .receive | .expire _ => .isTrue trivial

/-- A delivery that changes only in what `Overtaken` does not look at. -/
theorem MqttDelivery.Overtaken.congr {d d' : MqttDelivery} (h : d'.Overtaken)
    (hid : d'.msgId = d.msgId) (htaken : d'.taken = d.taken) (hposted : d'.posted = d.posted) :
    d.Overtaken := by
  obtain ⟨msgId, ackedId, h1, h2, h3, h4⟩ := h
  exact ⟨msgId, ackedId, hid ▸ h1, htaken ▸ h2, h3, hposted ▸ h4⟩

theorem MqttDelivery.not_overtaken {d : MqttDelivery} (htaken : d.taken = none) :
    ¬ d.Overtaken := by
  rintro ⟨_, _, _, hsome, _⟩
  rw [htaken] at hsome
  cases hsome

/-- In order, no delivery is overtaken. -/
theorem MqttTransport.Recorded.not_overtaken {cfg : MqttConfig} {s s' : MqttTransport}
    {label : MqttLabel} (recorded : s.Recorded) (step : Guarded (MqttStep cfg) InOrder s label s')
    (hno : ∀ i, ¬ (s.deliveries i).Overtaken) (i : Nat) : ¬ (s'.deliveries i).Overtaken := by
  obtain ⟨step, guard⟩ := step
  -- one delivery changes, the others stay
  have hset : ∀ (j : Nat) (d : MqttDelivery), ¬ d.Overtaken →
      s'.deliveries = Function.update s.deliveries j d → ¬ (s'.deliveries i).Overtaken := by
    intro j d hd heq
    rw [heq]
    by_cases hj : i = j
    · subst hj
      simpa using hd
    · simpa [Function.update_of_ne hj] using hno i
  cases label with
  | deliver destination =>
    simp only [MqttStep, MqttTransport.next] at step
    split at step
    case h_2 => cases step
    case h_1 =>
      split at step
      all_goals
        cases step
        exact hset _ _ (MqttDelivery.not_overtaken rfl) rfl
  | publish res =>
    simp only [MqttStep, MqttTransport.next] at step
    split at step
    case h_2 => cases step
    case h_1 j hpublishing =>
      have htaken := (recorded.publishing j hpublishing).1.taken
      split at step
      all_goals
        cases step
        refine hset j _ ?_ rfl
        exact MqttDelivery.not_overtaken htaken
  | post msgId =>
    simp only [MqttStep, MqttTransport.next] at step
    cases step
    intro hover
    cases hclosed : (s.deliveries i).closed with
    | true =>
      simp only [MqttDelivery.post, hclosed, if_true] at hover
      exact hno i hover
    | false =>
      simp only [MqttDelivery.post, hclosed, Bool.false_eq_true, if_false] at hover
      obtain ⟨id, ackedId, hid, htaken, hne, hposted⟩ := hover
      obtain rfl | hposted := List.mem_cons.mp hposted
      · exact hne (guard i (recorded.begun i hclosed) hclosed hid ackedId htaken)
      · exact hno i ⟨id, ackedId, hid, htaken, hne, hposted⟩
  | receive =>
    simp only [MqttStep, MqttTransport.next] at step
    split at step
    case h_2 => cases step
    case h_1 j msgId ackedId hwaiting hack =>
      cases step
      refine hset j _ ?_ rfl
      rintro ⟨id, ackedId', hid, htaken, hne, hposted⟩
      have hid' := (recorded.waiting j msgId hwaiting).2
      obtain rfl : msgId = id := Option.some.inj (hid'.symm.trans hid)
      obtain rfl : ackedId = ackedId' := Option.some.inj htaken
      simp only [InOrder, hwaiting, hack] at guard
      exact guard hne hposted
  | expire j =>
    have hsame : ∀ result, ¬ ({ s.deliveries j with closed := true, result } :
        MqttDelivery).Overtaken := fun result h => hno j (h.congr rfl rfl rfl)
    simp only [MqttStep, MqttTransport.next] at step
    split at step
    case isTrue => cases step
    case isFalse =>
      split at step
      case h_1 => cases step; exact hset j _ (hsame _) rfl
      case h_2 =>
        split at step
        case isTrue => cases step
        case isFalse => cases step; exact hset j _ (hsame _) rfl
      case h_3 =>
        split at step
        case isFalse => cases step; exact hset j _ (hsame _) rfl
        case isTrue =>
          split at step
          case isFalse => cases step
          case isTrue => cases step; exact hset j _ (hsame _) rfl

/-- What runs in order keep. -/
theorem MqttTransport.run_in_order {cfg : MqttConfig} {labels : List MqttLabel} {s : MqttTransport}
    (run : StepRun (Guarded (MqttStep cfg) InOrder) .initial labels s) :
    s.Recorded ∧ ∀ i, ¬ (s.deliveries i).Overtaken :=
  run.invariant (I := fun _ s => s.Recorded ∧ ∀ i, ¬ (s.deliveries i).Overtaken)
    ⟨recorded_initial, fun _ => MqttDelivery.not_overtaken rfl⟩
    fun _ _ _ _ ⟨recorded, hno⟩ step => ⟨recorded.step step.1, recorded.not_overtaken step hno⟩

/-- In every run in which no wait that takes another acknowledgement has its own posted
in time, a delivery is a success exactly when its own acknowledgement was posted between
its reset and its timeout. -/
theorem deliver_matched (cfg : MqttConfig) {labels : List MqttLabel} {s : MqttTransport}
    (run : StepRun (Guarded (MqttStep cfg) InOrder) .initial labels s) (i : Nat) :
    (s.deliveries i).Matched := by
  obtain ⟨recorded, hno⟩ := MqttTransport.run_in_order run
  intro hclosed
  exact ((recorded.each i).matched_iff hclosed).mpr (hno i) hclosed

/-- A late acknowledgement comes before the wait, the own one overwrites it. -/
theorem deliver_matched_one : ∃ s,
    StepRun (Guarded (MqttStep ⟨[0x74], false⟩) InOrder) .initial
      [.deliver [0x61], .publish 1, .expire 0, .deliver [0x61], .publish 2, .post 1, .post 2,
        .receive, .expire 1] s ∧
    ((s.deliveries 1).result = some .success ∧ (s.deliveries 1).closed = true) ∧
    (s.deliveries 1).Matched := by
  obtain ⟨s, run, hs⟩ : ∃ s,
      StepRun (Guarded (MqttStep ⟨[0x74], false⟩) InOrder) .initial
        [.deliver [0x61], .publish 1, .expire 0, .deliver [0x61], .publish 2, .post 1, .post 2,
          .receive, .expire 1] s ∧
      ((s.deliveries 1).result = some .success ∧ (s.deliveries 1).closed = true) :=
    StepRun.play_guarded (MqttTransport.next ⟨[0x74], false⟩) (by decide)
  exact ⟨s, run, hs, deliver_matched _ run 1⟩

/-- The first publish times out, its acknowledgement comes while the second is waited
for. -/
def lateAcknowledgement : List MqttLabel :=
  [.deliver [0x61], .publish 1, .expire 0, .deliver [0x61], .publish 2, .post 1, .receive, .post 2,
    .expire 1]

theorem deliver_mismatched : ¬ ∀ cfg labels s,
    StepRun (Guarded (MqttStep cfg) DistinctIds) .initial labels s →
    ∀ i, (s.deliveries i).Matched := by
  intro h
  obtain ⟨s, run, hs⟩ : ∃ s,
      StepRun (Guarded (MqttStep ⟨[0x74], false⟩) DistinctIds) .initial lateAcknowledgement s ∧
      s.deliveries 1 = ⟨some 2, some 1, [2, 1], true, some .retryableFailure⟩ :=
    StepRun.play_guarded (MqttTransport.next ⟨[0x74], false⟩) (by decide)
  have hmatched := (h _ _ _ run 1)
  rw [hs] at hmatched
  have hsuccess := (hmatched rfl).mpr ⟨2, rfl, by simp⟩
  cases hsuccess

end EdgeSync
