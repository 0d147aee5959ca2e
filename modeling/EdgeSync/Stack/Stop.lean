/-
  Stack/Stop.lean --- stopping the worker while messages are published.

  `edgesync_worker_stop` clears the wake callback under the mutex of the queue, waits
  for the task and frees the worker.  `edgesync_queue_publish` copies the callback
  under the mutex, but calls it after the mutex is released.  The storage plays no
  part here: whether a publish is accepted is open.
-/
import EdgeSync.Foundation.Runs
import Mathlib.Logic.Function.Basic

set_option autoImplicit false

namespace EdgeSync

open Foundation

/-- A worker, by the number of its start. -/
abbrev WorkerId : Type := Nat

/-- Where a call of `edgesync_queue_publish` is.  `wake` is its copy of `wake_cb` and
`wake_ctx`. -/
inductive PublishPhase where
  | idle
  /-- it holds the mutex -/
  | locked
  /-- the message is stored or refused -/
  | stored (accepted : Bool)
  /-- the callback is copied, the mutex still held -/
  | copied (wake : Option WorkerId)
  /-- the mutex is released -/
  | unlocked (wake : Option WorkerId)
  /-- the event is fired -/
  | fired (wake : Option WorkerId)
  deriving DecidableEq

/-- The worker the publish is going to wake. -/
def PublishPhase.wake? : PublishPhase → Option WorkerId
  | copied wake => wake
  | unlocked wake => wake
  | fired wake => wake
  | _ => none

/-- Where the task that starts and stops workers is. -/
inductive ControlPhase where
  /-- no worker is started -/
  | idle
  /-- the task of the worker runs, `wake_cb` is not set yet -/
  | created (w : WorkerId)
  | started (w : WorkerId)
  /-- `edgesync_worker_stop`: `wake_cb` is cleared -/
  | cleared (w : WorkerId)
  /-- `stop_requested` is set -/
  | requested (w : WorkerId)
  /-- the worker is notified; the semaphore is waited for -/
  | waiting (w : WorkerId)
  /-- the semaphore was taken -/
  | joined (w : WorkerId)
  deriving DecidableEq

/-- The task of a worker. -/
inductive TaskPhase where
  | absent
  /-- in the loop -/
  | running
  /-- it gave `stopped_sem` and is going to delete itself -/
  | leaving
  | deleted
  deriving DecidableEq

/-- The queue's callback and everyone who uses it.  `locked` says that the mutex is
held by a publish; a lifecycle call holds it only while it sets the callback. -/
structure Lifecycle where
  wakeCb : Option WorkerId
  locked : Bool
  control : ControlPhase
  task : WorkerId → TaskPhase
  stopRequested : WorkerId → Bool
  stoppedSem : WorkerId → Bool
  freed : WorkerId → Bool
  publishers : Nat → PublishPhase
  workers : Nat

/-- No worker was started, nothing is published. -/
def Lifecycle.initial : Lifecycle where
  wakeCb := none
  locked := false
  control := .idle
  task := fun _ => .absent
  stopRequested := fun _ => false
  stoppedSem := fun _ => false
  freed := fun _ => false
  publishers := fun _ => .idle
  workers := 0

/-- What happens.  Publishes are numbered by their tasks. -/
inductive LifecycleLabel where
  | lock (p : Nat)
  | store (p : Nat) (accepted : Bool)
  | copy (p : Nat)
  | unlock (p : Nat)
  | fire (p : Nat)
  /-- `wake_cb(wake_ctx)`, or nothing where the copy is NULL -/
  | call (p : Nat) (wake : Option WorkerId)
  | create
  | register
  | clear
  | request
  | notify
  | take
  | free
  | leave (w : WorkerId)
  | delete (w : WorkerId)
  deriving DecidableEq

/-- Put a publish into a phase. -/
def Lifecycle.setPublisher (s : Lifecycle) (p : Nat) (phase : PublishPhase) : Lifecycle :=
  { s with publishers := Function.update s.publishers p phase }

/-- The step with this label, where the state permits it. -/
def Lifecycle.next (s : Lifecycle) : LifecycleLabel → Option Lifecycle
  | .lock p =>
      if s.publishers p = .idle ∧ s.locked = false then
        some ({ s with locked := true }.setPublisher p .locked)
      else none
  | .store p accepted =>
      if s.publishers p = .locked then some (s.setPublisher p (.stored accepted)) else none
  | .copy p =>
      match s.publishers p with
      | .stored accepted => some (s.setPublisher p (.copied (if accepted then s.wakeCb else none)))
      | _ => none
  | .unlock p =>
      match s.publishers p with
      | .copied wake => some ({ s with locked := false }.setPublisher p (.unlocked wake))
      | _ => none
  | .fire p =>
      match s.publishers p with
      | .unlocked wake => some (s.setPublisher p (.fired wake))
      | _ => none
  | .call p wake =>
      if s.publishers p = .fired wake then some (s.setPublisher p .idle) else none
  | .create =>
      if s.control = .idle then
        some { s with
          control := .created s.workers
          task := Function.update s.task s.workers .running
          workers := s.workers + 1 }
      else none
  | .register =>
      match s.control with
      | .created w =>
          if s.locked then none else some { s with
            wakeCb := some w
            control := .started w }
      | _ => none
  | .clear =>
      match s.control with
      | .started w =>
          if s.locked then none else some { s with
            wakeCb := none
            control := .cleared w }
      | _ => none
  | .request =>
      match s.control with
      | .cleared w => some { s with
          stopRequested := Function.update s.stopRequested w true
          control := .requested w }
      | _ => none
  | .notify =>
      match s.control with
      | .requested w => some { s with control := .waiting w }
      | _ => none
  | .take =>
      match s.control with
      | .waiting w =>
          if s.stoppedSem w then some { s with control := .joined w } else none
      | _ => none
  | .free =>
      match s.control with
      | .joined w => some { s with
          freed := Function.update s.freed w true
          control := .idle }
      | _ => none
  | .leave w =>
      if s.task w = .running ∧ s.stopRequested w then some { s with
        task := Function.update s.task w .leaving
        stoppedSem := Function.update s.stoppedSem w true }
      else none
  | .delete w =>
      if s.task w = .leaving then some { s with task := Function.update s.task w .deleted }
      else none

/-- One step. -/
def LifecycleStep (s : Lifecycle) (label : LifecycleLabel) (s' : Lifecycle) : Prop :=
  s.next label = some s'

/-- The worker is there: it is not freed, and its task is not deleted. -/
def Lifecycle.Alive (s : Lifecycle) (w : WorkerId) : Prop :=
  s.freed w = false ∧ s.task w ≠ .deleted

/-- A callback that is called finds its worker. -/
def WakesAlive (s : Lifecycle) (label : LifecycleLabel) : Prop :=
  ∀ p w, label = .call p (some w) → s.Alive w

/-- A worker is freed, or its task deleted, only when no publish is going to wake it. -/
def NobodyWakes (s : Lifecycle) (label : LifecycleLabel) : Prop :=
  ∀ w, (label = .delete w ∨ (label = .free ∧ s.control = .joined w)) →
    ∀ p, (s.publishers p).wake? ≠ some w

/-- The worker a lifecycle call works on. -/
def ControlPhase.worker? : ControlPhase → Option WorkerId
  | idle => none
  | created w => some w
  | started w => some w
  | cleared w => some w
  | requested w => some w
  | waiting w => some w
  | joined w => some w

/-- What guarded steps keep.  A worker that is not stopped yet runs, and the callback
names such a worker only. -/
structure Lifecycle.Sound (s : Lifecycle) : Prop where
  wakers : ∀ p w, (s.publishers p).wake? = some w → s.Alive w
  registered : ∀ w, s.wakeCb = some w → s.control = .started w
  running : ∀ w, s.control = .created w ∨ s.control = .started w →
    s.stopRequested w = false ∧ s.freed w = false ∧ s.task w = .running
  controlled : ∀ w, s.control.worker? = some w → w < s.workers
  fresh : ∀ w, s.workers ≤ w →
    s.stopRequested w = false ∧ s.freed w = false ∧ s.task w = .absent

theorem Lifecycle.sound_initial : Lifecycle.initial.Sound where
  wakers := by simp [initial, PublishPhase.wake?]
  registered := by simp [initial]
  running := by simp [initial]
  controlled := by simp [initial, ControlPhase.worker?]
  fresh := by simp [initial]

/-- A publish that moves on keeps the invariant when the worker it is going to wake is
there. -/
theorem Lifecycle.Sound.setPublisher {s : Lifecycle} (sound : s.Sound) {phase : PublishPhase}
    (p : Nat) (hphase : ∀ w, phase.wake? = some w → s.Alive w) : (s.setPublisher p phase).Sound where
  wakers q w hw := by
    by_cases hq : q = p
    · subst hq
      exact hphase w (by simpa [Lifecycle.setPublisher] using hw)
    · exact sound.wakers q w (by simpa [Lifecycle.setPublisher, Function.update_of_ne hq] using hw)
  registered := sound.registered
  running := sound.running
  controlled := sound.controlled
  fresh := sound.fresh

/-- The mutex has no part in the invariant. -/
theorem Lifecycle.Sound.setLocked {s : Lifecycle} (sound : s.Sound) (locked : Bool) :
    ({ s with locked } : Lifecycle).Sound :=
  ⟨sound.wakers, sound.registered, sound.running, sound.controlled, sound.fresh⟩

/-- The registered worker is there. -/
theorem Lifecycle.Sound.registered_alive {s : Lifecycle} (sound : s.Sound) {w : WorkerId}
    (hw : s.wakeCb = some w) : s.Alive w := by
  obtain ⟨-, hfreed, htask⟩ := sound.running w (.inr (sound.registered w hw))
  exact ⟨hfreed, by rw [htask]; nofun⟩

/-- A publish that ends, or has not begun to copy, wakes nobody. -/
theorem Lifecycle.Sound.setPublisher_silent {s : Lifecycle} (sound : s.Sound)
    {phase : PublishPhase} (p : Nat) (hphase : phase.wake? = none) :
    (s.setPublisher p phase).Sound :=
  sound.setPublisher p fun w hw => by rw [hphase] at hw; cases hw

/-- A publish that moves on with the copy it has. -/
theorem Lifecycle.Sound.setPublisher_same {s : Lifecycle} (sound : s.Sound) {p : Nat}
    {phase phase' : PublishPhase} (hp : s.publishers p = phase) (hwake : phase'.wake? = phase.wake?) :
    (s.setPublisher p phase').Sound :=
  sound.setPublisher p fun w hw => sound.wakers p w (by rw [hp, ← hwake, hw])

/-- What the steps of a publish keep. -/
theorem Lifecycle.Sound.publish_step {s s' : Lifecycle} {label : LifecycleLabel} {p : Nat}
    (sound : s.Sound) (step : LifecycleStep s label s')
    (hlabel : label = .lock p ∨ (∃ accepted, label = .store p accepted) ∨ label = .copy p ∨
      label = .unlock p ∨ label = .fire p ∨ ∃ wake, label = .call p wake) : s'.Sound := by
  unfold LifecycleStep at step
  obtain rfl | ⟨accepted, rfl⟩ | rfl | rfl | rfl | ⟨wake, rfl⟩ := hlabel
  · simp only [Lifecycle.next] at step
    split at step
    case isTrue =>
      cases step
      exact (sound.setLocked true).setPublisher_silent p rfl
    case isFalse => cases step
  · simp only [Lifecycle.next] at step
    split at step
    case isTrue =>
      cases step
      exact sound.setPublisher_silent p rfl
    case isFalse => cases step
  · simp only [Lifecycle.next] at step
    split at step
    case h_1 accepted hp =>
      cases step
      -- the callback is copied while the worker is registered
      refine sound.setPublisher p fun w hw => sound.registered_alive (w := w) ?_
      simp only [PublishPhase.wake?] at hw
      split at hw
      · exact hw
      · cases hw
    case h_2 => cases step
  · simp only [Lifecycle.next] at step
    split at step
    case h_1 wake hp =>
      cases step
      exact (sound.setLocked false).setPublisher_same hp rfl
    case h_2 => cases step
  · simp only [Lifecycle.next] at step
    split at step
    case h_1 wake hp =>
      cases step
      exact sound.setPublisher_same hp rfl
    case h_2 => cases step
  · simp only [Lifecycle.next] at step
    split at step
    case isTrue =>
      cases step
      exact sound.setPublisher_silent p rfl
    case isFalse => cases step

/-- A step of the lifecycle calls that leaves tasks and memory alone. -/
theorem Lifecycle.Sound.setControl {s : Lifecycle} (sound : s.Sound) {control : ControlPhase}
    {wakeCb : Option WorkerId} (hreg : ∀ w, wakeCb = some w → control = .started w)
    (hworker : control.worker? = s.control.worker? ∨ control.worker? = none)
    (hrun : ∀ w, control = .created w ∨ control = .started w →
      s.control = .created w ∨ s.control = .started w) :
    ({ s with control, wakeCb } : Lifecycle).Sound where
  wakers := sound.wakers
  registered := hreg
  running w hw := sound.running w (hrun w hw)
  controlled w hw := by
    obtain heq | hnone := hworker
    · exact sound.controlled w (heq ▸ hw)
    · have hw' : control.worker? = some w := hw
      rw [hnone] at hw'
      cases hw'
  fresh := sound.fresh

/-- A new worker. -/
theorem Lifecycle.Sound.create {s s' : Lifecycle} (sound : s.Sound)
    (step : LifecycleStep s .create s') : s'.Sound := by
  simp only [LifecycleStep, Lifecycle.next] at step
  split at step
  case isFalse => cases step
  case isTrue hidle =>
    cases step
    obtain ⟨hreq, hfreed, -⟩ := sound.fresh s.workers (Nat.le_refl _)
    exact {
      wakers := fun p w hw => by
        obtain ⟨hfree, htask⟩ := sound.wakers p w hw
        refine ⟨hfree, ?_⟩
        by_cases heq : w = s.workers
        · simp [heq]
        · simpa [Function.update_of_ne heq] using htask
      registered := fun w hw => by
        have hcontrol := sound.registered w hw
        rw [hidle] at hcontrol
        cases hcontrol
      running := fun w hw => by
        obtain rfl : s.workers = w := by simpa using hw
        exact ⟨hreq, hfreed, by simp⟩
      controlled := fun w hw => by
        obtain rfl : s.workers = w := by simpa [ControlPhase.worker?] using hw
        exact Nat.lt_succ_self _
      fresh := fun w hw => by
        have hlt : s.workers < w := hw
        obtain ⟨hreq', hfreed', habsent⟩ := sound.fresh w (Nat.le_of_lt hlt)
        have hne : w ≠ s.workers := Nat.ne_of_gt hlt
        exact ⟨hreq', hfreed', by simpa [Function.update_of_ne hne] using habsent⟩ }

/-- The worker is asked to stop: the callback does not name it any more. -/
theorem Lifecycle.Sound.request {s s' : Lifecycle} (sound : s.Sound)
    (step : LifecycleStep s .request s') : s'.Sound := by
  simp only [LifecycleStep, Lifecycle.next] at step
  split at step
  case h_2 => cases step
  case h_1 v hcleared =>
    cases step
    exact {
      wakers := sound.wakers
      registered := fun w hw => by
        have hcontrol := sound.registered w hw
        rw [hcleared] at hcontrol
        cases hcontrol
      running := fun w hw => by simp at hw
      controlled := fun w hw => sound.controlled w (by rw [hcleared]; exact hw)
      fresh := fun w hw => by
        have hv : v < s.workers := sound.controlled v (by rw [hcleared]; rfl)
        have hne : w ≠ v := Nat.ne_of_gt (Nat.lt_of_lt_of_le hv hw)
        simpa [Function.update_of_ne hne] using sound.fresh w hw }

/-- The worker is freed when no publish is going to wake it. -/
theorem Lifecycle.Sound.free {s s' : Lifecycle} (sound : s.Sound)
    (step : LifecycleStep s .free s') (guard : NobodyWakes s .free) : s'.Sound := by
  simp only [LifecycleStep, Lifecycle.next] at step
  split at step
  case h_2 => cases step
  case h_1 v hjoined =>
    cases step
    exact {
      wakers := fun p w hw => by
        obtain ⟨hfree, htask⟩ := sound.wakers p w hw
        have hne : w ≠ v := by
          rintro rfl
          exact guard w (.inr ⟨rfl, hjoined⟩) p hw
        exact ⟨by simpa [Function.update_of_ne hne] using hfree, htask⟩
      registered := fun w hw => by
        have hcontrol := sound.registered w hw
        rw [hjoined] at hcontrol
        cases hcontrol
      running := fun w hw => by simp at hw
      controlled := fun w hw => by simp [ControlPhase.worker?] at hw
      fresh := fun w hw => by
        have hv : v < s.workers := sound.controlled v (by rw [hjoined]; rfl)
        have hne : w ≠ v := Nat.ne_of_gt (Nat.lt_of_lt_of_le hv hw)
        simpa [Function.update_of_ne hne] using sound.fresh w hw }

/-- The task of a worker moves on, and does not do so before it is asked to stop. -/
theorem Lifecycle.Sound.setTask {s : Lifecycle} (sound : s.Sound) {v : WorkerId}
    {phase : TaskPhase} {stoppedSem : WorkerId → Bool} (hthere : s.task v ≠ .absent)
    (hstop : s.stopRequested v = true ∨ s.task v ≠ .running)
    (hwake : phase = .deleted → ∀ p, (s.publishers p).wake? ≠ some v) :
    ({ s with task := Function.update s.task v phase, stoppedSem } : Lifecycle).Sound where
  wakers p w hw := by
    obtain ⟨hfree, htask⟩ := sound.wakers p w hw
    refine ⟨hfree, ?_⟩
    by_cases heq : w = v
    · subst heq
      have hphase : phase ≠ .deleted := fun hdeleted => hwake hdeleted p hw
      simpa using hphase
    · simpa [Function.update_of_ne heq] using htask
  registered := sound.registered
  running w hw := by
    obtain ⟨hreq, hfreed, htask⟩ := sound.running w hw
    have hne : w ≠ v := by
      rintro rfl
      obtain hstop | hstop := hstop
      · rw [hreq] at hstop
        cases hstop
      · exact hstop htask
    exact ⟨hreq, hfreed, by simpa [Function.update_of_ne hne] using htask⟩
  controlled := sound.controlled
  fresh w hw := by
    obtain ⟨hreq, hfreed, habsent⟩ := sound.fresh w hw
    have hne : w ≠ v := by
      rintro rfl
      exact hthere habsent
    exact ⟨hreq, hfreed, by simpa [Function.update_of_ne hne] using habsent⟩

/-- Every guarded step keeps the invariant. -/
theorem Lifecycle.Sound.step {s s' : Lifecycle} {label : LifecycleLabel} (sound : s.Sound)
    (step : Guarded LifecycleStep NobodyWakes s label s') : s'.Sound := by
  obtain ⟨step, guard⟩ := step
  cases label with
  | lock p => exact sound.publish_step (p := p) step (by simp)
  | store p accepted => exact sound.publish_step (p := p) step (by simp)
  | copy p => exact sound.publish_step (p := p) step (by simp)
  | unlock p => exact sound.publish_step (p := p) step (by simp)
  | fire p => exact sound.publish_step (p := p) step (by simp)
  | call p wake => exact sound.publish_step (p := p) step (by simp)
  | create => exact sound.create step
  | request => exact sound.request step
  | free => exact sound.free step guard
  | register =>
    simp only [LifecycleStep, Lifecycle.next] at step
    split at step
    case h_2 => cases step
    case h_1 w hcreated =>
      split at step
      case isTrue => cases step
      case isFalse =>
        cases step
        exact sound.setControl (fun v hv => by cases hv; rfl) (.inl (by rw [hcreated]; rfl))
          fun v hv => .inl (by rw [hcreated]; simpa using hv)
  | clear =>
    simp only [LifecycleStep, Lifecycle.next] at step
    split at step
    case h_2 => cases step
    case h_1 w hstarted =>
      split at step
      case isTrue => cases step
      case isFalse =>
        cases step
        exact sound.setControl nofun (.inl (by rw [hstarted]; rfl)) (by simp)
  | notify =>
    simp only [LifecycleStep, Lifecycle.next] at step
    split at step
    case h_2 => cases step
    case h_1 w hrequested =>
      cases step
      refine sound.setControl (fun v hv => ?_) (.inl (by rw [hrequested]; rfl)) (by simp)
      have hcontrol := sound.registered v hv
      rw [hrequested] at hcontrol
      cases hcontrol
  | take =>
    simp only [LifecycleStep, Lifecycle.next] at step
    split at step
    case h_2 => cases step
    case h_1 w hwaiting =>
      split at step
      case isFalse => cases step
      case isTrue =>
        cases step
        refine sound.setControl (fun v hv => ?_) (.inl (by rw [hwaiting]; rfl)) (by simp)
        have hcontrol := sound.registered v hv
        rw [hwaiting] at hcontrol
        cases hcontrol
  | leave w =>
    simp only [LifecycleStep, Lifecycle.next] at step
    split at step
    case isFalse => cases step
    case isTrue hleave =>
      cases step
      exact sound.setTask (by rw [hleave.1]; nofun) (.inl hleave.2) nofun
  | delete w =>
    simp only [LifecycleStep, Lifecycle.next] at step
    split at step
    case isFalse => cases step
    case isTrue hleaving =>
      cases step
      exact sound.setTask (by rw [hleaving]; nofun) (.inr (by rw [hleaving]; nofun))
        fun _ => guard w (.inl rfl)

/-- Guarded runs keep the invariant. -/
theorem Lifecycle.sound_run {labels : List LifecycleLabel} {s : Lifecycle}
    (run : StepRun (Guarded LifecycleStep NobodyWakes) .initial labels s) : s.Sound :=
  run.invariant (I := fun _ s => s.Sound) sound_initial fun _ _ _ _ sound step => sound.step step

/-- In every run in which a worker is freed, and its task deleted, only when no publish
holds a copy of its callback, a callback that is called finds its worker. -/
theorem wakes_alive {labels : List LifecycleLabel} {label : LifecycleLabel} {s s' : Lifecycle}
    (run : StepRun (Guarded LifecycleStep NobodyWakes) .initial labels s)
    (step : LifecycleStep s label s') : WakesAlive s label := by
  rintro p w rfl
  refine (Lifecycle.sound_run run).wakers p w ?_
  simp only [LifecycleStep, Lifecycle.next] at step
  split at step
  case isTrue hfired => rw [hfired]; rfl
  case isFalse => cases step

/-! ## Publishes of one task -/

/-- The publish that takes the step. -/
def LifecycleLabel.publisher? : LifecycleLabel → Option Nat
  | lock p => some p
  | store p _ => some p
  | copy p => some p
  | unlock p => some p
  | fire p => some p
  | call p _ => some p
  | _ => none

/-- A task is deleted and a worker is freed. -/
def LifecycleLabel.buries : LifecycleLabel → Bool
  | delete _ => true
  | free => true
  | _ => false

/-- The publish `p` is not going to wake anybody when a task is deleted or a worker freed. -/
def SilentAtBurial (p : Nat) (s : Lifecycle) (label : LifecycleLabel) : Prop :=
  label.buries = true → (s.publishers p).wake? = none

instance (p : Nat) (s : Lifecycle) (label : LifecycleLabel) :
    Decidable (SilentAtBurial p s label) :=
  inferInstanceAs (Decidable (label.buries = true → (s.publishers p).wake? = none))

/-- A step leaves the publishes of other tasks where they are. -/
theorem LifecycleStep.publishers_eq {s s' : Lifecycle} {label : LifecycleLabel} {q : Nat}
    (step : LifecycleStep s label s') (hq : label.publisher? ≠ some q) :
    s'.publishers q = s.publishers q := by
  have hupdate : ∀ p phase, label.publisher? = some p →
      Function.update s.publishers p phase q = s.publishers q := by
    intro p phase hp
    refine Function.update_of_ne ?_ _ _
    rintro rfl
    exact hq hp
  -- the step of a publish updates its own phase, a lifecycle call none
  revert step
  unfold LifecycleStep
  fun_cases Lifecycle.next s label <;> rintro ⟨⟩ <;> first | rfl | exact hupdate _ _ rfl

/-- Where one task publishes, it is enough that this one wakes nobody when a task is
deleted and when a worker is freed. -/
theorem Lifecycle.nobodyWakes_of_one {p : Nat} {labels : List LifecycleLabel} {s : Lifecycle}
    (run : StepRun (Guarded LifecycleStep (SilentAtBurial p)) .initial labels s)
    (hone : ∀ label ∈ labels, ∀ q, label.publisher? = some q → q = p) :
    StepRun (Guarded LifecycleStep NobodyWakes) .initial labels s ∧
      ∀ q, q ≠ p → s.publishers q = .idle := by
  induction run with
  | nil => exact ⟨.nil, fun q _ => rfl⟩
  | @snoc labels s' s'' label run last ih =>
    obtain ⟨hrun, hidle⟩ := ih fun label hl => hone label (List.mem_append_left _ hl)
    obtain ⟨step, hsilent⟩ := last
    have hlabel : ∀ q, label.publisher? = some q → q = p :=
      hone label (List.mem_append_right _ (List.mem_singleton_self _))
    have hguard : NobodyWakes s' label := by
      intro w hburies q
      have hlast : label.buries = true := by
        obtain rfl | ⟨rfl, -⟩ := hburies
        · rfl
        · rfl
      by_cases hq : q = p
      · rw [hq, hsilent hlast]
        exact (Option.some_ne_none w).symm
      · rw [hidle q hq]
        exact (Option.some_ne_none w).symm
    refine ⟨hrun.snoc ⟨step, hguard⟩, fun q hq => ?_⟩
    rw [step.publishers_eq fun h => hq (hlabel q h)]
    exact hidle q hq

/-- A publish overlaps the stop of the worker it has copied, and calls the callback before
the task is deleted; the worker is freed, another one is started, and the next publish is
going to wake that one. -/
def publishesAroundStop : List LifecycleLabel :=
  [.create, .register, .lock 0, .store 0 true, .copy 0, .unlock 0, .clear, .request, .notify,
    .leave 0, .fire 0, .call 0 (some 0), .take, .delete 0, .free, .create, .register, .lock 0,
    .store 0 true, .copy 0, .unlock 0, .fire 0]

/-- The second publish finds the second worker, after the first one was freed. -/
theorem wakes_alive_restarted : ∃ s s',
    StepRun (Guarded LifecycleStep NobodyWakes) .initial publishesAroundStop s ∧
      s.freed 0 = true ∧ s.task 0 = .deleted ∧
      LifecycleStep s (.call 0 (some 1)) s' ∧ WakesAlive s (.call 0 (some 1)) := by
  obtain ⟨s, run, hp, hfreed, htask⟩ : ∃ s,
      StepRun (Guarded LifecycleStep (SilentAtBurial 0)) .initial publishesAroundStop s ∧
        s.publishers 0 = .fired (some 1) ∧ s.freed 0 = true ∧ s.task 0 = .deleted :=
    StepRun.play_guarded Lifecycle.next (by decide)
  have hguarded := (Lifecycle.nobodyWakes_of_one run (by decide)).1
  have hcall : LifecycleStep s (.call 0 (some 1)) (s.setPublisher 0 .idle) := by
    simp [LifecycleStep, Lifecycle.next, hp]
  exact ⟨s, _, hguarded, hfreed, htask, hcall, wakes_alive hguarded hcall⟩

/-- A publish is stored and has released the mutex; before it calls the callback, the
worker is stopped and freed. -/
def stopDuringPublish : List LifecycleLabel :=
  [.create, .register, .lock 0, .store 0 true, .copy 0, .unlock 0, .clear, .request, .notify,
    .leave 0, .take, .delete 0, .free, .fire 0]

theorem wakes_freed : ¬ ∀ labels s label s', StepRun LifecycleStep .initial labels s →
    LifecycleStep s label s' → WakesAlive s label := by
  intro h
  obtain ⟨s, run, hp, hfreed⟩ : ∃ s, StepRun LifecycleStep .initial stopDuringPublish s ∧
      s.publishers 0 = .fired (some 0) ∧ s.freed 0 = true :=
    StepRun.play Lifecycle.next (by decide)
  have hcall : LifecycleStep s (.call 0 (some 0)) (s.setPublisher 0 .idle) := by
    simp [LifecycleStep, Lifecycle.next, hp]
  have halive := (h _ _ _ _ run hcall 0 0 rfl).1
  rw [hfreed] at halive
  cases halive

end EdgeSync
