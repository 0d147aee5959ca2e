/-
  Stack/Wakeup.lean --- no publish is slept through.

  A worker that waits found nothing to claim before.  What was published since then is
  announced by the notification count, or by a publisher on its way to
  `xTaskNotifyGive`.
-/
import EdgeSync.Agreement
import EdgeSync.Stack.Script

set_option autoImplicit false

namespace EdgeSync

open Foundation

/-- The ids that were enqueued since the last claim that found nothing. -/
def arrivalsAfter (ids : List UInt64) : TasksLabel → List UInt64
  | .claim _ (.error .notFound) => []
  | .publish _ message _ ⟨.ok _, _⟩ => ids ++ [message.id]
  | _ => ids

/-- What was enqueued since the last claim that found nothing. -/
def arrivals (labels : List TasksLabel) : List UInt64 := labels.foldl arrivalsAfter []

theorem arrivals_snoc (labels : List TasksLabel) (label : TasksLabel) :
    arrivals (labels ++ [label]) = arrivalsAfter (arrivals labels) label := by
  rw [arrivals, List.foldl_append]
  rfl

section Wakeup

variable {B : StorageBackend} {env : Env B.Call B.Dev B.Event} {cfg : StackConfig}
  {s s' : Tasks B} {labels : List TasksLabel} {label : TasksLabel}

/-- What a claim that succeeds hands back. -/
theorem CallStep.claim_reply {early : Bool} {capacity : Nat} {q q' : List EntryMeta} {nowUs : Int64}
    {reply : StorageReply} (h : CallStep early capacity q (.claimNext nowUs) (.ok reply) q') :
    ∃ r, reply = .claim r := by
  cases h with
  | claimed selected entry shows => exact ⟨_, rfl⟩
  | corrupt selected entry => exact ⟨_, rfl⟩
  | retired retires found => cases retires

/-- The storage calls of the worker's claims succeed: a claim that fails found nothing. -/
def ClaimsSucceed (_ : Tasks B) (label : TasksLabel) : Prop :=
  ∀ nowUs err, label = .claim nowUs (.error err) → err = .notFound

/-- The worker is between a claim that found nothing and its next claim. -/
def Tasks.Waits (s : Tasks B) : Prop := s.worker = .resting ∨ s.worker = .blocked

/-- Some publisher has released the mutex and has not notified the worker yet. -/
def Tasks.SomebodyWakes (s : Tasks B) : Prop := ∃ p, (s.publishers p).wakes = true

/-- While the worker waits, arrivals are announced. -/
def Tasks.Announced (labels : List TasksLabel) (s : Tasks B) : Prop :=
  s.Waits → arrivals labels ≠ [] → s.notified ≠ 0 ∨ s.SomebodyWakes

theorem Tasks.Announced.congr (h : s.Announced labels) (hworker : s'.worker = s.worker)
    (hnotified : s'.notified = s.notified) (hpublishers : s'.publishers = s.publishers)
    (harrivals : arrivals (labels ++ [label]) = arrivals labels) :
    s'.Announced (labels ++ [label]) := by
  rw [Tasks.Announced, Tasks.Waits, hworker, hnotified, Tasks.SomebodyWakes, hpublishers, harrivals]
  exact h

/-- A worker that does not wait has to be told nothing. -/
theorem Tasks.announced_of_awake (h : ¬ s.Waits) : s.Announced labels := fun hwaits => absurd hwaits h

/-- A publisher that moves on and keeps its notification. -/
theorem Tasks.SomebodyWakes.setPublisher {p : Nat} {publisher : Publisher} (h : s.SomebodyWakes)
    (hp : (s.publishers p).wakes = true → publisher.wakes = true) :
    (s.setPublisher p publisher).SomebodyWakes := by
  obtain ⟨q, hq⟩ := h
  by_cases heq : q = p
  · subst heq
    exact ⟨q, by simpa [Tasks.setPublisher] using hp hq⟩
  · exact ⟨q, by simpa [Tasks.setPublisher, Function.update_of_ne heq] using hq⟩

/-- One step. -/
theorem Tasks.Announced.step (h : s.Announced labels)
    (step : Guarded (TasksStep env cfg) ClaimsSucceed s label s') :
    s'.Announced (labels ++ [label]) := by
  obtain ⟨step, succeeds⟩ := step
  cases step with
  | @publish p message calls report ctx' dev' idle run made =>
    intro hwaits harrivals
    cases hres : report.res with
    | ok _ =>
      -- the publisher itself is going to notify
      refine .inr ⟨p, ?_⟩
      simp [Tasks.setPublisher, Publisher.released, hres, Except.isOk, Except.toBool]
    | error err =>
      have hsame : arrivals (labels ++ [.publish p message calls report]) = arrivals labels := by
        rw [arrivals_snoc]
        obtain ⟨res, dropped⟩ := report
        cases hres
        rfl
      rw [hsame] at harrivals
      refine (h hwaits harrivals).imp (fun hne => hne) fun hwakes => ?_
      exact Tasks.SomebodyWakes.setPublisher (s := { s with ctx := ctx', dev := dev' }) hwakes
        fun hp => by simp [idle, Publisher.idle] at hp
  | @publisherFires p event id events wakes fires =>
    intro hwaits harrivals
    rw [arrivals_snoc] at harrivals
    exact (h hwaits harrivals).imp (fun hne => hne) fun hwakes =>
      hwakes.setPublisher fun hp => by simpa [fires] using hp
  | wake wakes => exact fun _ _ => .inl (Nat.succ_ne_zero _)
  | @claim nowUs res ctx' dev' ready run =>
    cases res with
    | error err =>
      obtain rfl := succeeds nowUs err rfl
      intro _ harrivals
      rw [arrivals_snoc] at harrivals
      exact absurd rfl harrivals
    | ok reply =>
      obtain ⟨r, rfl⟩ := (B.step run).claim_reply
      exact Tasks.announced_of_awake (by cases r <;> simp [Tasks.Waits, WorkerPhase.afterClaim])
  | take rests =>
    intro hwaits harrivals
    rw [arrivals_snoc] at harrivals
    refine .inr ((h (.inl rests) harrivals).resolve_left ?_)
    simp only [Tasks.Waits] at hwaits
    split at hwaits
    case isTrue hzero => exact fun hne => hne hzero
    case isFalse => simp at hwaits
  | woken blocked notified => exact Tasks.announced_of_awake (by simp [Tasks.Waits])
  | timeout blocked => exact Tasks.announced_of_awake (by simp [Tasks.Waits])
  | deliver delivers => exact Tasks.announced_of_awake (by simp [Tasks.Waits])
  | settle settles run => exact Tasks.announced_of_awake (by simp [Tasks.Waits])
  | workerFires fires => exact Tasks.announced_of_awake (by simp [Tasks.Waits])
  | stats run => exact h.congr rfl rfl rfl (by rw [arrivals_snoc]; rfl)

/-- In every run whose claims succeed: while the worker sleeps without a notification, a
message that was enqueued since its last claim found nothing has a publisher that
released the mutex and has yet to notify. -/
theorem no_lost_wakeup (B : StorageBackend) (env : Env B.Call B.Dev B.Event) (cfg : StackConfig)
    {ctx : B.Ctx} {dev : B.Dev} {s : Tasks B} {labels : List TasksLabel}
    (run : StepRun (Guarded (TasksStep env cfg) ClaimsSucceed) (.start ctx dev) labels s)
    (hblocked : s.worker = .blocked) (hnotified : s.notified = 0) (nowUs : Int64) :
    ∀ e ∈ B.metas s.ctx, e.eligible nowUs = true → e.id ∈ arrivals labels →
      ∃ p, (s.publishers p).wakes = true := by
  intro e _ _ harrived
  have hannounced : s.Announced labels :=
    run.invariant (I := fun labels s => s.Announced labels)
      (Tasks.announced_of_awake (by simp [Tasks.Waits, Tasks.start])) fun _ _ _ _ h step => h.step step
  exact (hannounced (.inr hblocked) (List.ne_nil_of_mem harrived)).resolve_left (· hnotified)

end Wakeup

/-- Small limits, and no overflow policy. -/
def smallStack : StackConfig where
  overflowPolicy := .rejectNew
  retry := ⟨100, 1000, 2, false, 3⟩

/-- The worker finds nothing and sleeps, then a message is published. -/
theorem no_lost_wakeup_asleep : ∃ labels s,
    StepRun (Guarded (TasksStep quietStore smallStack) ClaimsSucceed)
      (.start (NvsCtx.fresh smallStore) emptyStore : Tasks (nvsBackend noUsage smallStore))
      labels s ∧
    (s.worker = .blocked ∧ s.notified = 0) ∧
    (∃ e ∈ NvsCtx.metas s.ctx, e.eligible 9 = true ∧ e.id ∈ arrivals labels) ∧
    ∃ p, (s.publishers p).wakes = true := by
  have hplay : ((Tasks.start (NvsCtx.fresh smallStore) emptyStore :
      Tasks (nvsBackend noUsage smallStore)).play smallStack
      [(.claim 9, []), (.take, []), (.publish 0 retriedMessage, [])] []).any (fun (labels, s) =>
        decide (labels = [.claim 9 (.error .notFound), .take, .publish 0 retriedMessage
            [(.enqueue retriedMessage, .ok .done)] ⟨.ok (), none⟩] ∧
          (s.worker = .blocked ∧ s.notified = 0) ∧
          ∃ e ∈ NvsCtx.metas s.ctx, e.eligible 9 = true ∧ e.id ∈ arrivals labels)) = true := by
    decide +kernel
  obtain ⟨labels, s, run, htest⟩ := Tasks.play_passes quietStore (fun _ _ => rfl)
    (eventsIn_nil (by decide)) hplay
  obtain ⟨rfl, hs, e, he, heligible, harrived⟩ := of_decide_eq_true htest
  have hguarded : StepRun (Guarded (TasksStep quietStore smallStack) ClaimsSucceed) _ _ s :=
    run.guarded (by simp [ClaimsSucceed])
  exact ⟨_, s, hguarded, hs, ⟨e, he, heligible, harrived⟩,
    no_lost_wakeup _ _ _ hguarded hs.1 hs.2 9 e he heligible harrived⟩

end EdgeSync
