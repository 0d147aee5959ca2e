/-
  Stack/Script.lean --- playing publishers and worker under a script.

  A script names the tasks' steps and the events of their storage calls, `play`
  computes the run.
-/
import EdgeSync.Stack.Tasks

set_option autoImplicit false

namespace EdgeSync

open Foundation

/-- A step of a task, before its outcome is known. -/
inductive TasksAction where
  | publish (p : Nat) (message : EdgesyncMessage)
  | publisherFires (p : Nat)
  | wake (p : Nat)
  | claim (nowUs : Int64)
  | take
  | woken
  | timeout
  | deliver (result : DeliveryResult) (nowUs : Int64) (randomU32 : UInt32)
  | settle
  | workerFires
  | stats
  deriving DecidableEq

section Script

variable {B : StorageBackend}

/-- A storage call that returns. -/
def callExec (B : StorageBackend) (op : StorageOp) (ctx : B.Ctx) (dev : B.Dev)
    (evs : List B.Event) : Option (Except EspErr StorageReply × B.Ctx × B.Dev) :=
  match exec B.device (B.ops.call op) ctx dev evs with
  | .ok reply ctx' dev' => some (.ok reply, ctx', dev')
  | .error err ctx' dev' => some (.error err, ctx', dev')
  | .cut _ => none

/-- A storage call that returns, whose events are permitted for the calls it makes. -/
def callAdmitted (B : StorageBackend) (allow : B.Call → B.Event → Bool) (op : StorageOp)
    (ctx : B.Ctx) (dev : B.Dev) (evs : List B.Event) :
    Option (Except EspErr StorageReply × B.Ctx × B.Dev) :=
  if admits B.device allow (B.ops.call op) ctx dev evs then callExec B op ctx dev evs else none

/-- How storage calls are played. -/
abbrev CallPlayer (B : StorageBackend) := StorageOp → B.Ctx → B.Dev → List B.Event →
  Option (Except EspErr StorageReply × B.Ctx × B.Dev)

/-- The storage calls of `edgesync_queue_publish`, with the events of each call. -/
def publishExec (call : CallPlayer B) (policy : OverflowPolicy) (message : EdgesyncMessage)
    (ctx : B.Ctx) (dev : B.Dev) (evs : List (List B.Event)) :
    Option (List StorageCall × PublishReport × B.Ctx × B.Dev) :=
  match call (.enqueue message) ctx dev (evs.getD 0 []) with
  | some (.ok .done, ctx1, dev1) => some ([(.enqueue message, .ok .done)], ⟨.ok (), none⟩, ctx1, dev1)
  | some (.error err, ctx1, dev1) =>
      if err = .queueFull ∧ policy ≠ .rejectNew then
        match call (.findDropCandidate policy) ctx1 dev1 (evs.getD 1 []) with
        | some (.error err, ctx2, dev2) => some
            ([(.enqueue message, .error .queueFull), (.findDropCandidate policy, .error err)],
              ⟨.error .queueFull, none⟩, ctx2, dev2)
        | some (.ok (.candidate id), ctx2, dev2) =>
            match call (.remove id) ctx2 dev2 (evs.getD 2 []) with
            | some (removed, ctx3, dev3) =>
                let calls := fun res => [(.enqueue message, .error .queueFull),
                  (.findDropCandidate policy, .ok (.candidate id)), (.remove id, removed),
                  (.enqueue message, res)]
                match call (.enqueue message) ctx3 dev3 (evs.getD 3 []) with
                | some (.ok .done, ctx4, dev4) =>
                    some (calls (.ok .done), ⟨.ok (), some id⟩, ctx4, dev4)
                | some (.error err, ctx4, dev4) =>
                    some (calls (.error err), ⟨.error err, some id⟩, ctx4, dev4)
                | _ => none
            | none => none
        | _ => none
      else some ([(.enqueue message, .error err)], ⟨.error err, none⟩, ctx1, dev1)
  | _ => none

/-- Take a step, if the tasks are in a state for it. -/
def Tasks.actBy (call : CallPlayer B) (cfg : StackConfig) (s : Tasks B) (a : TasksAction)
    (evs : List (List B.Event)) : Option (TasksLabel × Tasks B) :=
  match a with
  | .publish p message =>
      if s.publishers p = .idle then
        match publishExec call cfg.overflowPolicy message s.ctx s.dev evs with
        | some (calls, report, ctx', dev') => some (.publish p message calls report,
            { s with ctx := ctx', dev := dev' }.setPublisher p (.released report message))
        | none => none
      else none
  | .publisherFires p =>
      match s.publishers p with
      | ⟨(event, id) :: events, wakes⟩ =>
          some (.publisherFires p event id, s.setPublisher p ⟨events, wakes⟩)
      | _ => none
  | .wake p =>
      if s.publishers p = ⟨[], true⟩ then
        some (.wake p, { s with notified := s.notified + 1 }.setPublisher p .idle)
      else none
  | .claim nowUs =>
      if s.worker = .firing [] then
        match call (.claimNext nowUs) s.ctx s.dev (evs.getD 0 []) with
        | some (res, ctx', dev') => some (.claim nowUs res,
            { s with ctx := ctx', dev := dev', worker := .afterClaim res })
        | none => none
      else none
  | .take =>
      if s.worker = .resting then some (.take,
        { s with worker := if s.notified = 0 then .blocked else .firing [], notified := 0 })
      else none
  | .woken =>
      if s.worker = .blocked ∧ s.notified ≠ 0 then
        some (.woken, { s with worker := .firing [], notified := 0 })
      else none
  | .timeout =>
      if s.worker = .blocked then some (.timeout, { s with worker := .firing [], notified := 0 })
      else none
  | .deliver result nowUs randomU32 =>
      match s.worker with
      | .delivering msg => some (.deliver msg result nowUs randomU32,
          let handled := handleDeliveryResult cfg.retry msg nowUs randomU32 result
          { s with worker := .settling handled.1 (handled.2.map (·, msg.id)) })
      | _ => none
  | .settle =>
      match s.worker with
      | .settling op events =>
          match call op s.ctx s.dev (evs.getD 0 []) with
          | some (res, ctx', dev') => some (.settle op res,
              { s with
                ctx := ctx'
                dev := dev'
                counters := s.counters.after op res
                worker := .firing events })
          | none => none
      | _ => none
  | .workerFires =>
      match s.worker with
      | .firing ((event, id) :: events) =>
          some (.workerFires event id, { s with worker := .firing events })
      | _ => none
  | .stats =>
      match call (.getStats {}) s.ctx s.dev (evs.getD 0 []) with
      | some (res, ctx', dev') =>
          some (.stats res (s.counters.stats res), { s with ctx := ctx', dev := dev' })
      | none => none

/-- Take a step, with any events. -/
def Tasks.act (cfg : StackConfig) (s : Tasks B) (a : TasksAction) (evs : List (List B.Event)) :
    Option (TasksLabel × Tasks B) := s.actBy (callExec B) cfg a evs

/-- Play a script; the labels of the steps taken so far come first. -/
def Tasks.play (cfg : StackConfig) : Tasks B → List (TasksAction × List (List B.Event)) →
    List TasksLabel → Option (List TasksLabel × Tasks B)
  | s, [], labels => some (labels, s)
  | s, (a, evs) :: script, labels =>
      match s.act cfg a evs with
      | none => none
      | some (label, s') => s'.play cfg script (labels ++ [label])

variable {env : Env B.Call B.Dev B.Event} {cfg : StackConfig} {s s' : Tasks B}

/-- The environment permits the events of the calls. -/
def EventsIn (env : Env B.Call B.Dev B.Event) (evs : List (List B.Event)) : Prop :=
  ∀ call ∈ evs, ∀ ev ∈ call, ∀ dev c, env dev c ev

theorem EventsIn.getD {evs : List (List B.Event)} (h : EventsIn env evs) (n : Nat) :
    ∀ ev ∈ evs.getD n [], ∀ dev c, env dev c ev := by
  intro ev hev
  rw [List.getD_eq_getElem?_getD] at hev
  cases hn : evs[n]? with
  | none => simp [hn] at hev
  | some call => exact h call (List.mem_of_getElem? hn) ev (by simpa [hn] using hev)

theorem callExec_runs (hcalm : ∀ dev c, env dev c B.device.calm) {op : StorageOp} {ctx ctx' : B.Ctx}
    {dev dev' : B.Dev} {evs : List B.Event} {res : Except EspErr StorageReply}
    (hevs : ∀ ev ∈ evs, ∀ dev c, env dev c ev)
    (h : callExec B op ctx dev evs = some (res, ctx', dev')) :
    Runs B.device env (B.ops.call op) ctx dev (.returned res ctx' dev') := by
  have hrun := exec_runs hcalm (B.ops.call op) ctx dev evs hevs
  unfold callExec at h
  split at h
  case h_1 hexec =>
    rw [hexec] at hrun
    cases h
    exact hrun
  case h_2 hexec =>
    rw [hexec] at hrun
    cases h
    exact hrun
  case h_3 => cases h

/-- The calls that are played are runs. -/
def PlaysRuns (call : CallPlayer B) (env : Env B.Call B.Dev B.Event) (evs : List (List B.Event)) :
    Prop :=
  ∀ (n : Nat) (op : StorageOp) (ctx ctx' : B.Ctx) (dev dev' : B.Dev)
    (res : Except EspErr StorageReply), call op ctx dev (evs.getD n []) = some (res, ctx', dev') →
    Runs B.device env (B.ops.call op) ctx dev (.returned res ctx' dev')

theorem callAdmitted_runs {allow : B.Call → B.Event → Bool} {op : StorageOp} {ctx ctx' : B.Ctx}
    {dev dev' : B.Dev} {evs : List B.Event} {res : Except EspErr StorageReply}
    (h : callAdmitted B allow op ctx dev evs = some (res, ctx', dev')) :
    Runs B.device (fun _ c ev => allow c ev = true) (B.ops.call op) ctx dev
      (.returned res ctx' dev') := by
  unfold callAdmitted at h
  split at h
  case isFalse => cases h
  case isTrue hadmits =>
    have hrun := @runs_of_admits _ _ _ _ _ _ _ B.device (fun _ c ev => allow c ev = true) allow
      (fun _ _ _ hev => hev) (B.ops.call op) ctx dev evs hadmits
    unfold callExec at h
    split at h
    case h_1 hexec =>
      rw [hexec] at hrun
      cases h
      exact hrun
    case h_2 hexec =>
      rw [hexec] at hrun
      cases h
      exact hrun
    case h_3 => cases h

theorem publishExec_calls {call : CallPlayer B} {policy : OverflowPolicy}
    {message : EdgesyncMessage} {ctx ctx' : B.Ctx} {dev dev' : B.Dev}
    {evs : List (List B.Event)} {calls : List StorageCall} {report : PublishReport}
    (hplays : PlaysRuns call env evs)
    (h : publishExec call policy message ctx dev evs = some (calls, report, ctx', dev')) :
    Calls B env ctx dev calls ctx' dev' ∧ PublishCalls policy message calls report := by
  unfold publishExec at h
  split at h
  case h_1 hfirst =>
    cases h
    exact ⟨.cons (hplays 0 _ _ _ _ _ _ hfirst) .nil, .accepted⟩
  case h_3 => cases h
  case h_2 err ctx1 dev1 hfirst =>
    have run1 := hplays 0 _ _ _ _ _ _ hfirst
    split at h
    case isFalse hkeep =>
      cases h
      refine ⟨.cons run1 .nil, .rejected fun herr => ?_⟩
      by_contra hp
      exact hkeep ⟨herr, hp⟩
    case isTrue hfull =>
      obtain ⟨rfl, hdrops⟩ := hfull
      split at h
      case h_3 => cases h
      case h_1 hsecond =>
        cases h
        exact ⟨.cons run1 (.cons (hplays 1 _ _ _ _ _ _ hsecond) .nil),
          .noCandidate hdrops⟩
      case h_2 id ctx2 dev2 hsecond =>
        have run2 := hplays 1 _ _ _ _ _ _ hsecond
        split at h
        case h_2 => cases h
        case h_1 removed ctx3 dev3 hthird =>
          have run3 := hplays 2 _ _ _ _ _ _ hthird
          dsimp only at h
          split at h
          case h_3 => cases h
          case h_1 hfourth =>
            cases h
            exact ⟨.cons run1 (.cons run2 (.cons run3
              (.cons (hplays 3 _ _ _ _ _ _ hfourth) .nil))), .replaced hdrops⟩
          case h_2 hfourth =>
            cases h
            exact ⟨.cons run1 (.cons run2 (.cons run3
              (.cons (hplays 3 _ _ _ _ _ _ hfourth) .nil))), .dropped hdrops⟩

/-- What is played is a step. -/
theorem Tasks.actBy_step {call : CallPlayer B} {a : TasksAction} {evs : List (List B.Event)}
    {label : TasksLabel} (hplays : PlaysRuns call env evs)
    (h : s.actBy call cfg a evs = some (label, s')) : TasksStep env cfg s label s' := by
  cases a with
  | publish p message =>
    simp only [Tasks.actBy] at h
    split at h
    case isFalse => cases h
    case isTrue hidle =>
      split at h
      case h_2 => cases h
      case h_1 hexec =>
        cases h
        obtain ⟨run, made⟩ := publishExec_calls hplays hexec
        exact .publish hidle run made
  | publisherFires p =>
    simp only [Tasks.actBy] at h
    split at h
    case h_2 => cases h
    case h_1 hfires =>
      cases h
      exact .publisherFires hfires
  | wake p =>
    simp only [Tasks.actBy] at h
    split at h
    case isFalse => cases h
    case isTrue hwakes =>
      cases h
      exact .wake hwakes
  | claim nowUs =>
    simp only [Tasks.actBy] at h
    split at h
    case isFalse => cases h
    case isTrue hready =>
      split at h
      case h_2 => cases h
      case h_1 hexec =>
        cases h
        exact .claim hready (hplays 0 _ _ _ _ _ _ hexec)
  | take =>
    simp only [Tasks.actBy] at h
    split at h
    case isFalse => cases h
    case isTrue hrests =>
      cases h
      exact .take hrests
  | woken =>
    simp only [Tasks.actBy] at h
    split at h
    case isFalse => cases h
    case isTrue hwoken =>
      cases h
      exact .woken hwoken.1 hwoken.2
  | timeout =>
    simp only [Tasks.actBy] at h
    split at h
    case isFalse => cases h
    case isTrue hblocked =>
      cases h
      exact .timeout hblocked
  | deliver result nowUs randomU32 =>
    simp only [Tasks.actBy] at h
    split at h
    case h_2 => cases h
    case h_1 hdelivers =>
      cases h
      exact .deliver hdelivers
  | settle =>
    simp only [Tasks.actBy] at h
    split at h
    case h_2 => cases h
    case h_1 hsettles =>
      split at h
      case h_2 => cases h
      case h_1 hexec =>
        cases h
        exact .settle hsettles (hplays 0 _ _ _ _ _ _ hexec)
  | workerFires =>
    simp only [Tasks.actBy] at h
    split at h
    case h_2 => cases h
    case h_1 hfires =>
      cases h
      exact .workerFires hfires
  | stats =>
    simp only [Tasks.actBy] at h
    split at h
    case h_2 => cases h
    case h_1 hexec =>
      cases h
      exact .stats (hplays 0 _ _ _ _ _ _ hexec)

theorem Tasks.act_step (hcalm : ∀ dev c, env dev c B.device.calm) {a : TasksAction}
    {evs : List (List B.Event)} {label : TasksLabel} (hevs : EventsIn env evs)
    (h : s.act cfg a evs = some (label, s')) : TasksStep env cfg s label s' :=
  actBy_step (fun n _ _ _ _ _ _ hcall => callExec_runs hcalm (hevs.getD n) hcall) h

/-- What is played is a run. -/
theorem Tasks.play_run (hcalm : ∀ dev c, env dev c B.device.calm)
    {script : List (TasksAction × List (List B.Event))} {s0 : Tasks B}
    {labels labels' : List TasksLabel} (hevs : ∀ x ∈ script, EventsIn env x.2)
    (run : StepRun (TasksStep env cfg) s0 labels s) (h : s.play cfg script labels = some (labels', s')) :
    StepRun (TasksStep env cfg) s0 labels' s' := by
  induction script generalizing s labels with
  | nil =>
    cases h
    exact run
  | cons x script ih =>
    obtain ⟨a, evs⟩ := x
    rw [Tasks.play] at h
    cases hact : s.act cfg a evs with
    | none => simp [hact] at h
    | some y =>
      obtain ⟨label, s1⟩ := y
      rw [hact] at h
      exact ih (fun x hx => hevs x (List.mem_cons_of_mem _ hx))
        (run.snoc (act_step hcalm (hevs _ List.mem_cons_self) hact)) h

/-- A script that can be played, and whose outcome passes a test. -/
theorem Tasks.play_passes (env : Env B.Call B.Dev B.Event)
    (hcalm : ∀ dev c, env dev c B.device.calm)
    {script : List (TasksAction × List (List B.Event))} {test : List TasksLabel × Tasks B → Bool}
    (hevs : ∀ x ∈ script, EventsIn env x.2) (h : (s.play cfg script []).any test = true) :
    ∃ labels s', StepRun (TasksStep env cfg) s labels s' ∧ test (labels, s') = true := by
  cases hplay : s.play cfg script [] with
  | none => simp [hplay] at h
  | some out => exact ⟨out.1, out.2, play_run hcalm hevs .nil hplay, by simpa [hplay] using h⟩

/-- Play a script whose steps all pass a guard on the state before them. -/
def Tasks.playGuarded (cfg : StackConfig) (guard : Tasks B → TasksLabel → Bool) :
    Tasks B → List (TasksAction × List (List B.Event)) → List TasksLabel →
    Option (List TasksLabel × Tasks B)
  | s, [], labels => some (labels, s)
  | s, (a, evs) :: script, labels =>
      match s.act cfg a evs with
      | none => none
      | some (label, s') =>
          if guard s label then s'.playGuarded cfg guard script (labels ++ [label]) else none

theorem Tasks.playGuarded_run (env : Env B.Call B.Dev B.Event)
    (hcalm : ∀ dev c, env dev c B.device.calm) {guard : Tasks B → TasksLabel → Bool}
    {script : List (TasksAction × List (List B.Event))} {s0 : Tasks B}
    {labels labels' : List TasksLabel} (hevs : ∀ x ∈ script, EventsIn env x.2)
    (run : StepRun (Guarded (TasksStep env cfg) fun s label => guard s label = true) s0 labels s)
    (h : s.playGuarded cfg guard script labels = some (labels', s')) :
    StepRun (Guarded (TasksStep env cfg) fun s label => guard s label = true) s0 labels' s' := by
  induction script generalizing s labels with
  | nil =>
    cases h
    exact run
  | cons x script ih =>
    obtain ⟨a, evs⟩ := x
    rw [Tasks.playGuarded] at h
    cases hact : s.act cfg a evs with
    | none => simp [hact] at h
    | some y =>
      obtain ⟨label, s1⟩ := y
      simp only [hact] at h
      split at h
      case isFalse => cases h
      case isTrue hguard =>
        have hstep := act_step hcalm (hevs _ List.mem_cons_self) hact
        exact ih (fun x hx => hevs x (List.mem_cons_of_mem _ hx)) (run.snoc ⟨hstep, hguard⟩) h

/-- A script without events. -/
theorem eventsIn_nil {script : List (TasksAction × List (List B.Event))}
    (hq : ∀ x ∈ script, x.2 = []) : ∀ x ∈ script, EventsIn env x.2 := by
  intro x hx call hcall
  rw [hq x hx] at hcall
  exact absurd hcall List.not_mem_nil

/-- Actions without events. -/
theorem eventsIn_map (actions : List TasksAction) :
    ∀ x ∈ actions.map fun a => (a, ([] : List (List B.Event))), EventsIn env x.2 := by
  refine eventsIn_nil fun x hx => ?_
  obtain ⟨a, -, rfl⟩ := List.mem_map.mp hx
  rfl

end Script

end EdgeSync
