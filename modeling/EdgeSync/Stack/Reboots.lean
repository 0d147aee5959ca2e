/-
  Stack/Reboots.lean --- the stack over many boots.

  The power may go while the tasks run, between two of their steps or inside any storage
  call.  A restart recovers the storage and starts the worker; what the tasks had in RAM is
  lost.  A stack that is torn down and set up again without losing power does the same, and a
  worker that is stopped for a while is one that takes no step.
-/
import EdgeSync.Stack.Script
import EdgeSync.Stack.Stats

set_option autoImplicit false

namespace EdgeSync

open Foundation

/-- A device, switched off or with the running stack. -/
inductive StackSystem (B : StorageBackend) where
  | off (dev : B.Dev)
  | on (tasks : Tasks B)

/-- What happens. -/
inductive StackLabel where
  | task (label : TasksLabel)
  /-- the power went during `edgesync_queue_publish`, after `calls` and in `op` -/
  | publishCut (message : EdgesyncMessage) (calls : List StorageCall) (op : StorageOp)
  /-- the power went during a claim, a settlement or `edgesync_queue_get_stats` -/
  | callCut (op : StorageOp)
  | stopped
  | booted
  | bootFailed (err : EspErr)
  | bootCut
  deriving DecidableEq

section System

variable {B : StorageBackend}

/-- A storage call that a task may be in outside a publish. -/
inductive Tasks.Calling (s : Tasks B) : StorageOp → Prop where
  | claim {nowUs : Int64} (ready : s.worker = .firing []) : s.Calling (.claimNext nowUs)
  | settle {op : StorageOp} {events : Events} (settles : s.worker = .settling op events) :
      s.Calling op
  | stats : s.Calling (.getStats {})

/-- One step. -/
inductive StackStep (W : StorageWorld B) (cfg : StackConfig) :
    StackSystem B → StackLabel → StackSystem B → Prop where
  | task {s s' : Tasks B} {label : TasksLabel} (step : TasksStep W.calls cfg s label s') :
      StackStep W cfg (.on s) (.task label) (.on s')
  | publishCut {s : Tasks B} {p : Nat} {message : EdgesyncMessage} {calls : List StorageCall}
      {op : StorageOp} {dev' : B.Dev} (idle : s.publishers p = .idle)
      (run : CallsCut B W.calls s.ctx s.dev calls op dev')
      (made : PublishCut cfg.overflowPolicy message calls op) :
      StackStep W cfg (.on s) (.publishCut message calls op) (.off dev')
  | callCut {s : Tasks B} {op : StorageOp} {dev' : B.Dev} (calling : s.Calling op)
      (run : Runs B.device W.calls (B.ops.call op) s.ctx s.dev (.cut dev')) :
      StackStep W cfg (.on s) (.callCut op) (.off dev')
  | stop {s : Tasks B} : StackStep W cfg (.on s) .stopped (.off s.dev)
  | boot {env : Env B.Call B.Dev B.Event} {ctx' : B.Ctx} {dev dev' : B.Dev} (picked : W.boots env)
      (run : Runs B.device env B.ops.recover B.fresh dev (.ok () ctx' dev')) :
      StackStep W cfg (.off dev) .booted (.on (.start ctx' dev'))
  | bootFail {env : Env B.Call B.Dev B.Event} {ctx' : B.Ctx} {dev dev' : B.Dev} {err : EspErr}
      (picked : W.boots env)
      (run : Runs B.device env B.ops.recover B.fresh dev (.error err ctx' dev')) :
      StackStep W cfg (.off dev) (.bootFailed err) (.off dev')
  | bootCut {env : Env B.Call B.Dev B.Event} {dev dev' : B.Dev} (picked : W.boots env)
      (run : Runs B.device env B.ops.recover B.fresh dev (.cut dev')) :
      StackStep W cfg (.off dev) .bootCut (.off dev')

end System

/-! ## The storage and the worker of a run -/

/-- What the storage sees of a step. -/
def StackLabel.storage : StackLabel → List FlashqStepLabel
  | .task label => label.calls.map StorageCall.label
  | .publishCut _ calls op => calls.map StorageCall.label ++ [.callCut op]
  | .callCut op => [.callCut op]
  | .stopped => [.stopped]
  | .booted => [.booted]
  | .bootFailed err => [.bootFailed err]
  | .bootCut => [.bootCut]

/-- What it sees of a run. -/
def storageLabels (labels : List StackLabel) : List FlashqStepLabel :=
  labels.flatMap StackLabel.storage

theorem storageLabels_snoc (labels : List StackLabel) (label : StackLabel) :
    storageLabels (labels ++ [label]) = storageLabels labels ++ label.storage := by
  rw [storageLabels, List.flatMap_append, List.flatMap_singleton]
  rfl

/-- What the worker does in a step; without power there is none. -/
inductive WorkerStep (cfg : StackConfig) :
    Option WorkerPhase → StackLabel → Option WorkerPhase → Prop where
  | publish {w : WorkerPhase} {p : Nat} {message : EdgesyncMessage} {calls : List StorageCall}
      {report : PublishReport} (made : PublishCalls cfg.overflowPolicy message calls report) :
      WorkerStep cfg (some w) (.task (.publish p message calls report)) (some w)
  | publisherFires {w : WorkerPhase} {p : Nat} {event : EdgesyncEvent} {id : UInt64} :
      WorkerStep cfg (some w) (.task (.publisherFires p event id)) (some w)
  | wake {w : WorkerPhase} {p : Nat} : WorkerStep cfg (some w) (.task (.wake p)) (some w)
  | claim {nowUs : Int64} {res : Except EspErr StorageReply} :
      WorkerStep cfg (some (.firing [])) (.task (.claim nowUs res)) (some (.afterClaim res))
  | take {w : WorkerPhase} (waits : w = .blocked ∨ w = .firing []) :
      WorkerStep cfg (some .resting) (.task .take) (some w)
  | woken : WorkerStep cfg (some .blocked) (.task .woken) (some (.firing []))
  | timeout : WorkerStep cfg (some .blocked) (.task .timeout) (some (.firing []))
  | deliver {msg : ClaimedMessage} {result : DeliveryResult} {nowUs : Int64} {randomU32 : UInt32} :
      WorkerStep cfg (some (.delivering msg)) (.task (.deliver msg result nowUs randomU32))
        (some (.settling (handleDeliveryResult cfg.retry msg nowUs randomU32 result).1
          ((handleDeliveryResult cfg.retry msg nowUs randomU32 result).2.map (·, msg.id))))
  | settle {op : StorageOp} {events : Events} {res : Except EspErr StorageReply} :
      WorkerStep cfg (some (.settling op events)) (.task (.settle op res)) (some (.firing events))
  | workerFires {event : EdgesyncEvent} {id : UInt64} {events : Events} :
      WorkerStep cfg (some (.firing ((event, id) :: events))) (.task (.workerFires event id))
        (some (.firing events))
  | stats {w : WorkerPhase} {res : Except EspErr StorageReply} {stats : QueueStats} :
      WorkerStep cfg (some w) (.task (.stats res stats)) (some w)
  | publishCut {w : WorkerPhase} {message : EdgesyncMessage} {calls : List StorageCall}
      {op : StorageOp} (made : PublishCut cfg.overflowPolicy message calls op) :
      WorkerStep cfg (some w) (.publishCut message calls op) none
  | claimCut {nowUs : Int64} :
      WorkerStep cfg (some (.firing [])) (.callCut (.claimNext nowUs)) none
  | settleCut {op : StorageOp} {events : Events} :
      WorkerStep cfg (some (.settling op events)) (.callCut op) none
  | statsCut {w : WorkerPhase} : WorkerStep cfg (some w) (.callCut (.getStats {})) none
  | stopped {w : WorkerPhase} : WorkerStep cfg (some w) .stopped none
  | booted : WorkerStep cfg none .booted (some (.firing []))
  | bootFailed {err : EspErr} : WorkerStep cfg none (.bootFailed err) none
  | bootCut : WorkerStep cfg none .bootCut none

section Parts

variable {B : StorageBackend} {W : StorageWorld B} {cfg : StackConfig} {s s' : StackSystem B}
  {label : StackLabel} {labels : List StackLabel}

/-- The storage of a system. -/
def StackSystem.storage : StackSystem B → StorageSystem B
  | .off dev => .off dev
  | .on s => .on s.ctx s.dev

/-- Its worker. -/
def StackSystem.worker? : StackSystem B → Option WorkerPhase
  | .off _ => none
  | .on s => some s.worker

/-- Calls that returned are a run of the storage. -/
theorem Calls.run {ctx ctx' : B.Ctx} {dev dev' : B.Dev} {calls : List StorageCall}
    (h : Calls B W.calls ctx dev calls ctx' dev') :
    StepRun (StorageStep B W) (.on ctx dev) (calls.map StorageCall.label) (.on ctx' dev') := by
  induction h with
  | nil => exact .nil
  | @cons ctx ctx1 ctx2 dev dev1 dev2 op res calls run rest ih =>
    have hfirst : StepRun (StorageStep B W) (.on ctx dev) [.call op res] (.on ctx1 dev1) :=
      StepRun.single_iff.mpr (.call run)
    exact hfirst.append ih

/-- A step of a task is a run of the storage. -/
theorem TasksStep.storage {s s' : Tasks B} {label : TasksLabel}
    (step : TasksStep W.calls cfg s label s') :
    StepRun (StorageStep B W) (.on s.ctx s.dev) (label.calls.map StorageCall.label)
      (.on s'.ctx s'.dev) := by
  cases step with
  | publish idle run made => exact run.run
  | claim ready run => exact StepRun.single_iff.mpr (.call run)
  | settle settles run => exact StepRun.single_iff.mpr (.call run)
  | stats run => exact StepRun.single_iff.mpr (.call run)
  | _ => exact .nil

/-- A step of the stack is a run of its storage. -/
theorem StackStep.storage (step : StackStep W cfg s label s') :
    StepRun (StorageStep B W) s.storage label.storage s'.storage := by
  cases step with
  | task step => exact step.storage
  | publishCut idle run made =>
    obtain ⟨ctx1, dev1, calls, cut⟩ := run
    exact calls.run.append (StepRun.single_iff.mpr (.cut cut))
  | callCut calling run => exact StepRun.single_iff.mpr (.cut run)
  | stop => exact StepRun.single_iff.mpr .stop
  | boot picked run => exact StepRun.single_iff.mpr (.boot picked run)
  | bootFail picked run => exact StepRun.single_iff.mpr (.bootFail picked run)
  | bootCut picked run => exact StepRun.single_iff.mpr (.bootCut picked run)

theorem TasksStep.worker {s s' : Tasks B} {label : TasksLabel}
    (step : TasksStep W.calls cfg s label s') :
    WorkerStep cfg (some s.worker) (.task label) (some s'.worker) := by
  cases step with
  | publish idle run made => exact .publish made
  | publisherFires fires => exact .publisherFires
  | wake wakes => exact .wake
  | claim ready run =>
    rw [ready]
    exact .claim
  | take rests =>
    rw [rests]
    refine .take ?_
    show (if s.notified = 0 then WorkerPhase.blocked else .firing []) = _ ∨ _
    split
    · exact .inl rfl
    · exact .inr rfl
  | woken blocked notified =>
    rw [blocked]
    exact .woken
  | timeout blocked =>
    rw [blocked]
    exact .timeout
  | deliver delivers =>
    rw [delivers]
    exact .deliver
  | settle settles run =>
    rw [settles]
    exact .settle
  | workerFires fires =>
    rw [fires]
    exact .workerFires
  | stats run => exact .stats

/-- A step of the stack is a step of its worker. -/
theorem StackStep.worker (step : StackStep W cfg s label s') :
    WorkerStep cfg s.worker? label s'.worker? := by
  cases step with
  | task step => exact step.worker
  | publishCut idle run made => exact .publishCut made
  | @callCut s op dev' calling run =>
    show WorkerStep cfg (some s.worker) (.callCut op) none
    cases calling with
    | claim ready =>
      rw [ready]
      exact .claimCut
    | settle settles =>
      rw [settles]
      exact .settleCut
    | stats => exact .statsCut
  | stop => exact .stopped
  | boot picked run => exact .booted
  | bootFail picked run => exact .bootFailed
  | bootCut picked run => exact .bootCut

end Parts

/-! ## Scripts -/

/-- A step, before its outcome is known. -/
inductive StackAction where
  | task (action : TasksAction)
  | claimCut (nowUs : Int64)
  | settleCut
  | stop
  | boot

section Script

variable {B : StorageBackend}

/-- A storage call that the power cuts. -/
def cutExec (B : StorageBackend) (op : StorageOp) (ctx : B.Ctx) (dev : B.Dev) (evs : List B.Event) :
    Option B.Dev :=
  match exec B.device (B.ops.call op) ctx dev evs with
  | .cut dev' => some dev'
  | _ => none

/-- Take a step, if the system is in a state for it. -/
def StackSystem.act (cfg : StackConfig) :
    StackSystem B → StackAction → List (List B.Event) → Option (StackLabel × StackSystem B)
  | .on s, .task action, evs =>
      match s.act cfg action evs with
      | some (label, s') => some (.task label, .on s')
      | none => none
  | .on s, .claimCut nowUs, evs =>
      if s.worker = .firing [] then
        match cutExec B (.claimNext nowUs) s.ctx s.dev (evs.getD 0 []) with
        | some dev' => some (.callCut (.claimNext nowUs), .off dev')
        | none => none
      else none
  | .on s, .settleCut, evs =>
      match s.worker with
      | .settling op _ =>
          match cutExec B op s.ctx s.dev (evs.getD 0 []) with
          | some dev' => some (.callCut op, .off dev')
          | none => none
      | _ => none
  | .on s, .stop, _ => some (.stopped, .off s.dev)
  | .off dev, .boot, evs =>
      match exec B.device B.ops.recover B.fresh dev (evs.getD 0 []) with
      | .ok () ctx' dev' => some (.booted, .on (.start ctx' dev'))
      | .error err _ dev' => some (.bootFailed err, .off dev')
      | .cut dev' => some (.bootCut, .off dev')
  | _, _, _ => none

/-- A script, with the events of the storage calls of each step. -/
abbrev StackScript (B : StorageBackend) : Type := List (StackAction × List (List B.Event))

/-- Play a script; the labels of the steps taken so far come first. -/
def StackSystem.play (cfg : StackConfig) : StackSystem B → StackScript B → List StackLabel →
    Option (List StackLabel × StackSystem B)
  | s, [], labels => some (labels, s)
  | s, (a, evs) :: script, labels =>
      match s.act cfg a evs with
      | none => none
      | some (label, s') => s'.play cfg script (labels ++ [label])

variable {W : StorageWorld B} {cfg : StackConfig} {s s' : StackSystem B}

theorem cutExec_runs {env : Env B.Call B.Dev B.Event} (hcalm : ∀ dev c, env dev c B.device.calm)
    {op : StorageOp} {ctx : B.Ctx} {dev dev' : B.Dev} {evs : List B.Event}
    (hevs : ∀ ev ∈ evs, ∀ dev c, env dev c ev) (h : cutExec B op ctx dev evs = some dev') :
    Runs B.device env (B.ops.call op) ctx dev (.cut dev') := by
  have hrun := exec_runs hcalm (B.ops.call op) ctx dev evs hevs
  unfold cutExec at h
  split at h
  · rename_i hexec
    cases h
    rwa [hexec] at hrun
  · cases h

/-- What is played is a step. -/
theorem StackSystem.act_step (hcalm : ∀ dev c, W.calls dev c B.device.calm) (hboot : W.boots W.calls)
    {a : StackAction} {evs : List (List B.Event)} {label : StackLabel}
    (hevs : EventsIn W.calls evs) (h : s.act cfg a evs = some (label, s')) :
    StackStep W cfg s label s' := by
  cases s with
  | off dev =>
    cases a with
    | boot =>
      have hrun := exec_runs hcalm B.ops.recover B.fresh dev (evs.getD 0 []) (hevs.getD 0)
      simp only [StackSystem.act] at h
      split at h <;> rename_i hexec <;> rw [hexec] at hrun <;> cases h
      · exact .boot hboot hrun
      · exact .bootFail hboot hrun
      · exact .bootCut hboot hrun
    | _ => simp [StackSystem.act] at h
  | on s =>
    cases a with
    | task action =>
      simp only [StackSystem.act] at h
      split at h
      case h_2 => cases h
      case h_1 hact =>
        cases h
        exact .task (Tasks.act_step hcalm hevs hact)
    | claimCut nowUs =>
      simp only [StackSystem.act] at h
      split at h
      case isFalse => cases h
      case isTrue hready =>
        split at h
        case h_2 => cases h
        case h_1 hexec =>
          cases h
          exact .callCut (.claim hready) (cutExec_runs hcalm (hevs.getD 0) hexec)
    | settleCut =>
      simp only [StackSystem.act] at h
      split at h
      case h_2 => cases h
      case h_1 hsettles =>
        split at h
        case h_2 => cases h
        case h_1 hexec =>
          cases h
          exact .callCut (.settle hsettles) (cutExec_runs hcalm (hevs.getD 0) hexec)
    | stop =>
      cases h
      exact .stop
    | boot => simp [StackSystem.act] at h

/-- What is played is a run. -/
theorem StackSystem.play_run (hcalm : ∀ dev c, W.calls dev c B.device.calm)
    (hboot : W.boots W.calls) {script : StackScript B} {s0 : StackSystem B}
    {labels labels' : List StackLabel} (hevs : ∀ x ∈ script, EventsIn W.calls x.2)
    (run : StepRun (StackStep W cfg) s0 labels s) (h : s.play cfg script labels = some (labels', s')) :
    StepRun (StackStep W cfg) s0 labels' s' := by
  induction script generalizing s labels with
  | nil =>
    cases h
    exact run
  | cons x script ih =>
    obtain ⟨a, evs⟩ := x
    rw [StackSystem.play] at h
    cases hact : s.act cfg a evs with
    | none => simp [hact] at h
    | some y =>
      obtain ⟨label, s1⟩ := y
      rw [hact] at h
      exact ih (fun x hx => hevs x (List.mem_cons_of_mem _ hx))
        (run.snoc (act_step hcalm hboot (hevs _ List.mem_cons_self) hact)) h

end Script

end EdgeSync
