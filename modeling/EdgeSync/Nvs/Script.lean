/-
  Nvs/Script.lean --- playing the NVS backend under a script.

  As for the flash queue: a script names the steps and the events of their calls,
  `play` computes the run.
-/
import EdgeSync.Flashq.Script
import EdgeSync.Nvs.System

set_option autoImplicit false

namespace EdgeSync

open Foundation

/-- A step with the events of its store calls. -/
abbrev NvsScript : Type := List (FlashqAction × List BlobEvent)

/-- The NVS backend as a storage system. -/
abbrev NvsSystem (usage : BlobStore → UInt32 × UInt32) (cfg : NvsConfig) : Type :=
  StorageSystem (nvsBackend usage cfg)

/-- A store that does not tell its usage. -/
def noUsage : BlobStore → UInt32 × UInt32 := fun _ => (0, 0)

variable (cfg : NvsConfig)

/-- Take a step, if the system is in a state for it. -/
def nvsAct : NvsSystem noUsage cfg → FlashqAction → List BlobEvent →
    Option (FlashqStepLabel × NvsSystem noUsage cfg)
  | .on ctx s, .call op, evs =>
      match exec (blobDevice noUsage) (nvsCall cfg op) ctx s evs with
      | .ok reply ctx' s' => some (.call op (.ok reply), .on ctx' s')
      | .error err ctx' s' => some (.call op (.error err), .on ctx' s')
      | .cut s' => some (.callCut op, .off s')
  | .on _ s, .stop, _ => some (.stopped, .off s)
  | .off s, .boot, evs =>
      match exec (blobDevice noUsage) (nvsOpRecover cfg) (NvsCtx.fresh cfg) s evs with
      | .ok _ ctx' s' => some (.booted, .on ctx' s')
      | .error err _ s' => some (.bootFailed err, .off s')
      | .cut s' => some (.bootCut, .off s')
  | _, _, _ => none

/-- Play a script; the labels of the steps taken so far come first. -/
def nvsPlay : NvsSystem noUsage cfg → NvsScript → List FlashqStepLabel →
    Option (List FlashqStepLabel × NvsSystem noUsage cfg)
  | sys, [], labels => some (labels, sys)
  | sys, (a, evs) :: script, labels =>
      match nvsAct cfg sys a evs with
      | none => none
      | some (label, sys') => nvsPlay sys' script (labels ++ [label])

variable {cfg} {env : Env BlobCall BlobStore BlobEvent} {sys sys' : NvsSystem noUsage cfg}

theorem nvsAct_step {a : FlashqAction} {evs : List BlobEvent} {label : FlashqStepLabel}
    (hcalm : ∀ s c, env s c .run) (hevs : ∀ ev ∈ evs, ∀ s c, env s c ev)
    (h : nvsAct cfg sys a evs = some (label, sys')) :
    StorageStep (nvsBackend noUsage cfg) (nvsWorld noUsage cfg env) sys label sys' := by
  have hruns : ∀ {α : Type} (x : NvsM α) ctx s,
      Runs (blobDevice noUsage) env x ctx s (exec (blobDevice noUsage) x ctx s evs) :=
    fun x ctx s => exec_runs hcalm x ctx s evs hevs
  cases sys with
  | off s =>
    cases a with
    | call op => simp [nvsAct] at h
    | stop => simp [nvsAct] at h
    | boot =>
      have hrun := hruns (nvsOpRecover cfg) (NvsCtx.fresh cfg) s
      rw [nvsAct] at h
      split at h <;> rename_i hexec <;> rw [hexec] at hrun <;> cases h
      · exact .boot rfl hrun
      · exact .bootFail rfl hrun
      · exact .bootCut rfl hrun
  | on ctx s =>
    cases a with
    | boot => simp [nvsAct] at h
    | stop =>
      cases h
      exact .stop
    | call op =>
      have hrun := hruns (nvsCall cfg op) ctx s
      rw [nvsAct] at h
      split at h <;> rename_i hexec <;> rw [hexec] at hrun <;> cases h
      · exact .call hrun
      · exact .call hrun
      · exact .cut hrun

/-- What is played is a run. -/
theorem nvsPlay_run {sys0 : NvsSystem noUsage cfg} {script : NvsScript}
    {labels labels' : List FlashqStepLabel} (hcalm : ∀ s c, env s c .run)
    (hevs : ∀ x ∈ script, ∀ ev ∈ x.2, ∀ s c, env s c ev)
    (run : StorageRun (nvsBackend noUsage cfg) (nvsWorld noUsage cfg env) sys0 labels sys)
    (h : nvsPlay cfg sys script labels = some (labels', sys')) :
    StorageRun (nvsBackend noUsage cfg) (nvsWorld noUsage cfg env) sys0 labels' sys' := by
  induction script generalizing sys labels with
  | nil =>
    cases h
    exact run
  | cons x script ih =>
    obtain ⟨a, evs⟩ := x
    rw [nvsPlay] at h
    cases hact : nvsAct cfg sys a evs with
    | none => simp [hact] at h
    | some y =>
      obtain ⟨label, sys1⟩ := y
      rw [hact] at h
      exact ih (fun x hx => hevs x (List.mem_cons_of_mem _ hx))
        (run.snoc (nvsAct_step hcalm (hevs _ List.mem_cons_self) hact)) h

/-- A script without events plays a run without faults. -/
theorem nvsPlay_quiet {script : NvsScript} {labels : List FlashqStepLabel}
    (hq : ∀ x ∈ script, x.2 = []) (h : nvsPlay cfg sys script [] = some (labels, sys')) :
    StorageRun (nvsBackend noUsage cfg) (nvsWorld noUsage cfg quietStore) sys labels sys' := by
  refine nvsPlay_run (fun _ _ => rfl) (fun x hx ev hev => ?_) .nil h
  rw [hq x hx] at hev
  exact absurd hev List.not_mem_nil

/-- The limits of `smallConfig`. -/
def smallStore : NvsConfig where
  maxMessages := 4
  maxMessageSize := 64
  maxMessages_ne := smallConfig.maxMessages_ne

end EdgeSync
