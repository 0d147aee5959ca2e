/-
  Flashq/Script.lean --- playing the backend under a script.

  A script names the steps of a run and, for each, the events of its flash
  calls.  `play` computes the run; `play_run` says that it is one.
-/
import EdgeSync.Flashq.System

set_option autoImplicit false

namespace EdgeSync

open Foundation

/-- A step a script asks for. -/
inductive FlashqAction where
  | call (op : StorageOp)
  | boot
  | stop
  deriving DecidableEq, Repr

/-- A step with the events of its flash calls. -/
abbrev FlashqScript : Type := List (FlashqAction × List FlashEvent)

variable (cfg : FlashqConfig)

/-- Take a step, if the system is in a state for it. -/
def FlashqSystem.act : FlashqSystem → FlashqAction → List FlashEvent →
    Option (FlashqStepLabel × FlashqSystem)
  | .on ctx m, .call op, evs =>
      match exec cfg.device (flashqCall cfg op) ctx m evs with
      | .ok reply ctx' m' => some (.call op (.ok reply), .on ctx' m')
      | .error err ctx' m' => some (.call op (.error err), .on ctx' m')
      | .cut m' => some (.callCut op, .off m')
  | .on _ m, .stop, _ => some (.stopped, .off m)
  | .off m, .boot, evs =>
      match exec cfg.device (opRecover cfg) (FlashqCtx.fresh cfg) m evs with
      | .ok _ ctx' m' => some (.booted, .on ctx' m')
      | .error err _ m' => some (.bootFailed err, .off m')
      | .cut m' => some (.bootCut, .off m')
  | _, _, _ => none

/-- The events of the step are permitted. -/
def FlashqSystem.permits (allow : FlashCall → FlashEvent → Bool) :
    FlashqSystem → FlashqAction → List FlashEvent → Bool
  | .on ctx m, .call op, evs => admits cfg.device allow (flashqCall cfg op) ctx m evs
  | .off m, .boot, evs => admits cfg.device allow (opRecover cfg) (FlashqCtx.fresh cfg) m evs
  | _, _, _ => true

/-- Play a script; the labels of the steps taken so far come first. -/
def FlashqSystem.play : FlashqSystem → FlashqScript → List FlashqStepLabel →
    Option (List FlashqStepLabel × FlashqSystem)
  | s, [], labels => some (labels, s)
  | s, (a, evs) :: script, labels =>
      match s.act cfg a evs with
      | none => none
      | some (label, s') => s'.play script (labels ++ [label])

/-- Every event of the script is permitted. -/
def FlashqSystem.playPermits (calls boots : FlashCall → FlashEvent → Bool) :
    FlashqSystem → FlashqScript → Bool
  | _, [] => true
  | s, (a, evs) :: script =>
      s.permits cfg (if a = .boot then boots else calls) a evs &&
        match s.act cfg a evs with
        | none => true
        | some (_, s') => s'.playPermits calls boots script

variable {cfg}

variable {W : FlashqWorld} {s s' : FlashqSystem} {calls boots : FlashCall → FlashEvent → Bool}

theorem FlashqSystem.act_step {a : FlashqAction} {evs : List FlashEvent} {label : FlashqStepLabel}
    (hcalls : ∀ m c ev, calls c ev = true → W.calls m c ev)
    (hboots : ∀ m c ev, boots c ev = true → W.boots 0 m c ev)
    (hp : s.permits cfg (if a = .boot then boots else calls) a evs = true)
    (h : s.act cfg a evs = some (label, s')) : FlashqStep cfg W s label s' := by
  cases s with
  | off m =>
    cases a with
    | call op => simp [act] at h
    | stop => simp [act] at h
    | boot =>
      have hrun := runs_of_admits hboots (opRecover cfg) hp
      rw [act] at h
      split at h <;> rename_i hexec <;> rw [hexec] at hrun <;> cases h
      · exact .boot hrun
      · exact .bootFail hrun
      · exact .bootCut hrun
  | on ctx m =>
    cases a with
    | boot => simp [act] at h
    | stop =>
      cases h
      exact .stop
    | call op =>
      have hrun := runs_of_admits hcalls (flashqCall cfg op) hp
      rw [act] at h
      split at h <;> rename_i hexec <;> rw [hexec] at hrun <;> cases h
      · exact .returned hrun
      · exact .failed hrun
      · exact .cut hrun

/-- What is played is a run. -/
theorem FlashqSystem.play_run {s0 : FlashqSystem} {script : FlashqScript}
    {labels labels' : List FlashqStepLabel}
    (hcalls : ∀ m c ev, calls c ev = true → W.calls m c ev)
    (hboots : ∀ m c ev, boots c ev = true → W.boots 0 m c ev)
    (run : FlashqRun cfg W s0 labels s) (hp : s.playPermits cfg calls boots script = true)
    (h : s.play cfg script labels = some (labels', s')) : FlashqRun cfg W s0 labels' s' := by
  induction script generalizing s labels with
  | nil =>
    cases h
    exact run
  | cons x script ih =>
    obtain ⟨a, evs⟩ := x
    rw [playPermits] at hp
    obtain ⟨hperm, hrest⟩ := Bool.and_eq_true_iff.mp hp
    rw [play] at h
    cases hact : s.act cfg a evs with
    | none => simp [hact] at h
    | some y =>
      obtain ⟨label, s1⟩ := y
      rw [hact] at h hrest
      exact ih (run.snoc (act_step hcalls hboots hperm hact)) hrest h

/-- What a script shows without looking at the flash. -/
def FlashqSystem.playLabels (cfg : FlashqConfig) (s : FlashqSystem) (script : FlashqScript) :
    Option (List FlashqStepLabel) := (s.play cfg script []).map (·.1)

theorem FlashqSystem.play_of_labels {s0 : FlashqSystem} {script : FlashqScript}
    {labels : List FlashqStepLabel} (h : s0.playLabels cfg script = some labels) :
    ∃ s, s0.play cfg script [] = some (labels, s) := by
  obtain ⟨⟨labels', s⟩, hplay, rfl⟩ := Option.map_eq_some_iff.mp h
  exact ⟨s, hplay⟩

/-- The smallest partition, for scripts. -/
def smallConfig : FlashqConfig where
  partitionSize := 16384
  maxMessages := 4
  maxMessageSize := 64
  maxMessages_ne := by decide
  aligned := by decide
  sectors := by decide

end EdgeSync
