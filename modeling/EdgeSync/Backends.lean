/-
  Backends.lean --- the two backends behind one interface.

  `StorageBackend` collects what a user of a backend may rely on: its device, its
  table of operations, and what a call does to the entries of its index.  A
  storage system is a backend over many calls and many boots; for the flash queue
  it is the system of `Flashq/System.lean`.
-/
import EdgeSync.Flashq.System
import EdgeSync.Flashq.Ram
import EdgeSync.Nvs.Ram

set_option autoImplicit false

namespace EdgeSync

open Foundation

/-! ## Backends -/

/-- A storage backend: its device, its table of operations, and what a call does
to the entries of its index under any faults.  The index of 32-bit capacity is counted
by `op_get_stats`. -/
structure StorageBackend where
  Call : Type
  Reply : Call → Type
  Ctx : Type
  Dev : Type
  Event : Type
  device : Device Call Reply Dev Event
  ops : StorageOps (Prog Call Reply Ctx EspErr)
  fresh : Ctx
  metas : Ctx → List EntryMeta
  capacity : Nat
  early : Bool
  call_step : ∀ (op : StorageOp) (ctx : Ctx), leaves (ops.call op)
    (fun reply c => CallStep early capacity (metas ctx) op (.ok reply) (metas c))
    (fun err c => CallStep early capacity (metas ctx) op (.error err) (metas c)) ctx
  capacity_lt : capacity < 2 ^ 32
  stats_counted : ∀ (stats : EdgesyncStats) (ctx : Ctx), leaves (ops.call (.getStats stats))
    (fun reply c => c = ctx ∧ ∃ stats', reply = .stats stats' ∧
      StatsAgree stats' ((metas ctx).foldl EdgesyncStats.count stats))
    (fun _ _ => False) ctx

/-- The flash queue. -/
def flashqBackend (cfg : FlashqConfig) : StorageBackend where
  Call := FlashCall
  Reply := FlashReply
  Ctx := FlashqCtx
  Dev := Memory
  Event := FlashEvent
  device := cfg.device
  ops := sFlashqOps cfg
  fresh := FlashqCtx.fresh cfg
  metas := FlashqCtx.metas
  capacity := cfg.indexCapacity
  early := false
  call_step := leaves_flashqCall cfg
  capacity_lt := cfg.maxMessages.toNat_lt
  stats_counted stats ctx := leaves_mono (leaves_flashqGetStats cfg stats ctx)
    (fun _ _ ⟨hctx, stats', hreply, hcounted, _⟩ => ⟨hctx, stats', hreply, hcounted⟩) fun _ _ h => h

/-- The NVS backend; `usage` tells the used entries of the whole partition. -/
def nvsBackend (usage : BlobStore → UInt32 × UInt32) (cfg : NvsConfig) : StorageBackend where
  Call := BlobCall
  Reply := BlobReply
  Ctx := NvsCtx
  Dev := BlobStore
  Event := BlobEvent
  device := blobDevice usage
  ops := sNvsOps cfg
  fresh := NvsCtx.fresh cfg
  metas := NvsCtx.metas
  capacity := cfg.indexCapacity
  early := true
  call_step := leaves_nvsCall cfg
  capacity_lt := cfg.maxMessages.toNat_lt
  stats_counted := leaves_nvsGetStatsCall cfg

/-! ## Systems -/

/-- A device, switched off or with a running backend. -/
inductive StorageSystem (B : StorageBackend) where
  | off (dev : B.Dev)
  | on (ctx : B.Ctx) (dev : B.Dev)

/-- The device. -/
def StorageSystem.dev {B : StorageBackend} : StorageSystem B → B.Dev
  | .off dev => dev
  | .on _ dev => dev

/-- The events the device may choose during calls, and the environments a restart
picks from. -/
structure StorageWorld (B : StorageBackend) where
  calls : Env B.Call B.Dev B.Event
  boots : Env B.Call B.Dev B.Event → Prop

/-- One step. -/
inductive StorageStep (B : StorageBackend) (W : StorageWorld B) :
    StorageSystem B → FlashqStepLabel → StorageSystem B → Prop where
  | call {ctx ctx' : B.Ctx} {dev dev' : B.Dev} {op : StorageOp} {res : Except EspErr StorageReply}
      (run : Runs B.device W.calls (B.ops.call op) ctx dev (.returned res ctx' dev')) :
      StorageStep B W (.on ctx dev) (.call op res) (.on ctx' dev')
  | cut {ctx : B.Ctx} {dev dev' : B.Dev} {op : StorageOp}
      (run : Runs B.device W.calls (B.ops.call op) ctx dev (.cut dev')) :
      StorageStep B W (.on ctx dev) (.callCut op) (.off dev')
  | stop {ctx : B.Ctx} {dev : B.Dev} : StorageStep B W (.on ctx dev) .stopped (.off dev)
  | boot {env : Env B.Call B.Dev B.Event} {ctx' : B.Ctx} {dev dev' : B.Dev} (picked : W.boots env)
      (run : Runs B.device env B.ops.recover B.fresh dev (.ok () ctx' dev')) :
      StorageStep B W (.off dev) .booted (.on ctx' dev')
  | bootFail {env : Env B.Call B.Dev B.Event} {ctx' : B.Ctx} {dev dev' : B.Dev} {err : EspErr}
      (picked : W.boots env)
      (run : Runs B.device env B.ops.recover B.fresh dev (.error err ctx' dev')) :
      StorageStep B W (.off dev) (.bootFailed err) (.off dev')
  | bootCut {env : Env B.Call B.Dev B.Event} {dev dev' : B.Dev} (picked : W.boots env)
      (run : Runs B.device env B.ops.recover B.fresh dev (.cut dev')) :
      StorageStep B W (.off dev) .bootCut (.off dev')

/-- Many steps; the labels are in order. -/
inductive StorageRun (B : StorageBackend) (W : StorageWorld B) (s : StorageSystem B) :
    List FlashqStepLabel → StorageSystem B → Prop where
  | nil : StorageRun B W s [] s
  | snoc {labels : List FlashqStepLabel} {s' s'' : StorageSystem B} {label : FlashqStepLabel}
      (run : StorageRun B W s labels s') (step : StorageStep B W s' label s'') :
      StorageRun B W s (labels ++ [label]) s''

/-- A run whose steps all meet a condition on the system before the step. -/
inductive GuardedStorageRun (B : StorageBackend) (W : StorageWorld B)
    (guard : StorageSystem B → FlashqStepLabel → Prop) (s : StorageSystem B) :
    List FlashqStepLabel → StorageSystem B → Prop where
  | nil : GuardedStorageRun B W guard s [] s
  | snoc {labels : List FlashqStepLabel} {s' s'' : StorageSystem B} {label : FlashqStepLabel}
      (run : GuardedStorageRun B W guard s labels s') (step : StorageStep B W s' label s'')
      (meets : guard s' label) : GuardedStorageRun B W guard s (labels ++ [label]) s''

/-- Two runs, one after the other. -/
theorem StorageRun.append {B : StorageBackend} {W : StorageWorld B} {s s' s'' : StorageSystem B}
    {labels labels' : List FlashqStepLabel} (run : StorageRun B W s labels s')
    (run' : StorageRun B W s' labels' s'') : StorageRun B W s (labels ++ labels') s'' := by
  induction run' with
  | nil => rwa [List.append_nil]
  | snoc _ step ih =>
    rw [← List.append_assoc]
    exact ih.snoc step

/-- The last step of a run. -/
theorem StorageRun.last {B : StorageBackend} {W : StorageWorld B} {s s'' : StorageSystem B}
    {labels : List FlashqStepLabel} {label : FlashqStepLabel}
    (run : StorageRun B W s (labels ++ [label]) s'') :
    ∃ s', StorageRun B W s labels s' ∧ StorageStep B W s' label s'' := by
  generalize hl : labels ++ [label] = all at run
  cases run with
  | nil => simp at hl
  | snoc run step =>
    obtain ⟨rfl, hlast⟩ := List.append_inj' hl rfl
    cases hlast
    exact ⟨_, run, step⟩

theorem StorageRun.eq_of_nil {B : StorageBackend} {W : StorageWorld B} {s s' : StorageSystem B}
    (run : StorageRun B W s [] s') : s' = s := by
  generalize hl : ([] : List FlashqStepLabel) = all at run
  cases run with
  | nil => rfl
  | snoc run step => simp at hl

/-! ## The flash queue as a storage system -/

section Flashq

variable {cfg : FlashqConfig} {W : FlashqWorld}

/-- The world of a flash queue. -/
def FlashqWorld.storage (cfg : FlashqConfig) (W : FlashqWorld) : StorageWorld (flashqBackend cfg) where
  calls := W.calls
  boots env := ∃ g, env = W.boots g

/-- The state of a flash queue. -/
def StorageSystem.flashq : StorageSystem (flashqBackend cfg) → FlashqSystem
  | .off dev => .off dev
  | .on ctx dev => .on ctx dev

/-- A step of the storage system is a step of the flash queue. -/
theorem StorageStep.flashq {s s' : StorageSystem (flashqBackend cfg)} {label : FlashqStepLabel}
    (step : StorageStep (flashqBackend cfg) (W.storage cfg) s label s') :
    FlashqStep cfg W s.flashq label s'.flashq := by
  cases step with
  | @call ctx ctx' dev dev' op res run =>
    cases res with
    | ok reply => exact .returned run
    | error err => exact .failed run
  | cut run => exact .cut run
  | stop => exact .stop
  | boot picked run =>
    obtain ⟨g, rfl⟩ := picked
    exact .boot run
  | bootFail picked run =>
    obtain ⟨g, rfl⟩ := picked
    exact .bootFail run
  | bootCut picked run =>
    obtain ⟨g, rfl⟩ := picked
    exact .bootCut run

theorem StorageRun.flashq {s s' : StorageSystem (flashqBackend cfg)}
    {labels : List FlashqStepLabel}
    (run : StorageRun (flashqBackend cfg) (W.storage cfg) s labels s') :
    FlashqRun cfg W s.flashq labels s'.flashq := by
  induction run with
  | nil => exact .nil
  | snoc _ step ih => exact ih.snoc step.flashq

end Flashq

end EdgeSync
