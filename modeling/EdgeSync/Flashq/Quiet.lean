/-
  Flashq/Quiet.lean --- the backend on flash without faults.

  Every call of the flash driver works and the power stays on, except between
  two storage calls.  The bytes behind a log are erased, so an append leaves the
  record, and a call that fails fails for want of space.
-/
import EdgeSync.Flashq.Script

set_option autoImplicit false

namespace EdgeSync

open Foundation

/-- Every call works. -/
def calmEnv : Env FlashCall Memory FlashEvent := fun _ _ ev => ev = .run

/-- Flash without faults. -/
def quietWorld : FlashqWorld := ⟨calmEnv, fun _ => calmEnv⟩

/-- The only event without faults. -/
def calmAllows : FlashCall → FlashEvent → Bool := fun _ ev => ev == .run

/-- A script without faults plays a run. -/
theorem quiet_play {cfg : FlashqConfig} {s s' : FlashqSystem} {script : FlashqScript}
    {labels : List FlashqStepLabel} (hp : s.playPermits cfg calmAllows calmAllows script = true)
    (h : s.play cfg script [] = some (labels, s')) : FlashqRun cfg quietWorld s labels s' := by
  have hcalm : ∀ m c ev, calmAllows c ev = true → calmEnv m c ev :=
    fun _ _ _ hev => by simpa [calmAllows, calmEnv] using hev
  exact FlashqSystem.play_run hcalm hcalm .nil hp h

/-- An append to erased flash leaves the record and erased flash behind it. -/
theorem append_to_erased {cfg : FlashqConfig} {v : Memory} {e : Nat} {h : RecordHdr} {data : Bytes}
    (hv : ErasedFrom cfg v e) (hd : data.length = h.bodyBytes)
    (hfit : e + h.totalSize ≤ cfg.regionSize) :
    (v.program e (recordBytes h data)).bytesAt e h.totalSize = recordBytes h data ∧
      ErasedFrom cfg (v.program e (recordBytes h data)) (e + h.totalSize) := by
  have hlen := length_recordBytes hd
  have hread := hv.bytesAt_program (recordBytes h data) (by rw [hlen]; exact hfit)
  have herased := hv.program (recordBytes h data)
  rw [hlen] at hread herased
  exact ⟨hread, herased⟩

theorem ErasedFrom.congr {cfg : FlashqConfig} {v w : Memory} {e : Nat}
    (hvw : AgreeOn w v e cfg.regionSize) (h : ErasedFrom cfg v e) : ErasedFrom cfg w e :=
  fun i h1 h2 => (hvw i h1 h2).trans (h i h1 h2)

theorem landed_refl (data : Bytes) : Landed data data := by
  induction data with
  | nil => exact .nil
  | cons b data ih => exact .cons (.inl rfl) ih

theorem landed_of_eq {data data' : Bytes} (h : data = data') : Landed data data' :=
  h ▸ landed_refl data

/-- The regime of flash without faults. -/
def quiet (cfg : FlashqConfig) : Regime cfg where
  env := calmEnv
  mayFail := False
  lossy := False
  Tail := ErasedFrom cfg
  Torn := Eq
  read_events := fun h => .inl h
  write_events := fun h => .inl h
  erase_events := fun h => .inl h
  tail_stop := acceptAt_of_erasedFrom
  tail_erased := fun h => h
  tail_congr := ErasedFrom.congr
  torn_refl := fun _ => rfl
  torn_landed := landed_of_eq
  append_run := fun _ _ htail _ hd hfit _ => .inr (append_to_erased htail hd hfit)
  append_cut := fun _ _ _ _ _ _ hev => absurd hev (by simp [calmEnv])
  guarded := 0
  header_guard := fun _ _ hev => absurd hev (by simp [calmEnv])
  scan_guard := fun _ _ _ => ⟨fun hev => absurd hev (by simp [calmEnv]),
    fun hev => absurd hev (by simp [calmEnv])⟩

section Calm

variable {cfg : FlashqConfig}

theorem calm_respond {m m' : Memory} {c : FlashCall} {ev : FlashEvent} (h : calmEnv m c ev) :
    cfg.device.respond m c ev ≠ .cut m' := by
  obtain rfl : ev = .run := h
  cases c <;> simp only [FlashqConfig.device, flashDevice] <;> split <;> simp

theorem calm_not_cut {α : Type} {x : FlashqM α} {ctx : FlashqCtx} {m m' : Memory} :
    ¬ Runs cfg.device calmEnv x ctx m (.cut m') :=
  Runs.not_cut fun _ _ _ _ h => calm_respond h

/-- The run without faults. -/
theorem calm_runs {α : Type} {x : FlashqM α} {ctx : FlashqCtx} {m : Memory} :
    Runs cfg.device calmEnv x ctx m (exec cfg.device x ctx m []) := by
  have hcalm : ∀ m c, calmEnv m c cfg.device.calm := fun _ _ => rfl
  exact exec_runs hcalm x ctx m [] fun ev hev => absurd hev List.not_mem_nil

/-- A step of a script without events. -/
theorem quiet_act {s s' : FlashqSystem} {a : FlashqAction} {label : FlashqStepLabel}
    (h : s.act cfg a [] = some (label, s')) : FlashqStep cfg quietWorld s label s' := by
  cases s with
  | off m =>
    cases a with
    | call op => simp [FlashqSystem.act] at h
    | stop => simp [FlashqSystem.act] at h
    | boot =>
      have hrun := @calm_runs cfg _ (opRecover cfg) (FlashqCtx.fresh cfg) m
      rw [FlashqSystem.act] at h
      split at h <;> rename_i hexec <;> rw [hexec] at hrun <;> cases h
      · exact .boot (g := 0) hrun
      · exact .bootFail (g := 0) hrun
      · exact .bootCut (g := 0) hrun
  | on ctx m =>
    cases a with
    | boot => simp [FlashqSystem.act] at h
    | stop =>
      cases h
      exact .stop
    | call op =>
      have hrun := @calm_runs cfg _ (flashqCall cfg op) ctx m
      rw [FlashqSystem.act] at h
      split at h <;> rename_i hexec <;> rw [hexec] at hrun <;> cases h
      · exact .returned hrun
      · exact .failed hrun
      · exact .cut hrun

/-- A script without events plays a run without faults. -/
theorem silent_play {s0 s s' : FlashqSystem} {script : FlashqScript}
    {labels labels' : List FlashqStepLabel} (run : FlashqRun cfg quietWorld s0 labels s)
    (hq : ∀ x ∈ script, x.2 = []) (h : s.play cfg script labels = some (labels', s')) :
    FlashqRun cfg quietWorld s0 labels' s' := by
  induction script generalizing s labels with
  | nil =>
    cases h
    exact run
  | cons x script ih =>
    obtain ⟨a, evs⟩ := x
    obtain rfl : evs = [] := hq _ List.mem_cons_self
    rw [FlashqSystem.play] at h
    cases hact : s.act cfg a [] with
    | none => simp [hact] at h
    | some y =>
      obtain ⟨label, s1⟩ := y
      rw [hact] at h
      exact ih (run.snoc (quiet_act hact)) (fun x hx => hq x (List.mem_cons_of_mem _ hx)) h

/-- What one run without faults shows: a specification without a power cut. -/
theorem calm_exec {α : Type} {x : FlashqM α} {ctx : FlashqCtx} {m : Memory}
    {P : Post FlashqCtx Memory EspErr α}
    (h : wp cfg.device calmEnv x P ctx m) : (exec cfg.device x ctx m []).Meets P ∧
      ∀ m', exec cfg.device x ctx m [] ≠ .cut m' := by
  have hrun := @calm_runs cfg _ x ctx m
  exact ⟨wp_sound hrun h, fun m' hcut => calm_not_cut (hcut ▸ hrun)⟩

/-- Where a specification allows neither an error nor a cut, the program returns. -/
theorem calm_exec_ok {α : Type} {x : FlashqM α} {ctx : FlashqCtx} {m : Memory}
    {P : α → FlashqCtx → Memory → Prop}
    (h : wp cfg.device calmEnv x ⟨P, fun _ _ _ => False, fun _ => True⟩ ctx m) :
    ∃ a ctx' m', exec cfg.device x ctx m [] = .ok a ctx' m' ∧ P a ctx' m' := by
  obtain ⟨hmeets, hcut⟩ := calm_exec h
  cases ho : exec cfg.device x ctx m [] with
  | ok a ctx' m' =>
    rw [ho] at hmeets
    exact ⟨a, ctx', m', rfl, hmeets⟩
  | error err ctx' m' =>
    rw [ho] at hmeets
    exact hmeets.elim
  | cut m' => exact absurd ho (hcut m')

end Calm

/-- In a quiet world a call never returns after a power cut. -/
theorem quiet_not_callCut {cfg : FlashqConfig} {s s' : FlashqSystem} {op : StorageOp} :
    ¬ FlashqStep cfg quietWorld s (.callCut op) s' := by
  intro h
  cases h with
  | cut run => exact calm_not_cut run

theorem quiet_not_bootCut {cfg : FlashqConfig} {s s' : FlashqSystem} :
    ¬ FlashqStep cfg quietWorld s .bootCut s' := by
  intro h
  cases h with
  | bootCut run => exact calm_not_cut run

/-- A call of a running backend, from its specification. -/
theorem quiet_effect {cfg : FlashqConfig} {ctx : FlashqCtx} {m : Memory}
    {recs : List (Nat × RecordHdr)} {op : StorageOp} {res : Except EspErr StorageReply}
    {s' : FlashqSystem} (b : Base (quiet cfg) ctx.core m recs) (hfits : op.Fits cfg.maxMessageSize)
    (step : FlashqStep cfg quietWorld (.on ctx m) (.call op res) s') :
    ∃ ctx' m' recs', s' = .on ctx' m' ∧ Effect (quiet cfg) ctx.core m recs op res ctx'.core m' recs' := by
  have hquiet : ¬ (quiet cfg).mayFail := fun h => h
  cases step with
  | returned run =>
    obtain ⟨recs', ef⟩ := call_returned hquiet b hfits run
    exact ⟨_, _, recs', rfl, ef⟩
  | failed run =>
    obtain ⟨recs', ef⟩ := call_failed hquiet b hfits run
    exact ⟨_, _, recs', rfl, ef⟩

/-- The first boot returns. -/
theorem quiet_boot (cfg : FlashqConfig) : ∃ ctx m,
    FlashqStep cfg quietWorld (.off erasedFlash) .booted (.on ctx m) ∧
    ctx.core = Core.initialized (FlashqCtx.fresh cfg).claimScratch ∧
    Base (quiet cfg) ctx.core m [] := by
  have hwp : wp cfg.device calmEnv (opRecover cfg)
      ⟨fun _ _ _ => True, fun _ _ _ => False, fun _ => True⟩ (FlashqCtx.fresh cfg) erasedFlash :=
    wp_opRecover (R := quiet cfg) (image_erased (Q := fun _ => True) trivial)
      requeueInvariant_true (fun _ h => h) (fun _ _ _ _ _ => trivial) (fun _ _ _ _ _ => trivial)
      (fun _ _ _ _ _ _ _ _ _ _ _ => trivial)
      (fun _ _ _ ho _ _ _ _ _ _ _ => erased_not_active _ ho.chosen.active)
      (fun hl => hl.elim) (fun hm => hm.elim) fun _ _ => trivial
  obtain ⟨_, ctx, m, hexec, _⟩ := calm_exec_ok hwp
  have hrun := @calm_runs cfg _ (opRecover cfg) (FlashqCtx.fresh cfg) erasedFlash
  rw [hexec] at hrun
  obtain ⟨hcore, b⟩ := boot_erased (R := quiet cfg) hrun
  exact ⟨ctx, m, .boot (g := 0) hrun, hcore, b⟩

/-- Every call returns. -/
theorem quiet_call {cfg : FlashqConfig} {ctx : FlashqCtx} {m : Memory}
    {recs : List (Nat × RecordHdr)} (op : StorageOp) (b : Base (quiet cfg) ctx.core m recs)
    (hfits : op.Fits cfg.maxMessageSize) :
    ∃ res ctx' m' recs', FlashqStep cfg quietWorld (.on ctx m) (.call op res) (.on ctx' m') ∧
      Effect (quiet cfg) ctx.core m recs op res ctx'.core m' recs' := by
  have hquiet : ¬ (quiet cfg).mayFail := fun h => h
  have hwp : wp cfg.device calmEnv (flashqCall cfg op)
      ⟨fun reply (ctx' : FlashqCtx) m' => ∃ recs',
          Effect (quiet cfg) ctx.core m recs op (.ok reply) ctx'.core m' recs',
        fun err (ctx' : FlashqCtx) m' => ∃ recs',
          Effect (quiet cfg) ctx.core m recs op (.error err) ctx'.core m' recs',
        fun _ => True⟩ ctx m :=
    wp_flashqCall (R := quiet cfg) hquiet b hfits callQueues_true
      (fun _ _ _ recs' ef => ⟨recs', ef⟩) (fun _ _ _ recs' ef => ⟨recs', ef⟩) fun _ _ => trivial
  have hrun := @calm_runs cfg _ (flashqCall cfg op) ctx m
  cases ho : exec cfg.device (flashqCall cfg op) ctx m [] with
  | ok reply ctx' m' =>
    rw [ho] at hrun
    obtain ⟨recs', ef⟩ := wp_sound hrun hwp
    exact ⟨.ok reply, ctx', m', recs', .returned hrun, ef⟩
  | error err ctx' m' =>
    rw [ho] at hrun
    obtain ⟨recs', ef⟩ := wp_sound hrun hwp
    exact ⟨.error err, ctx', m', recs', .failed hrun, ef⟩
  | cut m' =>
    rw [ho] at hrun
    exact absurd hrun calm_not_cut

end EdgeSync
