/-
  Foundation/Wp.lean --- devices, environments and weakest preconditions.

  A `Device` answers one call at a time, under the influence of an event the
  outside world chooses: the call works, the call fails, the power goes.  An
  `Env` says which events the world may choose at a given device state and call.
  A statement "for every fault pattern of this kind" is a statement about one
  environment, and a weaker environment makes a stronger statement.

  `Runs` is the relational big-step semantics, `exec` its executable form under a
  script of events, and `wp` the weakest precondition with three postconditions:
  for a value, for an error (with the volatile state it leaves) and for a power
  cut (where only the device state is left).  `wp_iff_runs` ties `wp` to `Runs`.
-/
import EdgeSync.Foundation.Prog

set_option autoImplicit false

namespace EdgeSync.Foundation

variable {C : Type} {R : C → Type} {σ δ ε Ev α β : Type}

/-- How a device ends a call. -/
inductive Response (δ ρ : Type) where
  | reply (r : ρ) (dev : δ)
  | cut (dev : δ)

/-- A device with state `δ`, driven by events `Ev`; `calm` is the event under
which every call works. -/
structure Device (C : Type) (R : C → Type) (δ Ev : Type) where
  respond : δ → (c : C) → Ev → Response δ (R c)
  calm : Ev

/-- The events the world may choose for a call. -/
abbrev Env (C δ Ev : Type) : Type := δ → C → Ev → Prop

/-- How a run ends. -/
inductive Outcome (σ δ ε α : Type) where
  | ok (value : α) (ram : σ) (dev : δ)
  | error (err : ε) (ram : σ) (dev : δ)
  | cut (dev : δ)

/-- A postcondition for each way a run can end. -/
structure Post (σ δ ε α : Type) where
  ok : α → σ → δ → Prop
  error : ε → σ → δ → Prop
  cut : δ → Prop

namespace Outcome

/-- The outcome satisfies the matching part of the postcondition. -/
def Meets (P : Post σ δ ε α) : Outcome σ δ ε α → Prop
  | ok a s d => P.ok a s d
  | error e s d => P.error e s d
  | cut d => P.cut d

@[simp] theorem meets_ok {P : Post σ δ ε α} {a : α} {s : σ} {d : δ} :
    (ok a s d).Meets P ↔ P.ok a s d := Iff.rfl

@[simp] theorem meets_error {P : Post σ δ ε α} {e : ε} {s : σ} {d : δ} :
    (error e s d).Meets P ↔ P.error e s d := Iff.rfl

@[simp] theorem meets_cut {P : Post σ δ ε α} {d : δ} :
    (cut d : Outcome σ δ ε α).Meets P ↔ P.cut d := Iff.rfl

/-- A run that came back, with a value or with an error. -/
def returned : Except ε α → σ → δ → Outcome σ δ ε α
  | .ok a, s, d => ok a s d
  | .error e, s, d => error e s d

/-- The device state a run leaves behind. -/
def dev : Outcome σ δ ε α → δ
  | ok _ _ d => d
  | error _ _ d => d
  | cut d => d

end Outcome

/-! ## Running a program -/

/-- `Runs D env x s d o`: some events that `env` allows make `x` end in `o`. -/
inductive Runs (D : Device C R δ Ev) (env : Env C δ Ev) :
    Prog C R σ ε α → σ → δ → Outcome σ δ ε α → Prop where
  | ret (a : α) (s : σ) (d : δ) : Runs D env (.ret a) s d (.ok a s d)
  | fail (e : ε) (s : σ) (d : δ) : Runs D env (.fail e) s d (.error e s d)
  | look {k : σ → Prog C R σ ε α} {s : σ} {d : δ} {o : Outcome σ δ ε α}
      (rest : Runs D env (k s) s d o) : Runs D env (.look k) s d o
  | put {k : Prog C R σ ε α} {s s' : σ} {d : δ} {o : Outcome σ δ ε α}
      (rest : Runs D env k s' d o) : Runs D env (.put s' k) s d o
  | reply {c : C} {k : R c → Prog C R σ ε α} {s : σ} {d d' : δ} {ev : Ev} {r : R c}
      {o : Outcome σ δ ε α} (allowed : env d c ev)
      (answer : D.respond d c ev = .reply r d') (rest : Runs D env (k r) s d' o) :
      Runs D env (.call c k) s d o
  | cut {c : C} {k : R c → Prog C R σ ε α} {s : σ} {d d' : δ} {ev : Ev}
      (allowed : env d c ev) (answer : D.respond d c ev = .cut d') :
      Runs D env (.call c k) s d (.cut d')

/-- Run a program under a script: one event a call, `calm` once the script is
used up. -/
def exec (D : Device C R δ Ev) : Prog C R σ ε α → σ → δ → List Ev → Outcome σ δ ε α
  | .ret a, s, d, _ => .ok a s d
  | .fail e, s, d, _ => .error e s d
  | .look k, s, d, evs => exec D (k s) s d evs
  | .put s' k, _, d, evs => exec D k s' d evs
  | .call c k, s, d, evs =>
      match D.respond d c (evs.headD D.calm) with
      | .reply r d' => exec D (k r) s d' evs.tail
      | .cut d' => .cut d'

/-- A scripted run is a run of every environment that allows the script. -/
theorem exec_runs {D : Device C R δ Ev} {env : Env C δ Ev}
    (hcalm : ∀ d c, env d c D.calm) (x : Prog C R σ ε α) (s : σ) (d : δ) (evs : List Ev)
    (hevs : ∀ ev ∈ evs, ∀ d c, env d c ev) : Runs D env x s d (exec D x s d evs) := by
  induction x generalizing s d evs with
  | ret a => exact .ret a s d
  | fail e => exact .fail e s d
  | look k ih => exact .look (ih s s d evs hevs)
  | put s' k ih => exact .put (ih s' d evs hevs)
  | call c k ih =>
    have hhead : env d c (evs.headD D.calm) := by
      cases evs with
      | nil => exact hcalm d c
      | cons ev rest => exact hevs ev List.mem_cons_self d c
    have htail : ∀ ev ∈ evs.tail, ∀ d c, env d c ev :=
      fun ev hev => hevs ev (List.mem_of_mem_tail hev)
    rw [exec]
    split
    · rename_i r d' hr
      exact .reply hhead hr (ih r s d' evs.tail htail)
    · rename_i d' hr
      exact .cut hhead hr

/-- Every event the script spends is one that `allow` permits for its call. -/
def admits (D : Device C R δ Ev) (allow : C → Ev → Bool) : Prog C R σ ε α → σ → δ → List Ev → Bool
  | .ret _, _, _, _ => true
  | .fail _, _, _, _ => true
  | .look k, s, d, evs => admits D allow (k s) s d evs
  | .put s' k, _, d, evs => admits D allow k s' d evs
  | .call c k, s, d, evs =>
      allow c (evs.headD D.calm) &&
        match D.respond d c (evs.headD D.calm) with
        | .reply r d' => admits D allow (k r) s d' evs.tail
        | .cut _ => true

/-- A script that is permitted call by call is a run. -/
theorem runs_of_admits {D : Device C R δ Ev} {env : Env C δ Ev} {allow : C → Ev → Bool}
    (henv : ∀ d c ev, allow c ev = true → env d c ev) (x : Prog C R σ ε α) {s : σ} {d : δ}
    {evs : List Ev} (h : admits D allow x s d evs = true) :
    Runs D env x s d (exec D x s d evs) := by
  induction x generalizing s d evs with
  | ret a => exact .ret a s d
  | fail e => exact .fail e s d
  | look k ih => exact .look (ih s h)
  | put s' k ih => exact .put (ih h)
  | call c k ih =>
    rw [admits] at h
    obtain ⟨hhead, hrest⟩ := Bool.and_eq_true_iff.mp h
    rw [exec]
    split
    · rename_i r d' hr
      rw [hr] at hrest
      exact .reply (henv _ _ _ hhead) hr (ih r hrest)
    · rename_i d' hr
      exact .cut (henv _ _ _ hhead) hr

/-- Where everything is permitted, every script is. -/
theorem admits_any {D : Device C R δ Ev} (x : Prog C R σ ε α) (s : σ) (d : δ) (evs : List Ev) :
    admits D (fun _ _ => true) x s d evs = true := by
  induction x generalizing s d evs with
  | ret a => rfl
  | fail e => rfl
  | look k ih => exact ih s s d evs
  | put s' k ih => exact ih s' d evs
  | call c k ih =>
    rw [admits, Bool.true_and]
    cases D.respond d c (evs.headD D.calm) with
    | reply r d' => exact ih r s d' evs.tail
    | cut d' => rfl

/-- Where no event can cut the power, no run ends in a power cut. -/
theorem Runs.not_cut {D : Device C R δ Ev} {env : Env C δ Ev} {x : Prog C R σ ε α} {s : σ} {d d' : δ}
    (hnone : ∀ d c ev d', env d c ev → D.respond d c ev ≠ .cut d') :
    ¬ Runs D env x s d (.cut d') := by
  intro run
  generalize ho : (Outcome.cut d' : Outcome σ δ ε α) = o at run
  induction run with
  | ret a s d => exact absurd ho (by simp)
  | fail e s d => exact absurd ho (by simp)
  | look rest ih => exact ih ho
  | put rest ih => exact ih ho
  | reply allowed answer rest ih => exact ih ho
  | cut allowed answer => exact hnone _ _ _ _ allowed answer

/-- A run of a program that returns, and of what comes next. -/
theorem Runs.bind_ok {D : Device C R δ Ev} {env : Env C δ Ev} {x : Prog C R σ ε β}
    {f : β → Prog C R σ ε α} {b : β} {s s' : σ} {d d' : δ} {o : Outcome σ δ ε α}
    (run : Runs D env x s d (.ok b s' d')) (rest : Runs D env (f b) s' d' o) :
    Runs D env (x.bind f) s d o := by
  generalize ho : (Outcome.ok b s' d' : Outcome σ δ ε β) = o' at run
  induction run with
  | ret a s d =>
    cases ho
    exact rest
  | fail e s d => exact absurd ho (by simp)
  | look _ ih => exact .look (ih ho)
  | put _ ih => exact .put (ih ho)
  | reply allowed answer _ ih => exact .reply allowed answer (ih ho)
  | cut allowed answer => exact absurd ho (by simp)

/-- An error ends a sequence. -/
theorem Runs.bind_error {D : Device C R δ Ev} {env : Env C δ Ev} {x : Prog C R σ ε β}
    {f : β → Prog C R σ ε α} {e : ε} {s s' : σ} {d d' : δ}
    (run : Runs D env x s d (.error e s' d')) : Runs D env (x.bind f) s d (.error e s' d') := by
  generalize ho : (Outcome.error e s' d' : Outcome σ δ ε β) = o' at run
  induction run with
  | ret a s d => exact absurd ho (by simp)
  | fail e s d =>
    cases ho
    exact .fail _ _ _
  | look _ ih => exact .look (ih ho)
  | put _ ih => exact .put (ih ho)
  | reply allowed answer _ ih => exact .reply allowed answer (ih ho)
  | cut allowed answer => exact absurd ho (by simp)

/-- The weakest precondition, by recursion over the program. -/
def Prog.demand (D : Device C R δ Ev) (env : Env C δ Ev) :
    Prog C R σ ε α → Post σ δ ε α → σ → δ → Prop
  | .ret a, P, s, d => P.ok a s d
  | .fail e, P, s, d => P.error e s d
  | .look k, P, s, d => (k s).demand D env P s d
  | .put s' k, P, _, d => k.demand D env P s' d
  | .call c k, P, s, d => ∀ ev, env d c ev →
      match D.respond d c ev with
      | .reply r d' => (k r).demand D env P s d'
      | .cut d' => P.cut d'

/-- From `s` and `d`, every run of the program in `env` meets `P`. -/
def wp (D : Device C R δ Ev) (env : Env C δ Ev) (x : Prog C R σ ε α) (P : Post σ δ ε α) (s : σ)
    (d : δ) : Prop := x.demand D env P s d

section Rules

variable {D : Device C R δ Ev} {env : Env C δ Ev} {P Q : Post σ δ ε α} {s : σ} {d : δ}

@[simp] theorem wp_ret {a : α} : wp D env (.ret a) P s d ↔ P.ok a s d := Iff.rfl

@[simp] theorem wp_fail {e : ε} : wp D env (.fail e) P s d ↔ P.error e s d := Iff.rfl

@[simp] theorem wp_look {k : σ → Prog C R σ ε α} :
    wp D env (.look k) P s d ↔ wp D env (k s) P s d := Iff.rfl

@[simp] theorem wp_put {s' : σ} {k : Prog C R σ ε α} :
    wp D env (.put s' k) P s d ↔ wp D env k P s' d := Iff.rfl

theorem wp_call {c : C} {k : R c → Prog C R σ ε α} :
    wp D env (.call c k) P s d ↔ ∀ ev, env d c ev →
      match D.respond d c ev with
      | .reply r d' => wp D env (k r) P s d'
      | .cut d' => P.cut d' := Iff.rfl

/-- Consequence: a weaker postcondition in a more restrained environment. -/
theorem wp_mono_env {env' : Env C δ Ev} {x : Prog C R σ ε α} (h : wp D env x P s d)
    (henv : ∀ d c ev, env' d c ev → env d c ev)
    (hok : ∀ a s d, P.ok a s d → Q.ok a s d)
    (herror : ∀ e s d, P.error e s d → Q.error e s d)
    (hcut : ∀ d, P.cut d → Q.cut d) : wp D env' x Q s d := by
  induction x generalizing s d with
  | ret a => exact hok a s d h
  | fail e => exact herror e s d h
  | look k ih => exact ih s h
  | put s' k ih => exact ih h
  | call c k ih =>
    intro ev hev
    have hc := h ev (henv d c ev hev)
    split
    · rename_i r d' hr
      rw [hr] at hc
      exact ih r hc
    · rename_i d' hr
      rw [hr] at hc
      exact hcut d' hc

theorem wp_mono {x : Prog C R σ ε α} (h : wp D env x P s d)
    (hok : ∀ a s d, P.ok a s d → Q.ok a s d)
    (herror : ∀ e s d, P.error e s d → Q.error e s d)
    (hcut : ∀ d, P.cut d → Q.cut d) : wp D env x Q s d :=
  wp_mono_env h (fun _ _ _ hev => hev) hok herror hcut

/-- Branching. -/
theorem wp_ite {c : Prop} [Decidable c] {x y : Prog C R σ ε α} :
    wp D env (if c then x else y) P s d ↔ (c → wp D env x P s d) ∧ (¬ c → wp D env y P s d) := by
  split <;> simp_all

/-- Sequential composition. -/
@[simp] theorem wp_bind {x : Prog C R σ ε β} {f : β → Prog C R σ ε α} :
    wp D env (x.bind f) P s d ↔
      wp D env x ⟨fun a s d => wp D env (f a) P s d, P.error, P.cut⟩ s d := by
  induction x generalizing s d with
  | ret a => exact Iff.rfl
  | fail e => exact Iff.rfl
  | look k ih => exact ih s
  | put s' k ih => exact ih
  | call c k ih =>
    refine forall_congr' fun ev => imp_congr_right fun _ => ?_
    split
    · rename_i r d' _
      exact ih r
    · exact Iff.rfl

@[simp] theorem wp_read {P : Post σ δ ε σ} :
    wp D env (Prog.read : Prog C R σ ε σ) P s d ↔ P.ok s s d := Iff.rfl

@[simp] theorem wp_modify {P : Post σ δ ε Unit} {f : σ → σ} :
    wp D env (Prog.modify f : Prog C R σ ε Unit) P s d ↔ P.ok () (f s) d := Iff.rfl

/-- An attempted program cannot raise an error. -/
@[simp] theorem wp_attempt {x : Prog C R σ ε α} {P : Post σ δ ε (Except ε α)} :
    wp D env x.attempt P s d ↔
      wp D env x ⟨fun a => P.ok (.ok a), fun e => P.ok (.error e), P.cut⟩ s d := by
  induction x generalizing s d with
  | ret a => exact Iff.rfl
  | fail e => exact Iff.rfl
  | look k ih => exact ih s
  | put s' k ih => exact ih
  | call c k ih =>
    refine forall_congr' fun ev => imp_congr_right fun _ => ?_
    split
    · rename_i r d' _
      exact ih r
    · exact Iff.rfl

/-- Chaining: a specification of the first program, used by the second. -/
theorem wp_seq {x : Prog C R σ ε β} {f : β → Prog C R σ ε α} {M : Post σ δ ε β}
    (h : wp D env x M s d) (hok : ∀ a s d, M.ok a s d → wp D env (f a) P s d)
    (herror : ∀ e s d, M.error e s d → P.error e s d) (hcut : ∀ d, M.cut d → P.cut d) :
    wp D env (x.bind f) P s d :=
  wp_bind.mpr (wp_mono h hok herror hcut)

/-- Two facts about one program. -/
theorem wp_and {x : Prog C R σ ε α} (h : wp D env x P s d) (h' : wp D env x Q s d) :
    wp D env x ⟨fun a s d => P.ok a s d ∧ Q.ok a s d, fun e s d => P.error e s d ∧ Q.error e s d,
      fun d => P.cut d ∧ Q.cut d⟩ s d := by
  induction x generalizing s d with
  | ret a => exact ⟨h, h'⟩
  | fail e => exact ⟨h, h'⟩
  | look k ih => exact ih s h h'
  | put s' k ih => exact ih h h'
  | call c k ih =>
    intro ev hev
    have hc := h ev hev
    have hc' := h' ev hev
    split
    · rename_i r d' hr
      rw [hr] at hc hc'
      exact ih r hc hc'
    · rename_i d' hr
      rw [hr] at hc hc'
      exact ⟨hc, hc'⟩

/-- `wp` speaks about every run. -/
theorem wp_sound {x : Prog C R σ ε α} {o : Outcome σ δ ε α} (run : Runs D env x s d o)
    (h : wp D env x P s d) : o.Meets P := by
  induction run with
  | ret a s d => exact h
  | fail e s d => exact h
  | look rest ih => exact ih h
  | put rest ih => exact ih h
  | reply allowed answer rest ih =>
    have := h _ allowed
    rw [answer] at this
    exact ih this
  | cut allowed answer =>
    have := h _ allowed
    rw [answer] at this
    exact this

/-- `wp` demands no more than the runs do. -/
theorem wp_iff_runs {x : Prog C R σ ε α} :
    wp D env x P s d ↔ ∀ o, Runs D env x s d o → o.Meets P := by
  refine ⟨fun h o run => wp_sound run h, fun h => ?_⟩
  induction x generalizing s d with
  | ret a => exact h _ (.ret a s d)
  | fail e => exact h _ (.fail e s d)
  | look k ih => exact ih s fun o run => h o (.look run)
  | put s' k ih => exact ih fun o run => h o (.put run)
  | call c k ih =>
    intro ev hev
    split
    · rename_i r d' hr
      exact ih r fun o run => h o (.reply hev hr run)
    · rename_i d' hr
      exact h _ (.cut hev hr)

end Rules

-- from here on `wp` is used through its rules only
attribute [irreducible] wp

end EdgeSync.Foundation
