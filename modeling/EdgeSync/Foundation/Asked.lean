/-
  Foundation/Asked.lean --- which calls a program makes.

  `Only` reads the calls off the text of a program, for any replies; `Requests` speaks
  about the calls of its runs.  What no call of a program changes, no run changes.
-/
import EdgeSync.Foundation.Wp

set_option autoImplicit false

namespace EdgeSync.Foundation

variable {C : Type} {R : C → Type} {σ δ ε Ev α β : Type} {A : C → Prop}

/-- Every call of the program satisfies `A`, whatever the replies and the volatile state. -/
def Only (A : C → Prop) : Prog C R σ ε α → Prop
  | .ret _ => True
  | .fail _ => True
  | .look k => ∀ s, Only A (k s)
  | .put _ k => Only A k
  | .call c k => A c ∧ ∀ r, Only A (k r)

namespace Only

theorem ret (a : α) : Only A (.ret a : Prog C R σ ε α) := trivial

theorem fail (e : ε) : Only A (.fail e : Prog C R σ ε α) := trivial

theorem read : Only A (Prog.read : Prog C R σ ε σ) := fun _ => trivial

theorem modify (f : σ → σ) : Only A (Prog.modify f : Prog C R σ ε Unit) := fun _ => trivial

theorem ask {c : C} (h : A c) : Only A (Prog.ask c : Prog C R σ ε (R c)) := ⟨h, fun _ => trivial⟩

theorem bind {x : Prog C R σ ε β} {f : β → Prog C R σ ε α} (hx : Only A x)
    (hf : ∀ b, Only A (f b)) : Only A (x.bind f) := by
  induction x with
  | ret b => exact hf b
  | fail e => trivial
  | look k ih => exact fun s => ih s (hx s)
  | put s k ih => exact ih hx
  | call c k ih => exact ⟨hx.1, fun r => ih r (hx.2 r)⟩

theorem attempt {x : Prog C R σ ε α} (hx : Only A x) : Only A x.attempt := by
  induction x with
  | ret a => trivial
  | fail e => trivial
  | look k ih => exact fun s => ih s (hx s)
  | put s k ih => exact ih hx
  | call c k ih => exact ⟨hx.1, fun r => ih r (hx.2 r)⟩

theorem ite {c : Prop} [Decidable c] {x y : Prog C R σ ε α} (hx : c → Only A x)
    (hy : ¬ c → Only A y) : Only A (if c then x else y) := by
  split
  case isTrue h => exact hx h
  case isFalse h => exact hy h

theorem mono {B : C → Prop} {x : Prog C R σ ε α} (hx : Only A x) (h : ∀ c, A c → B c) :
    Only B x := by
  induction x with
  | ret a => trivial
  | fail e => trivial
  | look k ih => exact fun s => ih s (hx s)
  | put s k ih => exact ih hx
  | call c k ih => exact ⟨h c hx.1, fun r => ih r (hx.2 r)⟩

end Only

/-- The device after a call. -/
def Response.dev {ρ : Type} : Response δ ρ → δ
  | .reply _ dev => dev
  | .cut dev => dev

/-- A property of the device, however the run ends. -/
def Post.always (I : δ → Prop) : Post σ δ ε α := ⟨fun _ _ => I, fun _ _ => I, I⟩

theorem Outcome.meets_always {I : δ → Prop} {o : Outcome σ δ ε α} :
    o.Meets (.always I) ↔ I o.dev := by
  cases o <;> exact Iff.rfl

theorem wp_always_bind {D : Device C R δ Ev} {env : Env C δ Ev} {I : δ → Prop}
    {x : Prog C R σ ε β} {f : β → Prog C R σ ε α} {s : σ} {d : δ}
    (hx : wp D env x (.always I) s d) (hf : ∀ b s d, I d → wp D env (f b) (.always I) s d) :
    wp D env (x.bind f) (.always I) s d :=
  wp_seq hx hf (fun _ _ _ hd => hd) fun _ hd => hd

/-- What the calls of a program leave alone, its runs leave alone, however they end. -/
theorem Only.keeps {D : Device C R δ Ev} {env : Env C δ Ev} {I : δ → Prop} {x : Prog C R σ ε α}
    {s : σ} {d : δ} (hx : Only A x) (hI : ∀ d c ev, A c → I d → I (D.respond d c ev).dev)
    (hd : I d) : wp D env x (.always I) s d := by
  induction x generalizing s d with
  | ret a => exact wp_ret.mpr hd
  | fail e => exact wp_fail.mpr hd
  | look k ih => exact wp_look.mpr (ih s (hx s) hd)
  | put s' k ih => exact wp_put.mpr (ih hx hd)
  | call c k ih =>
    refine wp_call.mpr fun ev _ => ?_
    have hnext := hI d c ev hx.1 hd
    split
    · rename_i r d' hr
      rw [hr] at hnext
      exact ih r (hx.2 r) hnext
    · rename_i d' hr
      rw [hr] at hnext
      exact hnext

/-! ## Runs in other environments -/

/-- More events, more runs. -/
theorem Runs.mono_env {D : Device C R δ Ev} {env env' : Env C δ Ev} {x : Prog C R σ ε α} {s : σ}
    {d : δ} {o : Outcome σ δ ε α} (run : Runs D env x s d o)
    (h : ∀ d c ev, env d c ev → env' d c ev) : Runs D env' x s d o := by
  induction run with
  | ret a s d => exact .ret a s d
  | fail e s d => exact .fail e s d
  | look _ ih => exact .look ih
  | put _ ih => exact .put ih
  | reply allowed answer _ ih => exact .reply (h _ _ _ allowed) answer ih
  | cut allowed answer => exact .cut (h _ _ _ allowed) answer

/-- Where the world always has an event to choose, a program runs. -/
theorem exists_run {D : Device C R δ Ev} {env : Env C δ Ev} (h : ∀ d c, ∃ ev, env d c ev)
    (x : Prog C R σ ε α) (s : σ) (d : δ) : ∃ o, Runs D env x s d o := by
  induction x generalizing s d with
  | ret a => exact ⟨_, .ret a s d⟩
  | fail e => exact ⟨_, .fail e s d⟩
  | look k ih =>
    obtain ⟨o, run⟩ := ih s s d
    exact ⟨o, .look run⟩
  | put s' k ih =>
    obtain ⟨o, run⟩ := ih s' d
    exact ⟨o, .put run⟩
  | call c k ih =>
    obtain ⟨ev, hev⟩ := h d c
    cases hr : D.respond d c ev with
    | reply r d' =>
      obtain ⟨o, run⟩ := ih r s d'
      exact ⟨o, .reply hev hr run⟩
    | cut d' => exact ⟨_, .cut hev hr⟩

/-- A sequence that returned: its first part returned, and its second after it. -/
theorem Runs.of_bind_ok {D : Device C R δ Ev} {env : Env C δ Ev} {x : Prog C R σ ε β}
    {f : β → Prog C R σ ε α} {a : α} {s s' : σ} {d d' : δ}
    (run : Runs D env (x.bind f) s d (.ok a s' d')) :
    ∃ b s₁ d₁, Runs D env x s d (.ok b s₁ d₁) ∧ Runs D env (f b) s₁ d₁ (.ok a s' d') := by
  induction x generalizing s d with
  | ret b => exact ⟨b, s, d, .ret b s d, run⟩
  | fail e => cases run
  | look k ih =>
    cases run with
    | look rest =>
      obtain ⟨b, s₁, d₁, hx, hf⟩ := ih s rest
      exact ⟨b, s₁, d₁, .look hx, hf⟩
  | put t k ih =>
    cases run with
    | put rest =>
      obtain ⟨b, s₁, d₁, hx, hf⟩ := ih rest
      exact ⟨b, s₁, d₁, .put hx, hf⟩
  | call c k ih =>
    cases run with
    | reply allowed answer rest =>
      obtain ⟨b, s₁, d₁, hx, hf⟩ := ih _ rest
      exact ⟨b, s₁, d₁, .reply allowed answer hx, hf⟩

/-! ## The calls of a run -/

/-- Some run of the program makes the call, in the volatile state before the call. -/
inductive Requests (D : Device C R δ Ev) (env : Env C δ Ev) :
    Prog C R σ ε α → σ → δ → σ → C → Prop where
  | look {k : σ → Prog C R σ ε α} {s s' : σ} {d : δ} {c : C}
      (rest : Requests D env (k s) s d s' c) : Requests D env (.look k) s d s' c
  | put {k : Prog C R σ ε α} {s s₁ s' : σ} {d : δ} {c : C} (rest : Requests D env k s₁ d s' c) :
      Requests D env (.put s₁ k) s d s' c
  | here {c : C} {k : R c → Prog C R σ ε α} {s : σ} {d : δ} : Requests D env (.call c k) s d s c
  | later {c c' : C} {k : R c → Prog C R σ ε α} {s s' : σ} {d d' : δ} {ev : Ev} {r : R c}
      (allowed : env d c ev) (answer : D.respond d c ev = .reply r d')
      (rest : Requests D env (k r) s d' s' c') : Requests D env (.call c k) s d s' c'

section Requests

variable {D : Device C R δ Ev} {env : Env C δ Ev} {s s' : σ} {d : δ} {c : C}

theorem Only.requests {x : Prog C R σ ε α} (hx : Only A x) (h : Requests D env x s d s' c) :
    A c := by
  induction h with
  | look rest ih => exact ih (hx _)
  | put rest ih => exact ih hx
  | here => exact hx.1
  | later allowed answer rest ih => exact ih (hx.2 _)

@[simp] theorem requests_ret {a : α} : ¬ Requests D env (.ret a : Prog C R σ ε α) s d s' c := nofun

@[simp] theorem requests_fail {e : ε} : ¬ Requests D env (.fail e : Prog C R σ ε α) s d s' c := nofun

@[simp] theorem requests_read_bind {f : σ → Prog C R σ ε α} :
    Requests D env (Prog.read.bind f) s d s' c ↔ Requests D env (f s) s d s' c := by
  refine ⟨fun h => ?_, .look⟩
  cases h with
  | look rest => exact rest

@[simp] theorem requests_modify_bind {g : σ → σ} {f : Unit → Prog C R σ ε α} :
    Requests D env ((Prog.modify g).bind f) s d s' c ↔ Requests D env (f ()) (g s) d s' c := by
  refine ⟨fun h => ?_, fun h => .look (.put h)⟩
  cases h with
  | look h =>
    cases h with
    | put rest => exact rest

/-- The calls of a sequence: those of its first part, and those of the second after it. -/
theorem requests_bind {x : Prog C R σ ε β} {f : β → Prog C R σ ε α} :
    Requests D env (x.bind f) s d s' c ↔ Requests D env x s d s' c ∨
      ∃ b s₁ d₁, Runs D env x s d (.ok b s₁ d₁) ∧ Requests D env (f b) s₁ d₁ s' c := by
  constructor
  · intro h
    induction x generalizing s d with
    | ret b => exact .inr ⟨b, s, d, .ret b s d, h⟩
    | fail e => cases h
    | look k ih =>
      cases h with
      | look rest =>
        refine (ih s rest).imp .look ?_
        rintro ⟨b, s₁, d₁, run, hf⟩
        exact ⟨b, s₁, d₁, .look run, hf⟩
    | put t k ih =>
      cases h with
      | put rest =>
        refine (ih rest).imp .put ?_
        rintro ⟨b, s₁, d₁, run, hf⟩
        exact ⟨b, s₁, d₁, .put run, hf⟩
    | call c' k ih =>
      cases h with
      | here => exact .inl .here
      | later allowed answer rest =>
        refine (ih _ rest).imp (.later allowed answer) ?_
        rintro ⟨b, s₁, d₁, run, hf⟩
        exact ⟨b, s₁, d₁, .reply allowed answer run, hf⟩
  · rintro (h | ⟨b, s₁, d₁, run, h⟩)
    · induction h with
      | look rest ih => exact .look ih
      | put rest ih => exact .put ih
      | here => exact .here
      | later allowed answer rest ih => exact .later allowed answer ih
    · generalize ho : (Outcome.ok b s₁ d₁ : Outcome σ δ ε β) = o at run
      induction run with
      | ret a s d =>
        cases ho
        exact h
      | fail e s d => cases ho
      | look _ ih => exact .look (ih ho)
      | put _ ih => exact .put (ih ho)
      | reply allowed answer _ ih => exact .later allowed answer (ih ho)
      | cut allowed answer => cases ho

/-- The calls under a script. -/
def callsOn (D : Device C R δ Ev) : Prog C R σ ε α → σ → δ → List Ev → List C
  | .ret _, _, _, _ => []
  | .fail _, _, _, _ => []
  | .look k, s, d, evs => callsOn D (k s) s d evs
  | .put s' k, _, d, evs => callsOn D k s' d evs
  | .call c k, s, d, evs => c ::
      match D.respond d c (evs.headD D.calm) with
      | .reply r d' => callsOn D (k r) s d' evs.tail
      | .cut _ => []

/-- Where the world is never unusually bad, the calls under the empty script are made. -/
theorem requests_of_mem (hcalm : ∀ d c, env d c D.calm) (x : Prog C R σ ε α)
    (h : c ∈ callsOn D x s d []) : ∃ s', Requests D env x s d s' c := by
  induction x generalizing s d with
  | ret a => cases h
  | fail e => cases h
  | look k ih =>
    obtain ⟨s', hs⟩ := ih s h
    exact ⟨s', .look hs⟩
  | put t k ih =>
    obtain ⟨s', hs⟩ := ih h
    exact ⟨s', .put hs⟩
  | call c' k ih =>
    rw [callsOn] at h
    rcases List.mem_cons.mp h with rfl | h
    · exact ⟨s, .here⟩
    · split at h
      · rename_i r d' hr
        obtain ⟨s', hs⟩ := ih r h
        exact ⟨s', .later (hcalm _ _) hr hs⟩
      · cases h

end Requests

/-! ## Audited programs -/

/-- From `s` on, whatever the replies: the volatile state satisfies `I` at every call and at
the end, every call satisfies `A` and a result `Q`. -/
def Prog.audit (I : σ → Prop) (A : C → Prop) (Q : α → Prop) : Prog C R σ ε α → σ → Prop
  | .ret a, s => I s ∧ Q a
  | .fail _, s => I s
  | .look k, s => (k s).audit I A Q s
  | .put s' k, _ => k.audit I A Q s'
  | .call c k, s => (I s ∧ A c) ∧ ∀ r, (k r).audit I A Q s

/-- The program keeps `I`, makes only calls that satisfy `A`, and returns what satisfies `Q`. -/
structure Audited (I : σ → Prop) (A : C → Prop) (Q : α → Prop) (x : Prog C R σ ε α) : Prop where
  audit : ∀ s, I s → x.audit I A Q s

namespace Audited

variable {I : σ → Prop} {Q : α → Prop}

theorem ret {a : α} (h : Q a) : Audited I A Q (.ret a : Prog C R σ ε α) :=
  ⟨fun _ hs => ⟨hs, h⟩⟩

theorem fail (e : ε) : Audited I A Q (.fail e : Prog C R σ ε α) := ⟨fun _ hs => hs⟩

theorem read : Audited I A I (Prog.read : Prog C R σ ε σ) := ⟨fun _ hs => ⟨hs, hs⟩⟩

theorem modify {f : σ → σ} (h : ∀ s, I s → I (f s)) :
    Audited I A (fun _ => True) (Prog.modify f : Prog C R σ ε Unit) :=
  ⟨fun s hs => ⟨h s hs, trivial⟩⟩

theorem ask {c : C} (h : A c) : Audited I A (fun _ => True) (Prog.ask c : Prog C R σ ε (R c)) :=
  ⟨fun _ hs => ⟨⟨hs, h⟩, fun _ => ⟨hs, trivial⟩⟩⟩

theorem bind {M : β → Prop} {x : Prog C R σ ε β} {f : β → Prog C R σ ε α} (hx : Audited I A M x)
    (hf : ∀ b, M b → Audited I A Q (f b)) : Audited I A Q (x.bind f) := by
  refine ⟨fun s hs => ?_⟩
  replace hx := hx.audit s hs
  clear hs
  induction x generalizing s with
  | ret b => exact (hf b hx.2).audit s hx.1
  | fail e => exact hx
  | look k ih => exact ih s s hx
  | put t k ih => exact ih t hx
  | call c k ih => exact ⟨hx.1, fun r => ih r s (hx.2 r)⟩

theorem attempt {x : Prog C R σ ε α} (hx : Audited I A Q x) :
    Audited I A (fun r => ∀ a, r = .ok a → Q a) x.attempt := by
  refine ⟨fun s hs => ?_⟩
  replace hx := hx.audit s hs
  clear hs
  induction x generalizing s with
  | ret a =>
    refine ⟨hx.1, fun b hb => ?_⟩
    cases hb
    exact hx.2
  | fail e => exact ⟨hx, fun _ hb => nomatch hb⟩
  | look k ih => exact ih s s hx
  | put t k ih => exact ih t hx
  | call c k ih => exact ⟨hx.1, fun r => ih r s (hx.2 r)⟩

theorem ite {c : Prop} [Decidable c] {x y : Prog C R σ ε α} (hx : c → Audited I A Q x)
    (hy : ¬ c → Audited I A Q y) : Audited I A Q (if c then x else y) := by
  split
  case isTrue h => exact hx h
  case isFalse h => exact hy h

theorem mono {Q' : α → Prop} {x : Prog C R σ ε α} (hx : Audited I A Q x) (h : ∀ a, Q a → Q' a) :
    Audited I A Q' x := by
  refine ⟨fun s hs => ?_⟩
  replace hx := hx.audit s hs
  clear hs
  induction x generalizing s with
  | ret a => exact ⟨hx.1, h a hx.2⟩
  | fail e => exact hx
  | look k ih => exact ih s s hx
  | put t k ih => exact ih t hx
  | call c k ih => exact ⟨hx.1, fun r => ih r s (hx.2 r)⟩

variable {D : Device C R δ Ev} {env : Env C δ Ev} {x : Prog C R σ ε α} {s s' : σ} {d d' : δ}

/-- Every call that is made is a permitted one, in a state that satisfies the invariant. -/
theorem requests {c : C} (hx : Audited I A Q x) (hs : I s) (h : Requests D env x s d s' c) :
    I s' ∧ A c := by
  replace hx := hx.audit s hs
  clear hs
  induction h with
  | look rest ih => exact ih hx
  | put rest ih => exact ih hx
  | here => exact hx.1
  | later allowed answer rest ih => exact ih (hx.2 _)

/-- What a run returns, and its state. -/
theorem returned {a : α} (hx : Audited I A Q x) (hs : I s) (run : Runs D env x s d (.ok a s' d')) :
    I s' ∧ Q a := by
  replace hx := hx.audit s hs
  clear hs
  generalize ho : (Outcome.ok a s' d' : Outcome σ δ ε α) = o at run
  induction run with
  | ret b s d =>
    cases ho
    exact hx
  | fail e s d => cases ho
  | look _ ih => exact ih hx ho
  | put _ ih => exact ih hx ho
  | reply allowed answer _ ih => exact ih (hx.2 _) ho
  | cut allowed answer => cases ho

/-- The state a failed run leaves. -/
theorem failed {e : ε} (hx : Audited I A Q x) (hs : I s) (run : Runs D env x s d (.error e s' d')) :
    I s' := by
  replace hx := hx.audit s hs
  clear hs
  generalize ho : (Outcome.error e s' d' : Outcome σ δ ε α) = o at run
  induction run with
  | ret b s d => cases ho
  | fail e' s d =>
    cases ho
    exact hx
  | look _ ih => exact ih hx ho
  | put _ ih => exact ih hx ho
  | reply allowed answer _ ih => exact ih (hx.2 _) ho
  | cut allowed answer => cases ho

end Audited

end EdgeSync.Foundation
