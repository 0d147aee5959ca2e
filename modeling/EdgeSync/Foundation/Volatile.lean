/-
  Foundation/Volatile.lean --- what a program does to its volatile state,
  whatever the device does.

  `leaves` is a weakest precondition that forgets the device: every reply is
  possible, and a power cut leaves nothing to speak of.  A fact proved with it
  holds for every device, every fault and every content of the device.
-/
import EdgeSync.Foundation.Wp

set_option autoImplicit false

namespace EdgeSync.Foundation

variable {C : Type} {R : C → Type} {σ δ ε Ev α β : Type}

/-- The weakest precondition over all replies, by recursion over the program. -/
def Prog.volatile : Prog C R σ ε α → (α → σ → Prop) → (ε → σ → Prop) → σ → Prop
  | .ret a, Q, _, s => Q a s
  | .fail e, _, E, s => E e s
  | .look k, Q, E, s => (k s).volatile Q E s
  | .put s' k, Q, E, _ => k.volatile Q E s'
  | .call _ k, Q, E, s => ∀ r, (k r).volatile Q E s

/-- From `s`, the program ends with a value and a state in `Q`, or with an error
and a state in `E`, if it ends at all. -/
def leaves (x : Prog C R σ ε α) (Q : α → σ → Prop) (E : ε → σ → Prop) (s : σ) : Prop :=
  x.volatile Q E s

section Rules

variable {Q Q' : α → σ → Prop} {E E' : ε → σ → Prop} {s : σ}

@[simp] theorem leaves_ret {a : α} :
    leaves (.ret a : Prog C R σ ε α) Q E s ↔ Q a s := Iff.rfl

@[simp] theorem leaves_fail {e : ε} :
    leaves (.fail e : Prog C R σ ε α) Q E s ↔ E e s := Iff.rfl

@[simp] theorem leaves_look {k : σ → Prog C R σ ε α} :
    leaves (.look k) Q E s ↔ leaves (k s) Q E s := Iff.rfl

@[simp] theorem leaves_put {s' : σ} {k : Prog C R σ ε α} :
    leaves (.put s' k) Q E s ↔ leaves k Q E s' := Iff.rfl

theorem leaves_call {c : C} {k : R c → Prog C R σ ε α} :
    leaves (.call c k) Q E s ↔ ∀ r, leaves (k r) Q E s := Iff.rfl

/-- Any reply of a single call. -/
@[simp] theorem leaves_ask {c : C} {Q : R c → σ → Prop} :
    leaves (Prog.ask c : Prog C R σ ε (R c)) Q E s ↔ ∀ r, Q r s := Iff.rfl

@[simp] theorem leaves_read {Q : σ → σ → Prop} :
    leaves (Prog.read : Prog C R σ ε σ) Q E s ↔ Q s s := Iff.rfl

@[simp] theorem leaves_modify {Q : Unit → σ → Prop} {f : σ → σ} :
    leaves (Prog.modify f : Prog C R σ ε Unit) Q E s ↔ Q () (f s) := Iff.rfl

theorem leaves_ite {c : Prop} [Decidable c] {x y : Prog C R σ ε α} :
    leaves (if c then x else y) Q E s ↔ (c → leaves x Q E s) ∧ (¬ c → leaves y Q E s) := by
  split <;> simp_all

/-- Sequential composition. -/
@[simp] theorem leaves_bind {x : Prog C R σ ε β} {f : β → Prog C R σ ε α} :
    leaves (x.bind f) Q E s ↔ leaves x (fun b s' => leaves (f b) Q E s') E s := by
  induction x generalizing s with
  | ret b => exact Iff.rfl
  | fail e => exact Iff.rfl
  | look k ih => exact ih s
  | put s' k ih => exact ih
  | call c k ih => exact forall_congr' fun r => ih r

@[simp] theorem leaves_attempt {x : Prog C R σ ε α} {Q : Except ε α → σ → Prop} :
    leaves x.attempt Q E s ↔ leaves x (fun a => Q (.ok a)) (fun e => Q (.error e)) s := by
  induction x generalizing s with
  | ret b => exact Iff.rfl
  | fail e => exact Iff.rfl
  | look k ih => exact ih s
  | put s' k ih => exact ih
  | call c k ih => exact forall_congr' fun r => ih r

/-- Consequence. -/
theorem leaves_mono {x : Prog C R σ ε α} (h : leaves x Q E s) (hQ : ∀ a s', Q a s' → Q' a s')
    (hE : ∀ e s', E e s' → E' e s') : leaves x Q' E' s := by
  induction x generalizing s with
  | ret a => exact hQ a s h
  | fail e => exact hE e s h
  | look k ih => exact ih s h
  | put s' k ih => exact ih h
  | call c k ih => exact fun r => ih r (h r)

/-- Two facts about one program. -/
theorem leaves_and {x : Prog C R σ ε α} (h : leaves x Q E s) (h' : leaves x Q' E' s) :
    leaves x (fun a s => Q a s ∧ Q' a s) (fun e s => E e s ∧ E' e s) s := by
  induction x generalizing s with
  | ret a => exact ⟨h, h'⟩
  | fail e => exact ⟨h, h'⟩
  | look k ih => exact ih s h h'
  | put s' k ih => exact ih h h'
  | call c k ih => exact fun r => ih r (h r) (h' r)

/-- Chaining. -/
theorem leaves_seq {x : Prog C R σ ε β} {f : β → Prog C R σ ε α} {M : β → σ → Prop}
    {F : ε → σ → Prop} (h : leaves x M F s) (hok : ∀ b s', M b s' → leaves (f b) Q E s')
    (herror : ∀ e s', F e s' → E e s') : leaves (x.bind f) Q E s :=
  leaves_bind.mpr (leaves_mono h hok herror)

/-- `leaves` speaks about every run on every device. -/
theorem leaves_sound {D : Device C R δ Ev} {env : Env C δ Ev} {x : Prog C R σ ε α} {d : δ}
    {o : Outcome σ δ ε α} (run : Runs D env x s d o) (h : leaves x Q E s) :
    o.Meets ⟨fun a s' _ => Q a s', fun e s' _ => E e s', fun _ => True⟩ := by
  induction run with
  | ret a s d => exact h
  | fail e s d => exact h
  | look rest ih => exact ih h
  | put rest ih => exact ih h
  | reply allowed answer rest ih => exact ih (h _)
  | cut allowed answer => trivial

/-- What holds over all replies holds on every device. -/
theorem leaves_wp {D : Device C R δ Ev} {env : Env C δ Ev} {x : Prog C R σ ε α} {d : δ}
    (h : leaves x Q E s) :
    wp D env x ⟨fun a s' _ => Q a s', fun e s' _ => E e s', fun _ => True⟩ s d :=
  wp_iff_runs.mpr fun _ run => leaves_sound run h

end Rules

-- from here on `leaves` is used through its rules only
attribute [irreducible] leaves

/-! ## Frame rules -/

/-- The program leaves the part `g` of the state alone, however it ends. -/
def Keeps {γ : Type} (g : σ → γ) (x : Prog C R σ ε α) : Prop :=
  ∀ s, leaves x (fun _ s' => g s' = g s) (fun _ s' => g s' = g s) s

namespace Keeps

variable {γ : Type} {g : σ → γ}

theorem ret (a : α) : Keeps g (.ret a : Prog C R σ ε α) := fun _ => leaves_ret.mpr rfl

theorem fail (e : ε) : Keeps g (.fail e : Prog C R σ ε α) := fun _ => leaves_fail.mpr rfl

theorem ask (c : C) : Keeps g (Prog.ask c : Prog C R σ ε (R c)) :=
  fun _ => leaves_ask.mpr fun _ => rfl

theorem read : Keeps g (Prog.read : Prog C R σ ε σ) := fun _ => leaves_read.mpr rfl

theorem modify {f : σ → σ} (h : ∀ s, g (f s) = g s) :
    Keeps g (Prog.modify f : Prog C R σ ε Unit) := fun s => leaves_modify.mpr (h s)

theorem bind {x : Prog C R σ ε β} {f : β → Prog C R σ ε α} (hx : Keeps g x)
    (hf : ∀ b, Keeps g (f b)) : Keeps g (x.bind f) := by
  intro s
  refine leaves_seq (hx s) (fun b s' hs => ?_) fun _ _ h => h
  exact leaves_mono (hf b s') (fun _ _ h => h.trans hs) fun _ _ h => h.trans hs

theorem attempt {x : Prog C R σ ε α} (hx : Keeps g x) : Keeps g x.attempt :=
  fun s => leaves_attempt.mpr (hx s)

theorem ite {c : Prop} [Decidable c] {x y : Prog C R σ ε α} (hx : Keeps g x) (hy : Keeps g y) :
    Keeps g (if c then x else y) := by
  split
  · exact hx
  · exact hy

/-- Framing a program in front of another. -/
theorem seq {x : Prog C R σ ε β} {f : β → Prog C R σ ε α} {Q : α → σ → Prop} {E : ε → σ → Prop}
    {s : σ} (hx : Keeps g x) (hok : ∀ b s', g s' = g s → leaves (f b) Q E s')
    (herror : ∀ e s', g s' = g s → E e s') : leaves (x.bind f) Q E s :=
  leaves_seq (hx s) hok herror

end Keeps

/-! ## Errors -/

/-- Every error of the program satisfies `E`. -/
def Raises (E : ε → Prop) (x : Prog C R σ ε α) : Prop :=
  ∀ s, leaves x (fun _ _ => True) (fun e _ => E e) s

theorem leaves_true (x : Prog C R σ ε α) (s : σ) :
    leaves x (fun _ _ => True) (fun _ _ => True) s := by
  induction x generalizing s with
  | ret a => exact leaves_ret.mpr trivial
  | fail e => exact leaves_fail.mpr trivial
  | look k ih => exact leaves_look.mpr (ih s s)
  | put s' k ih => exact leaves_put.mpr (ih s')
  | call c k ih => exact leaves_call.mpr fun r => ih r s

namespace Raises

variable {E : ε → Prop}

theorem ret (a : α) : Raises E (.ret a : Prog C R σ ε α) := fun _ => leaves_ret.mpr trivial

theorem fail {e : ε} (h : E e) : Raises E (.fail e : Prog C R σ ε α) := fun _ => leaves_fail.mpr h

theorem ask (c : C) : Raises E (Prog.ask c : Prog C R σ ε (R c)) :=
  fun _ => leaves_ask.mpr fun _ => trivial

theorem read : Raises E (Prog.read : Prog C R σ ε σ) := fun _ => leaves_read.mpr trivial

theorem modify (f : σ → σ) : Raises E (Prog.modify f : Prog C R σ ε Unit) :=
  fun _ => leaves_modify.mpr trivial

theorem bind {x : Prog C R σ ε β} {f : β → Prog C R σ ε α} (hx : Raises E x)
    (hf : ∀ b, Raises E (f b)) : Raises E (x.bind f) :=
  fun s => leaves_seq (hx s) (fun b s' _ => hf b s') fun _ _ h => h

/-- An attempted program raises nothing. -/
theorem attempt (x : Prog C R σ ε α) : Raises E x.attempt :=
  fun s => leaves_attempt.mpr (leaves_true x s)

theorem ite {c : Prop} [Decidable c] {x y : Prog C R σ ε α} (hx : Raises E x) (hy : Raises E y) :
    Raises E (if c then x else y) := by
  split
  · exact hx
  · exact hy

end Raises

end EdgeSync.Foundation
