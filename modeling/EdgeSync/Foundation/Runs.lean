/-
  Foundation/Runs.lean --- runs of a labelled transition system.

  A run is a list of labels, in order.  What every step preserves holds at the end of
  every run; a condition on steps becomes part of the step relation.
-/
import Mathlib.Algebra.Ring.Nat
import Mathlib.Data.List.Induction

set_option autoImplicit false

namespace EdgeSync.Foundation

variable {S L : Type}

/-- Many steps. -/
inductive StepRun (step : S → L → S → Prop) (s : S) : List L → S → Prop where
  | nil : StepRun step s [] s
  | snoc {labels : List L} {s' s'' : S} {label : L} (run : StepRun step s labels s')
      (last : step s' label s'') : StepRun step s (labels ++ [label]) s''

/-- The steps that meet a condition on the state before the step. -/
def Guarded (step : S → L → S → Prop) (guard : S → L → Prop) (s : S) (label : L) (s' : S) : Prop :=
  step s label s' ∧ guard s label

variable {step : S → L → S → Prop} {guard : S → L → Prop} {s s' s'' : S} {labels labels' : List L}
  {label : L}

/-- What holds at the start and is preserved by every step holds at the end. -/
theorem StepRun.invariant {I : List L → S → Prop} (run : StepRun step s labels s') (start : I [] s)
    (next : ∀ labels s1 label s2, I labels s1 → step s1 label s2 → I (labels ++ [label]) s2) :
    I labels s' := by
  induction run with
  | nil => exact start
  | snoc run last ih => exact next _ _ _ _ ih last

/-- What some of the labels cost. -/
theorem sum_map_ite (p : L → Bool) (n : Nat) (labels : List L) :
    (labels.map fun label => if p label then n else 0).sum = n * labels.countP p := by
  induction labels with
  | nil => rfl
  | cons label labels ih =>
    rw [List.map_cons, List.sum_cons, ih, List.countP_cons, Nat.mul_add, Nat.add_comm]
    split
    · rw [Nat.mul_one]
    · rfl

/-- Where every step pays its cost `c` out of what it is given, `g`, and of the potential `P`,
the whole run does. -/
theorem StepRun.budget {I : S → Prop} {P : S → Nat} {c g : L → Nat}
    (run : StepRun step s labels s') (start : I s)
    (pays : ∀ s1 label s2, I s1 → step s1 label s2 → I s2 ∧ P s2 + c label ≤ P s1 + g label) :
    P s' + (labels.map c).sum ≤ P s + (labels.map g).sum := by
  have h : I s' ∧ P s' + (labels.map c).sum ≤ P s + (labels.map g).sum := by
    induction run with
    | nil => exact ⟨start, Nat.le_refl _⟩
    | snoc run last ih =>
      obtain ⟨hI, hlast⟩ := pays _ _ _ ih.1 last
      have hrun := ih.2
      refine ⟨hI, ?_⟩
      simp only [List.map_append, List.sum_append, List.map_cons, List.map_nil, List.sum_singleton]
      omega
  exact h.2

theorem StepRun.append (run : StepRun step s labels s') (run' : StepRun step s' labels' s'') :
    StepRun step s (labels ++ labels') s'' := by
  induction run' with
  | nil => rwa [List.append_nil]
  | snoc _ last ih =>
    rw [← List.append_assoc]
    exact ih.snoc last

/-- The last step of a run. -/
theorem StepRun.last (run : StepRun step s (labels ++ [label]) s'') :
    ∃ s', StepRun step s labels s' ∧ step s' label s'' := by
  generalize hl : labels ++ [label] = all at run
  cases run with
  | nil => simp at hl
  | snoc run last =>
    obtain ⟨rfl, hlast⟩ := List.append_inj' hl rfl
    cases hlast
    exact ⟨_, run, last⟩

theorem StepRun.eq_of_nil (run : StepRun step s [] s') : s' = s := by
  generalize hl : ([] : List L) = all at run
  cases run with
  | nil => rfl
  | snoc run last => simp at hl

/-- A run in two parts. -/
theorem StepRun.split (run : StepRun step s (labels ++ labels') s'') :
    ∃ s', StepRun step s labels s' ∧ StepRun step s' labels' s'' := by
  induction labels' using List.reverseRecOn generalizing s'' with
  | nil => exact ⟨s'', by rwa [List.append_nil] at run, .nil⟩
  | append_singleton labels' last ih =>
    rw [← List.append_assoc] at run
    obtain ⟨s1, run, step⟩ := run.last
    obtain ⟨s', first, rest⟩ := ih run
    exact ⟨s', first, rest.snoc step⟩

/-- A run of one step. -/
theorem StepRun.single_iff : StepRun step s [label] s'' ↔ step s label s'' := by
  constructor
  · intro run
    obtain ⟨s', nothing, last⟩ := @StepRun.last _ _ _ _ _ [] _ run
    rwa [nothing.eq_of_nil] at last
  · intro last
    exact StepRun.nil.snoc last

/-- The first step of a run. -/
theorem StepRun.first (run : StepRun step s (label :: labels) s'') :
    ∃ s', step s label s' ∧ StepRun step s' labels s'' := by
  obtain ⟨s', first, rest⟩ := @StepRun.split _ _ _ _ _ [label] _ run
  exact ⟨s', single_iff.mp first, rest⟩

/-- More steps, more runs. -/
theorem StepRun.mono {step' : S → L → S → Prop} (run : StepRun step s labels s')
    (h : ∀ s1 label s2, step s1 label s2 → step' s1 label s2) : StepRun step' s labels s' := by
  induction run with
  | nil => exact .nil
  | snoc _ last ih => exact ih.snoc (h _ _ _ last)

/-- A guarded run is a run. -/
theorem StepRun.unguarded (run : StepRun (Guarded step guard) s labels s') :
    StepRun step s labels s' :=
  run.mono fun _ _ _ last => last.1

/-- A run is guarded when its labels are harmless in every state. -/
theorem StepRun.guarded (run : StepRun step s labels s')
    (h : ∀ label ∈ labels, ∀ s, guard s label) : StepRun (Guarded step guard) s labels s' := by
  induction run with
  | nil => exact .nil
  | snoc _ last ih =>
    exact (ih fun label hl => h label (List.mem_append_left _ hl)).snoc
      ⟨last, h _ (List.mem_append_right _ (List.mem_singleton_self _)) _⟩

/-- The run of a list of labels, where the next state is computed. -/
theorem StepRun.play (next : S → L → Option S) {P : S → Prop} [DecidablePred P]
    (h : (labels.foldlM next s).any (P ·) = true) :
    ∃ s', StepRun (fun s label s' => next s label = some s') s labels s' ∧ P s' := by
  cases hs : labels.foldlM next s with
  | none => simp [hs] at h
  | some s' =>
    refine ⟨s', ?_, by simpa [hs] using h⟩
    clear h
    induction labels using List.reverseRecOn generalizing s' with
    | nil =>
      cases hs
      exact .nil
    | append_singleton labels label ih =>
      rw [List.foldlM_append] at hs
      obtain ⟨s1, hs1, hlast⟩ := Option.bind_eq_some_iff.mp hs
      exact (ih s1 hs1).snoc (by simpa using hlast)

/-- The guarded run of a list of labels, where the guard is decided. -/
theorem StepRun.play_guarded (next : S → L → Option S) [∀ s label, Decidable (guard s label)]
    {P : S → Prop} [DecidablePred P]
    (h : (labels.foldlM (fun s label => if guard s label then next s label else none) s).any (P ·) =
      true) :
    ∃ s', StepRun (Guarded (fun s label s' => next s label = some s') guard) s labels s' ∧ P s' := by
  obtain ⟨s', run, hP⟩ := StepRun.play _ h
  refine ⟨s', run.mono fun s1 label s2 last => ?_, hP⟩
  split at last
  case isTrue hguard => exact ⟨last, hguard⟩
  case isFalse => cases last

end EdgeSync.Foundation
