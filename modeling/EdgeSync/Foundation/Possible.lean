/-
  Foundation/Possible.lean --- following a run by the states it may stand for.

  Whether an operation that was interrupted took effect may show only later, when
  somebody looks.  A run is then followed by the states a second system may be in after
  the same labels: every step of the run leads from a set of them to the set of their
  successors.
-/
import EdgeSync.Foundation.Runs

set_option autoImplicit false

namespace EdgeSync.Foundation

variable {S A L : Type}

/-- Where a step with this label may lead from one of the states. -/
def Successors (spec : A → L → A → Prop) (X : A → Prop) (label : L) (a' : A) : Prop :=
  ∃ a, X a ∧ spec a label a'

theorem Successors.mono {spec : A → L → A → Prop} {X Y : A → Prop} {label : L} {a' : A}
    (h : Successors spec X label a') (hXY : ∀ a, X a → Y a) : Successors spec Y label a' := by
  obtain ⟨a, ha, step⟩ := h
  exact ⟨a, hXY a ha, step⟩

/-- The successors of what a run reaches are reached by the longer run. -/
theorem Successors.of_run {spec : A → L → A → Prop} {a0 a' : A} {labels : List L} {label : L}
    (h : Successors spec (StepRun spec a0 labels) label a') :
    StepRun spec a0 (labels ++ [label]) a' := by
  obtain ⟨a, run, step⟩ := h
  exact run.snoc step

/-- `Rep labels X s`: after `labels` the state `s` stands for one of the states `X`. -/
structure Follows (step : S → L → S → Prop) (spec : A → L → A → Prop) (Allowed : List L → Prop)
    (Rep : List L → (A → Prop) → S → Prop) : Prop where
  init : ∀ {labels label}, Allowed (labels ++ [label]) → Allowed labels
  mono : ∀ {labels X Y s}, Rep labels X s → (∀ a, X a → Y a) → Rep labels Y s
  step : ∀ {labels label X s s'}, Allowed (labels ++ [label]) → Rep labels X s →
    step s label s' → Rep (labels ++ [label]) (Successors spec X label) s'

/-- The state at the end of a run stands for a state that the same labels reach. -/
theorem Follows.run {step : S → L → S → Prop} {spec : A → L → A → Prop} {Allowed : List L → Prop}
    {Rep : List L → (A → Prop) → S → Prop} (follows : Follows step spec Allowed Rep) {s s' : S}
    {a : A} {labels : List L} (run : StepRun step s labels s') (start : Rep [] (· = a) s)
    (allowed : Allowed labels) : Rep labels (StepRun spec a labels) s' := by
  induction run with
  | nil =>
    refine follows.mono start fun a' ha => ?_
    rw [ha]
    exact .nil
  | snoc _ last ih =>
    exact follows.mono (follows.step allowed (ih (follows.init allowed)) last) fun a' h => h.of_run

end EdgeSync.Foundation
