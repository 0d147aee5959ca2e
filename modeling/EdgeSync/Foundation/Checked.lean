/-
  Foundation/Checked.lean --- scripts whose events are checked against the device.

  What a device may do can depend on the state it is in.  A script is then permitted
  when every event it spends is one that its state permits.
-/
import EdgeSync.Foundation.Wp

set_option autoImplicit false

namespace EdgeSync.Foundation

variable {C : Type} {R : C → Type} {σ δ Ev ε α : Type}

/-- Every event the script spends is one that the device may choose where it is. -/
def admitsIn (D : Device C R δ Ev) (allow : δ → C → Ev → Bool) :
    Prog C R σ ε α → σ → δ → List Ev → Bool
  | .ret _, _, _, _ => true
  | .fail _, _, _, _ => true
  | .look k, s, d, evs => admitsIn D allow (k s) s d evs
  | .put s' k, _, d, evs => admitsIn D allow k s' d evs
  | .call c k, s, d, evs =>
      allow d c (evs.headD D.calm) &&
        match D.respond d c (evs.headD D.calm) with
        | .reply r d' => admitsIn D allow (k r) s d' evs.tail
        | .cut _ => true

/-- A script that is permitted state by state is a run. -/
theorem runs_of_admitsIn {D : Device C R δ Ev} {env : Env C δ Ev} {allow : δ → C → Ev → Bool}
    (henv : ∀ d c ev, allow d c ev = true → env d c ev) (x : Prog C R σ ε α) {s : σ} {d : δ}
    {evs : List Ev} (h : admitsIn D allow x s d evs = true) :
    Runs D env x s d (exec D x s d evs) := by
  induction x generalizing s d evs with
  | ret a => exact .ret a s d
  | fail e => exact .fail e s d
  | look k ih => exact .look (ih s h)
  | put s' k ih => exact .put (ih h)
  | call c k ih =>
    rw [admitsIn] at h
    obtain ⟨hhead, hrest⟩ := Bool.and_eq_true_iff.mp h
    rw [exec]
    split
    · rename_i r d' hr
      rw [hr] at hrest
      exact .reply (henv _ _ _ hhead) hr (ih r hrest)
    · rename_i d' hr
      exact .cut (henv _ _ _ hhead) hr

end EdgeSync.Foundation
