/-
  Foundation/Once.lean --- a receiver that does everything at most once.

  Requests carry a key, and the receiver remembers the requests it has done.  A request
  with the key of one that was done does nothing.  Sending a request again is then harmless,
  and what was sent at least once is done exactly once.
-/
import Mathlib.Data.List.Induction
import Mathlib.Data.List.Nodup

set_option autoImplicit false

namespace EdgeSync.Foundation

section Once

variable {α κ : Type} [DecidableEq κ] (key : α → κ)

/-- Do a request, unless one with its key was done. -/
def applyOnce (done : List α) (x : α) : List α :=
  if done.any (key · = key x) then done else done ++ [x]

/-- What was done of the requests that arrived, in order. -/
def appliedOnce (arrived : List α) : List α := arrived.foldl (applyOnce key) []

variable {key} {arrived done : List α} {x y : α}

theorem appliedOnce_snoc (arrived : List α) (x : α) :
    appliedOnce key (arrived ++ [x]) = applyOnce key (appliedOnce key arrived) x := by
  rw [appliedOnce, List.foldl_append]
  rfl

theorem applyOnce_cases (key : α → κ) (done : List α) (x : α) :
    (key x ∈ done.map key ∧ applyOnce key done x = done) ∨
      (key x ∉ done.map key ∧ applyOnce key done x = done ++ [x]) := by
  have hany : done.any (key · = key x) = true ↔ key x ∈ done.map key := by
    simp [List.any_eq_true, List.mem_map]
  unfold applyOnce
  split
  · rename_i h
    exact .inl ⟨hany.mp h, rfl⟩
  · rename_i h
    exact .inr ⟨fun hmem => h (hany.mpr hmem), rfl⟩

/-- Only requests that arrived are done. -/
theorem appliedOnce_subset (key : α → κ) (arrived : List α) : appliedOnce key arrived ⊆ arrived := by
  induction arrived using List.reverseRecOn with
  | nil => exact List.nil_subset _
  | append_singleton arrived x ih =>
    rw [appliedOnce_snoc]
    rcases applyOnce_cases key (appliedOnce key arrived) x with ⟨-, h⟩ | ⟨-, h⟩ <;> rw [h]
    · exact fun y hy => List.mem_append_left _ (ih hy)
    · exact List.append_subset.mpr
        ⟨fun y hy => List.mem_append_left _ (ih hy), List.subset_append_right _ _⟩

/-- No key is done twice. -/
theorem appliedOnce_nodup (key : α → κ) (arrived : List α) :
    ((appliedOnce key arrived).map key).Nodup := by
  induction arrived using List.reverseRecOn with
  | nil => exact List.nodup_nil
  | append_singleton arrived x ih =>
    rw [appliedOnce_snoc]
    rcases applyOnce_cases key (appliedOnce key arrived) x with ⟨-, h⟩ | ⟨hnew, h⟩ <;> rw [h]
    · exact ih
    · rw [List.map_append]
      exact ih.append (List.nodup_singleton _) (List.disjoint_singleton.mpr hnew)

/-- Every key that arrived is done. -/
theorem exists_mem_appliedOnce (key : α → κ) (hx : x ∈ arrived) :
    ∃ y ∈ appliedOnce key arrived, key y = key x := by
  induction arrived using List.reverseRecOn with
  | nil => exact absurd hx List.not_mem_nil
  | append_singleton arrived z ih =>
    rw [appliedOnce_snoc]
    rcases List.mem_append.mp hx with hx | hx
    · obtain ⟨y, hy, hkey⟩ := ih hx
      refine ⟨y, ?_, hkey⟩
      rcases applyOnce_cases key (appliedOnce key arrived) z with ⟨-, h⟩ | ⟨-, h⟩ <;> rw [h]
      · exact hy
      · exact List.mem_append_left _ hy
    · rw [List.mem_singleton.mp hx]
      rcases applyOnce_cases key (appliedOnce key arrived) z with ⟨hold, h⟩ | ⟨-, h⟩ <;> rw [h]
      · exact List.mem_map.mp hold
      · exact ⟨z, List.mem_append_right _ (List.mem_singleton_self z), rfl⟩

end Once

end EdgeSync.Foundation
