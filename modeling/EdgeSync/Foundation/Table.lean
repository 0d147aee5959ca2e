/-
  Foundation/Table.lean --- unordered tables kept in an array.

  Three idioms of C code that keeps a small table in an array: look an entry up
  by a linear scan, pick the best entry by a linear scan, and delete an entry by
  moving the last one into its place.
-/
import Mathlib.Data.List.Basic
import Mathlib.Data.List.Nodup
import Mathlib.Data.List.Perm.Basic

set_option autoImplicit false

namespace EdgeSync.Foundation

variable {α β : Type}

/-! ## Deleting by moving the last entry -/

/-- `table[pos] = table[count - 1]; count--`. -/
def swapRemove (l : List α) (pos : Nat) : List α :=
  match l.getLast? with
  | none => []
  | some last => (l.set pos last).dropLast

theorem length_swapRemove (l : List α) (pos : Nat) :
    (swapRemove l pos).length = l.length - 1 := by
  unfold swapRemove
  split
  · rename_i h
    simp [List.getLast?_eq_none_iff.mp h]
  · simp

theorem map_swapRemove (f : α → β) (l : List α) (pos : Nat) :
    (swapRemove l pos).map f = swapRemove (l.map f) pos := by
  unfold swapRemove
  cases h : l.getLast? with
  | none => simp [h]
  | some last => simp [h, List.map_dropLast, List.map_set]

theorem mem_of_mem_swapRemove {l : List α} {pos : Nat} {a : α} (h : a ∈ swapRemove l pos) :
    a ∈ l := by
  unfold swapRemove at h
  split at h
  · simp at h
  · rename_i last hlast
    rcases List.mem_or_eq_of_mem_set ((List.dropLast_sublist _).subset h) with h | rfl
    · exact h
    · exact List.mem_of_getLast? hlast

theorem getElem?_swapRemove (l : List α) (pos i : Nat) :
    (swapRemove l pos)[i]? =
      if i < l.length - 1 then if i = pos then l[l.length - 1]? else l[i]? else none := by
  unfold swapRemove
  split
  · rename_i h
    simp [List.getLast?_eq_none_iff.mp h]
  · rename_i last h
    have hlast : l[l.length - 1]? = some last := by rw [← List.getLast?_eq_getElem?, h]
    rw [List.getElem?_dropLast, List.length_set, hlast, List.getElem?_set]
    by_cases hi : i < l.length - 1
    · have hlt : i < l.length := by omega
      by_cases hp : pos = i
      · subst hp
        simp [hi, hlt]
      · simp [hi, hp, Ne.symm hp]
    · simp [hi]

/-- What the deleted place held does not matter. -/
theorem swapRemove_modify (l : List α) (pos : Nat) (f : α → α) :
    swapRemove (l.modify pos f) pos = swapRemove l pos := by
  apply List.ext_getElem?
  intro i
  rw [getElem?_swapRemove, getElem?_swapRemove, List.length_modify]
  by_cases hi : i < l.length - 1
  · by_cases hp : i = pos
    · rw [if_pos hi, if_pos hi, if_pos hp, if_pos hp, List.getElem?_modify_ne _ _ (by omega)]
    · rw [if_pos hi, if_pos hi, if_neg hp, if_neg hp, List.getElem?_modify_ne _ _ (Ne.symm hp)]
  · rw [if_neg hi, if_neg hi]

/-- Deleting removes one entry and keeps the others. -/
theorem perm_swapRemove {l : List α} {pos : Nat} {a : α} (h : l[pos]? = some a) :
    l.Perm (a :: swapRemove l pos) := by
  obtain ⟨hlt, rfl⟩ := List.getElem?_eq_some_iff.mp h
  rcases List.eq_nil_or_concat l with rfl | ⟨init, last, hl⟩
  · simp at hlt
  · rw [List.concat_eq_append] at hl
    subst hl
    have hr : swapRemove (init ++ [last]) pos = ((init ++ [last]).set pos last).dropLast := by
      simp [swapRemove]
    rw [hr]
    by_cases hpos : pos < init.length
    · rw [List.set_append_left _ _ hpos, List.dropLast_concat, List.getElem_append_left hpos]
      have h1 : (init ++ [last]).Perm (last :: init) := List.perm_append_singleton last init
      have h2 := (List.getElem_cons_eraseIdx_perm hpos).symm
      have h3 := (List.set_perm_cons_eraseIdx hpos last).symm
      exact h1.trans ((h2.cons last).trans ((List.Perm.swap _ _ _).trans (h3.cons _)))
    · have hpos' : pos = init.length := by simp at hlt; omega
      subst hpos'
      simp

/-- What is left was not at the deleted place. -/
theorem exists_of_mem_swapRemove {l : List α} {pos : Nat} {a : α} (h : a ∈ swapRemove l pos) :
    ∃ i, i ≠ pos ∧ l[i]? = some a := by
  obtain ⟨i, hi⟩ := List.getElem?_of_mem h
  rw [getElem?_swapRemove] at hi
  by_cases hlt : i < l.length - 1
  · rw [if_pos hlt] at hi
    by_cases hpos : i = pos
    · rw [if_pos hpos] at hi
      exact ⟨l.length - 1, by omega, hi⟩
    · rw [if_neg hpos] at hi
      exact ⟨i, hpos, hi⟩
  · rw [if_neg hlt] at hi
    exact absurd hi (by simp)

theorem modify_map {f : α → α} {g : β → β} {h : α → β} (hfg : ∀ a, h (f a) = g (h a))
    (l : List α) (pos : Nat) : (l.modify pos f).map h = (l.map h).modify pos g := by
  apply List.ext_getElem?
  intro i
  rw [List.getElem?_map, List.getElem?_modify, List.getElem?_modify, List.getElem?_map]
  by_cases hi : pos = i
  · simp [hi, Option.map_map, Function.comp_def, hfg]
  · simp [hi]

/-- A projection that a change leaves alone. -/
theorem map_modify_of_eq {f : α → α} {h : α → β} {l : List α} {pos : Nat}
    (hf : ∀ a, l[pos]? = some a → h (f a) = h a) : (l.modify pos f).map h = l.map h := by
  apply List.ext_getElem?
  intro i
  rw [List.getElem?_map, List.getElem?_modify, List.getElem?_map]
  by_cases hi : pos = i
  · subst hi
    cases ha : l[pos]? with
    | none => rfl
    | some a => simp [hf a ha]
  · simp [hi]

theorem modify_append_cons (f : α → α) (xs ys : List α) (a : α) :
    (xs ++ a :: ys).modify xs.length f = xs ++ f a :: ys := by
  induction xs with
  | nil => simp
  | cons x xs ih => simp [ih]

theorem mem_of_mem_modify {f : α → α} {l : List α} {pos : Nat} {a : α}
    (h : a ∈ l.modify pos f) : a ∈ l ∨ ∃ b, l[pos]? = some b ∧ a = f b := by
  obtain ⟨i, hi⟩ := List.getElem?_of_mem h
  rw [List.getElem?_modify] at hi
  by_cases hp : pos = i
  · subst hp
    simp only [if_true, Option.map_eq_map] at hi
    obtain ⟨b, hb, rfl⟩ := Option.map_eq_some_iff.mp hi
    exact .inr ⟨b, hb, rfl⟩
  · simp only [hp, if_false, Option.map_eq_map, Option.map_id_fun', id_eq] at hi
    exact .inl (List.mem_of_getElem? hi)

theorem modify_of_getElem? {f : α → α} {l : List α} {pos : Nat} {a : α} (h : l[pos]? = some a) :
    l.modify pos f = l.set pos (f a) := by
  apply List.ext_getElem?
  intro i
  have hlt := (List.getElem?_eq_some_iff.mp h).1
  rw [List.getElem?_modify, List.getElem?_set]
  by_cases hi : pos = i
  · subst hi
    rw [if_pos rfl, if_pos hlt, h]
    simp
  · simp [hi]

theorem set_of_getElem? {l : List α} {pos : Nat} {a : α} (h : l[pos]? = some a) :
    l.set pos a = l := by
  obtain ⟨hlt, rfl⟩ := List.getElem?_eq_some_iff.mp h
  exact List.set_getElem_self hlt

/-- A pass over a table from position `i` on, after its turn at `i`. -/
theorem take_append_map_drop {g : α → α} {l l' : List α} {i : Nat} {a : α} (ha : l[i]? = some a)
    (hl : l' = l.set i (g a)) :
    l'.take (i + 1) ++ (l'.drop (i + 1)).map g = l.take i ++ (l.drop i).map g := by
  obtain ⟨hlt, rfl⟩ := List.getElem?_eq_some_iff.mp ha
  have htake : l'.take (i + 1) = l.take i ++ [g l[i]] := by
    rw [hl, List.take_add_one, List.take_set_of_le (Nat.le_refl _)]
    simp [hlt]
  have hdrop : l'.drop (i + 1) = l.drop (i + 1) := by
    rw [hl, List.drop_set_of_lt (Nat.lt_succ_self i)]
  rw [htake, hdrop, List.drop_eq_getElem_cons hlt, List.map_cons, List.append_assoc,
    List.singleton_append]

/-- A change at one place, seen without the order. -/
theorem perm_modify {f : α → α} {l : List α} {pos : Nat} {a : α} (h : l[pos]? = some a) :
    (l.modify pos f).Perm (f a :: swapRemove l pos) := by
  have hget : (l.modify pos f)[pos]? = some (f a) := by
    rw [List.getElem?_modify_eq, h]
    rfl
  have hperm := perm_swapRemove hget
  rwa [swapRemove_modify] at hperm

/-- Deleting the same entry. -/
theorem swapRemove_perm {l l' : List α} {pos pos' : Nat} {a : α} (hperm : l.Perm l')
    (h : l[pos]? = some a) (h' : l'[pos']? = some a) :
    (swapRemove l pos).Perm (swapRemove l' pos') :=
  (((perm_swapRemove h).symm.trans hperm).trans (perm_swapRemove h')).cons_inv

/-- Changing the same entry. -/
theorem modify_perm {f : α → α} {l l' : List α} {pos pos' : Nat} {a : α} (hperm : l.Perm l')
    (h : l[pos]? = some a) (h' : l'[pos']? = some a) :
    (l.modify pos f).Perm (l'.modify pos' f) :=
  (perm_modify h).trans (((swapRemove_perm hperm h h').cons _).trans (perm_modify h').symm)

/-! ## Looking up -/

/-- The position of the first entry that satisfies `p`. -/
def findPos (p : α → Bool) (l : List α) : Option Nat := l.findIdx? p

theorem findPos_some {p : α → Bool} {l : List α} {pos : Nat} (h : findPos p l = some pos) :
    ∃ a, l[pos]? = some a ∧ p a = true := by
  obtain ⟨hlt, hp, _⟩ := List.findIdx?_eq_some_iff_getElem.mp h
  exact ⟨l[pos], List.getElem?_eq_getElem hlt, hp⟩

theorem findPos_none {p : α → Bool} {l : List α} (h : findPos p l = none) :
    ∀ a ∈ l, p a = false := by
  have := List.findIdx?_eq_none_iff.mp h
  exact this

theorem findPos_map (f : α → β) (p : β → Bool) (l : List α) :
    findPos p (l.map f) = findPos (fun a => p (f a)) l := by
  simp [findPos, List.findIdx?_map, Function.comp_def]

/-- Where keys are unique, what is there is found under its key. -/
theorem findPos_of_nodup {κ : Type} [DecidableEq κ] {key : α → κ} {l : List α} {pos : Nat} {a : α}
    (hkeys : (l.map key).Nodup) (ha : l[pos]? = some a) :
    findPos (fun b => key b == key a) l = some pos := by
  cases hf : findPos (fun b => key b == key a) l with
  | none =>
    have hn := findPos_none hf a (List.mem_of_getElem? ha)
    simp at hn
  | some pos' =>
    obtain ⟨a', ha', hkey⟩ := findPos_some hf
    have h1 : (l.map key)[pos]? = some (key a) := by simp [ha]
    have h2 : (l.map key)[pos']? = some (key a) := by simp [ha', eq_of_beq hkey]
    rw [(List.getElem?_inj (List.getElem?_eq_some_iff.mp h1).1 hkeys).mp (h1.trans h2.symm)]

/-- Where keys are unique, deleting what was found under a key deletes the key. -/
theorem mem_swapRemove_of_found {κ : Type} [DecidableEq κ] {key : α → κ} {l : List α} {k : κ}
    {pos : Nat} (hkeys : (l.map key).Nodup) (h : findPos (fun a => key a == k) l = some pos) {b : α} :
    b ∈ swapRemove l pos ↔ b ∈ l ∧ key b ≠ k := by
  obtain ⟨a, ha, hk⟩ := findPos_some h
  have hk : key a = k := eq_of_beq hk
  have hperm := perm_swapRemove ha
  have hnot : k ∉ (swapRemove l pos).map key := by
    rw [← hk]
    exact (List.nodup_cons.mp ((hperm.map key).nodup_iff.mp hkeys)).1
  constructor
  · exact fun hb => ⟨mem_of_mem_swapRemove hb, fun hkb => hnot (hkb ▸ List.mem_map_of_mem hb)⟩
  · rintro ⟨hb, hkb⟩
    rcases List.mem_cons.mp (hperm.mem_iff.mp hb) with rfl | hb
    · exact absurd hk hkb
    · exact hb

/-- Where keys are unique, a change of what was found under a key changes no other. -/
theorem mem_modify_of_found {κ : Type} [DecidableEq κ] {key : α → κ} {l : List α} {k : κ} {pos : Nat}
    {f : α → α} (hkeys : (l.map key).Nodup) (h : findPos (fun a => key a == k) l = some pos) {b : α} :
    b ∈ l.modify pos f ↔ (b ∈ l ∧ key b ≠ k) ∨ ∃ a ∈ l, key a = k ∧ b = f a := by
  obtain ⟨a, ha, hk⟩ := findPos_some h
  have hk : key a = k := eq_of_beq hk
  rw [(perm_modify ha).mem_iff, List.mem_cons, mem_swapRemove_of_found hkeys h]
  constructor
  · rintro (rfl | hb)
    · exact .inr ⟨a, List.mem_of_getElem? ha, hk, rfl⟩
    · exact .inl hb
  · rintro (hb | ⟨a', ha', hk', rfl⟩)
    · exact .inr hb
    · rw [List.inj_on_of_nodup_map hkeys ha' (List.mem_of_getElem? ha) (hk'.trans hk.symm)]
      exact .inl rfl

/-! ## Picking the best -/

/-- A linear scan that keeps the best entry so far: `best` is replaced by an
admissible entry when there is none yet or when the new entry is `better`. -/
def pickFrom (admissible : α → Bool) (better : α → α → Bool) :
    Nat → Option (Nat × α) → List α → Option (Nat × α)
  | _, best, [] => best
  | i, best, a :: l =>
      let best' :=
        if admissible a then
          match best with
          | none => some (i, a)
          | some (_, b) => if better a b then some (i, a) else best
        else best
      pickFrom admissible better (i + 1) best' l

/-- The position the scan ends with. -/
def pick (admissible : α → Bool) (better : α → α → Bool) (l : List α) : Option Nat :=
  (pickFrom admissible better 0 none l).map (·.1)

/-- The scan's candidate is always an admissible entry of the table. -/
theorem pickFrom_mem {admissible : α → Bool} {better : α → α → Bool} {table : List α} :
    ∀ (l : List α) (i : Nat) (best : Option (Nat × α)), table.drop i = l →
      (∀ j b, best = some (j, b) → table[j]? = some b ∧ admissible b = true) →
      ∀ j b, pickFrom admissible better i best l = some (j, b) →
        table[j]? = some b ∧ admissible b = true
  | [], _, best, _, hbest, j, b, h => hbest j b h
  | a :: l, i, best, hdrop, hbest, j, b, h => by
    have hget : table[i]? = some a := by
      have := congrArg (·[0]?) hdrop
      simpa using this
    have hrest : table.drop (i + 1) = l := by
      rw [← List.drop_drop, hdrop]
      rfl
    refine pickFrom_mem l (i + 1) _ hrest ?_ j b h
    intro j' b' h'
    split at h'
    · rename_i ha
      split at h'
      · obtain ⟨rfl, rfl⟩ := Prod.mk.inj (Option.some.inj h')
        exact ⟨hget, ha⟩
      · split at h'
        · obtain ⟨rfl, rfl⟩ := Prod.mk.inj (Option.some.inj h')
          exact ⟨hget, ha⟩
        · exact hbest j' b' h'
    · exact hbest j' b' h'

theorem pick_some {admissible : α → Bool} {better : α → α → Bool} {l : List α} {pos : Nat}
    (h : pick admissible better l = some pos) :
    ∃ a, l[pos]? = some a ∧ admissible a = true := by
  obtain ⟨⟨j, b⟩, hp, rfl⟩ := Option.map_eq_some_iff.mp h
  exact ⟨b, pickFrom_mem l 0 none rfl (by simp) j b hp⟩

/-- An empty hand at the end of the scan means that nothing was admissible. -/
theorem pickFrom_none {admissible : α → Bool} {better : α → α → Bool} :
    ∀ (l : List α) (i : Nat) (best : Option (Nat × α)),
      pickFrom admissible better i best l = none → best = none ∧ ∀ a ∈ l, admissible a = false
  | [], _, best, h => ⟨h, fun _ ha => absurd ha List.not_mem_nil⟩
  | a :: l, i, best, h => by
    obtain ⟨hbest, hrest⟩ := pickFrom_none l (i + 1) _ h
    cases ha : admissible a with
    | true =>
      rw [ha, if_pos rfl] at hbest
      cases best with
      | none => exact absurd hbest (by simp)
      | some x =>
        simp only at hbest
        split at hbest <;> exact absurd hbest (by simp)
    | false =>
      rw [ha] at hbest
      exact ⟨by simpa using hbest, by simpa [ha] using hrest⟩

theorem pick_none {admissible : α → Bool} {better : α → α → Bool} {l : List α}
    (h : pick admissible better l = none) : ∀ a ∈ l, admissible a = false :=
  (pickFrom_none l 0 none (Option.map_eq_none_iff.mp h)).2

/-- Where `better` is a strict order, no admissible entry is better than the one the
scan ends with: neither one of the rest nor the candidate the scan came with. -/
theorem pickFrom_best {admissible : α → Bool} {better : α → α → Bool}
    (htrans : ∀ a b c, better a b = true → better b c = true → better a c = true)
    (hirrefl : ∀ a, better a a = false) :
    ∀ (l : List α) (i : Nat) (best : Option (Nat × α)) (j : Nat) (b : α),
      pickFrom admissible better i best l = some (j, b) →
      (∀ x ∈ l, admissible x = true → better x b = false) ∧
      ∀ j' b', best = some (j', b') → ∀ x, better x b' = false → better x b = false
  | [], _, best, j, b, h => by
    refine ⟨fun _ hx => absurd hx List.not_mem_nil, fun j' b' hb x hx => ?_⟩
    obtain ⟨rfl, rfl⟩ := Prod.mk.inj (Option.some.inj (hb.symm.trans h))
    exact hx
  | a :: l, i, best, j, b, h => by
    obtain ⟨hrest, hkeep⟩ := pickFrom_best htrans hirrefl l (i + 1) _ j b h
    cases ha : admissible a with
    | false =>
      rw [ha] at hkeep
      refine ⟨fun x hx hadm => ?_, fun j' b' hb => hkeep j' b' (by simpa using hb)⟩
      rcases List.mem_cons.mp hx with rfl | hx
      · rw [ha] at hadm
        exact absurd hadm (by simp)
      · exact hrest x hx hadm
    | true =>
      rw [ha, if_pos rfl] at hkeep
      cases best with
      | none =>
        refine ⟨fun x hx hadm => ?_, fun j' b' hb => absurd hb (by simp)⟩
        rcases List.mem_cons.mp hx with rfl | hx
        · exact hkeep _ _ rfl _ (hirrefl x)
        · exact hrest x hx hadm
      | some y =>
        obtain ⟨j0, b0⟩ := y
        simp only at hkeep
        cases hbetter : better a b0 with
        | true =>
          rw [hbetter, if_pos rfl] at hkeep
          refine ⟨fun x hx hadm => ?_, fun j' b' hb x hx => ?_⟩
          · rcases List.mem_cons.mp hx with rfl | hx
            · exact hkeep _ _ rfl _ (hirrefl x)
            · exact hrest x hx hadm
          · obtain ⟨rfl, rfl⟩ := Prod.mk.inj (Option.some.inj hb)
            refine hkeep _ _ rfl x ?_
            -- better than `a` would be better than what `a` replaced
            cases hxa : better x a with
            | false => rfl
            | true =>
              rw [htrans x a b0 hxa hbetter] at hx
              exact absurd hx (by simp)
        | false =>
          rw [hbetter] at hkeep
          refine ⟨fun x hx hadm => ?_, fun j' b' hb x hx => ?_⟩
          · rcases List.mem_cons.mp hx with rfl | hx
            · exact hkeep j0 b0 (by simp) x hbetter
            · exact hrest x hx hadm
          · obtain ⟨rfl, rfl⟩ := Prod.mk.inj (Option.some.inj hb)
            exact hkeep j0 b0 (by simp) x hx

/-- The pick is a best admissible entry. -/
theorem pick_best {admissible : α → Bool} {better : α → α → Bool}
    (htrans : ∀ a b c, better a b = true → better b c = true → better a c = true)
    (hirrefl : ∀ a, better a a = false) {l : List α} {pos : Nat}
    (h : pick admissible better l = some pos) : ∃ a, l[pos]? = some a ∧ admissible a = true ∧
      ∀ x ∈ l, admissible x = true → better x a = false := by
  obtain ⟨⟨j, b⟩, hp, rfl⟩ := Option.map_eq_some_iff.mp h
  obtain ⟨hget, hadm⟩ := pickFrom_mem l 0 none rfl (by simp) j b hp
  exact ⟨b, hget, hadm, (pickFrom_best htrans hirrefl l 0 none j b hp).1⟩

/-- Where `better` is a strict weak order, the scan ends with an entry that is better than
every admissible entry in front of it. -/
theorem pickFrom_first {admissible : α → Bool} {better : α → α → Bool}
    (htrans : ∀ a b c, better a b = true → better b c = true → better a c = true)
    (hweak : ∀ a b c, better a c = true → better b c = false → better a b = true) :
    ∀ (l : List α) (i : Nat) (best : Option (Nat × α)) (j : Nat) (b : α),
      pickFrom admissible better i best l = some (j, b) →
      (∀ j' b', best = some (j', b') → j' < i) →
      (∀ k x, l[k]? = some x → i + k < j → admissible x = true → better b x = true) ∧
      ∀ j' b', best = some (j', b') → (j = j' ∧ b = b') ∨ better b b' = true
  | [], _, best, j, b, h, _ => by
    refine ⟨fun k x hx => absurd hx (by simp), fun j' b' hb => .inl ?_⟩
    exact Prod.mk.inj (Option.some.inj (h.symm.trans hb))
  | a :: l, i, best, j, b, h, hbefore => by
    have hfront : ∀ {p : Prop}, (∀ k x, l[k]? = some x → i + 1 + k < j → admissible x = true →
        better b x = true) → (i < j → admissible a = true → better b a = true) → p →
        (∀ k x, (a :: l)[k]? = some x → i + k < j → admissible x = true → better b x = true) ∧ p := by
      intro p hrest ha hp
      refine ⟨fun k x hx hk hadm => ?_, hp⟩
      cases k with
      | zero =>
        obtain rfl : a = x := by simpa using hx
        exact ha hk hadm
      | succ k => exact hrest k x (by simpa using hx) (by omega) hadm
    cases ha : admissible a with
    | false =>
      simp only [pickFrom, ha, Bool.false_eq_true, if_false] at h
      obtain ⟨hrest, hkeep⟩ := pickFrom_first htrans hweak l (i + 1) best j b h
        fun j' b' hb => Nat.lt_succ_of_lt (hbefore j' b' hb)
      exact hfront hrest (fun _ hadm => absurd (ha.symm.trans hadm) (by simp)) hkeep
    | true =>
      cases best with
      | none =>
        simp only [pickFrom, ha, if_true] at h
        obtain ⟨hrest, hkeep⟩ := pickFrom_first htrans hweak l (i + 1) _ j b h fun j' b' hb => by
          obtain ⟨rfl, _⟩ := Prod.mk.inj (Option.some.inj hb)
          exact Nat.lt_succ_self i
        refine hfront hrest (fun hlt _ => ?_) fun j' b' hb => absurd hb (by simp)
        exact (hkeep i a rfl).resolve_left fun heq => absurd heq.1 (Nat.ne_of_gt hlt)
      | some y =>
        obtain ⟨j0, b0⟩ := y
        have hj0 := hbefore j0 b0 rfl
        cases hbetter : better a b0 with
        | true =>
          simp only [pickFrom, ha, hbetter, if_true] at h
          obtain ⟨hrest, hkeep⟩ := pickFrom_first htrans hweak l (i + 1) _ j b h fun j' b' hb => by
            obtain ⟨rfl, _⟩ := Prod.mk.inj (Option.some.inj hb)
            exact Nat.lt_succ_self i
          have hlast := hkeep i a rfl
          refine hfront hrest (fun hlt _ => ?_) fun j' b' hb => .inr ?_
          · exact hlast.resolve_left fun heq => absurd heq.1 (Nat.ne_of_gt hlt)
          · obtain ⟨rfl, rfl⟩ := Prod.mk.inj (Option.some.inj hb)
            rcases hlast with ⟨_, rfl⟩ | hlast
            · exact hbetter
            · exact htrans b a b0 hlast hbetter
        | false =>
          simp only [pickFrom, ha, hbetter, if_true, Bool.false_eq_true, if_false] at h
          obtain ⟨hrest, hkeep⟩ := pickFrom_first htrans hweak l (i + 1) _ j b h fun j' b' hb => by
            obtain ⟨rfl, _⟩ := Prod.mk.inj (Option.some.inj hb)
            exact Nat.lt_succ_of_lt hj0
          refine hfront hrest (fun hlt _ => ?_) hkeep
          rcases hkeep j0 b0 rfl with ⟨rfl, _⟩ | hlast
          · exact absurd hj0 (Nat.lt_asymm hlt)
          · exact hweak b a b0 hlast hbetter

/-- The pick is better than every admissible entry in front of it. -/
theorem pick_first {admissible : α → Bool} {better : α → α → Bool}
    (htrans : ∀ a b c, better a b = true → better b c = true → better a c = true)
    (hweak : ∀ a b c, better a c = true → better b c = false → better a b = true) {l : List α}
    {pos i : Nat} {a x : α} (h : pick admissible better l = some pos) (ha : l[pos]? = some a)
    (hx : l[i]? = some x) (hi : i < pos) (hadm : admissible x = true) : better a x = true := by
  obtain ⟨⟨j, b⟩, hp, rfl⟩ := Option.map_eq_some_iff.mp h
  obtain ⟨hget, _⟩ := pickFrom_mem l 0 none rfl (by simp) j b hp
  obtain rfl := Option.some.inj (hget.symm.trans ha)
  refine (pickFrom_first htrans hweak l 0 none j b hp (by simp)).1 i x hx ?_ hadm
  rwa [Nat.zero_add]

/-- Where the order decides between any two admissible entries, the pick does not
depend on the order of the table. -/
theorem pick_perm {admissible : α → Bool} {better : α → α → Bool}
    (htrans : ∀ a b c, better a b = true → better b c = true → better a c = true)
    (hirrefl : ∀ a, better a a = false) {l l' : List α} (hperm : l.Perm l')
    (htotal : ∀ a ∈ l, ∀ b ∈ l, a = b ∨ better a b = true ∨ better b a = true) :
    (pick admissible better l).bind (l[·]?) = (pick admissible better l').bind (l'[·]?) := by
  cases hp : pick admissible better l with
  | none =>
    have hnone := pick_none hp
    cases hp' : pick admissible better l' with
    | none => rfl
    | some pos' =>
      obtain ⟨a, ha, hadm⟩ := pick_some hp'
      rw [hnone a (hperm.mem_iff.mpr (List.mem_of_getElem? ha))] at hadm
      exact absurd hadm (by simp)
  | some pos =>
    obtain ⟨a, ha, hadm, hbest⟩ := pick_best htrans hirrefl hp
    have hmem := List.mem_of_getElem? ha
    cases hp' : pick admissible better l' with
    | none =>
      rw [pick_none hp' a (hperm.mem_iff.mp hmem)] at hadm
      exact absurd hadm (by simp)
    | some pos' =>
      obtain ⟨b, hb, hadm', hbest'⟩ := pick_best htrans hirrefl hp'
      have hmem' := hperm.mem_iff.mpr (List.mem_of_getElem? hb)
      show l[pos]? = l'[pos']?
      rw [ha, hb]
      rcases htotal a hmem b hmem' with h | h | h
      · rw [h]
      · rw [hbest' a (hperm.mem_iff.mp hmem) hadm] at h
        exact absurd h (by simp)
      · rw [hbest b hmem' hadm'] at h
        exact absurd h (by simp)

end EdgeSync.Foundation
