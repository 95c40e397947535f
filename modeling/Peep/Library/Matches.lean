import Mathlib.Data.List.Induction
import Mathlib.Order.Nat

/-!
# First and last matches

Two ways of searching a list for an element with a property: to stop at the first one, which is
`List.findIdx?`, and to go on to the end and keep the last one. They come to the same place if and
only if there is a single one.
-/

namespace Matches

variable {α : Type*} {p : α → Bool} {l : List α} {a : α} {i j : ℕ}

/-- The element at the index has the property. -/
def MatchesAt (p : α → Bool) (l : List α) (i : ℕ) : Prop := ∃ a, l[i]? = some a ∧ p a = true

/-- The index of the last element with the property, and `0` without one. -/
def lastIdx (p : α → Bool) (l : List α) : ℕ :=
  l.zipIdx.foldl (fun index x => if p x.1 then x.2 else index) 0

theorem lastIdx_concat (p : α → Bool) (l : List α) (a : α) :
    lastIdx p (l ++ [a]) = if p a then l.length else lastIdx p l := by
  rw [lastIdx, List.zipIdx_append, List.foldl_append, Nat.zero_add]
  rfl

theorem matchesAt_concat :
    MatchesAt p (l ++ [a]) i ↔ MatchesAt p l i ∨ i = l.length ∧ p a = true := by
  rcases lt_trichotomy i l.length with hlt | rfl | hgt
  · simp [MatchesAt, List.getElem?_append_left hlt, hlt.ne]
  · simp [MatchesAt]
  · have hout : (l ++ [a])[i]? = none :=
      List.getElem?_eq_none (by rw [List.length_append, List.length_singleton]; omega)
    simp [MatchesAt, hout, hgt.ne', List.getElem?_eq_none hgt.le]

/-- **The last match is a match**, if there is one. -/
theorem matchesAt_lastIdx (h : MatchesAt p l i) : MatchesAt p l (lastIdx p l) := by
  induction l using List.reverseRecOn with
  | nil =>
    obtain ⟨a, ha, -⟩ := h
    cases ha
  | append_singleton l a ih =>
    rw [lastIdx_concat]
    split_ifs with hp
    · exact matchesAt_concat.mpr (.inr ⟨rfl, hp⟩)
    · rcases matchesAt_concat.mp h with h | h
      · exact matchesAt_concat.mpr (.inl (ih h))
      · exact absurd h.2 hp

/-- **No match comes behind it.** -/
theorem le_lastIdx (h : MatchesAt p l i) : i ≤ lastIdx p l := by
  induction l using List.reverseRecOn with
  | nil =>
    obtain ⟨a, ha, -⟩ := h
    cases ha
  | append_singleton l a ih =>
    rw [lastIdx_concat]
    rcases matchesAt_concat.mp h with h | h
    · split_ifs
      · obtain ⟨b, hb, -⟩ := h
        exact (List.getElem?_eq_some_iff.mp hb).1.le
      · exact ih h
    · rw [if_pos h.2]
      exact h.1.le

/-- **The first match and the last** are the same exactly if there is a single one. -/
theorem findIdx?_eq_lastIdx_iff (h : MatchesAt p l i) :
    l.findIdx? p = some (lastIdx p l) ↔ ∀ j k, MatchesAt p l j → MatchesAt p l k → j = k := by
  constructor
  · intro hfirst
    obtain ⟨_, _, hbefore⟩ := List.findIdx?_eq_some_iff_getElem.mp hfirst
    have heq : ∀ j, MatchesAt p l j → j = lastIdx p l := by
      intro j hj
      refine (le_lastIdx hj).eq_of_not_lt fun hlt => ?_
      obtain ⟨a, ha, hp⟩ := hj
      obtain ⟨_, rfl⟩ := List.getElem?_eq_some_iff.mp ha
      exact hbefore j hlt hp
    intro j k hj hk
    rw [heq j hj, heq k hk]
  · intro hunique
    obtain ⟨a, ha, hp⟩ := h
    cases hfirst : l.findIdx? p with
    | none =>
      have hnone := List.findIdx?_eq_none_iff.mp hfirst a (List.mem_of_getElem? ha)
      rw [hp] at hnone
      cases hnone
    | some j =>
      obtain ⟨hj, hpj, -⟩ := List.findIdx?_eq_some_iff_getElem.mp hfirst
      have hmatch : MatchesAt p l j := ⟨l[j], List.getElem?_eq_getElem hj, hpj⟩
      rw [hunique j _ hmatch (matchesAt_lastIdx hmatch)]

end Matches
