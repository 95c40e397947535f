import Mathlib.Logic.Function.Basic
import Mathlib.Data.List.Basic

/-!
# Chained tables

A table of chains: each index has a list of entries, and an entry is stored by appending it to one
of them. `Represents key t m` says that the table is a representation of the finite map `m` from
keys to entries, whichever chains the entries are in. Where an entry belongs, and how it is
found again, is left to the table's user.
-/

namespace Chained

variable {ι α κ : Type*}

/-- A chain of entries for each index. -/
abbrev Table (ι α : Type*) := ι → List α

/-- The table with no entries. -/
def empty : Table ι α := fun _ => []

/-- Some chain of the table holds `x`. -/
def Holds (t : Table ι α) (x : α) : Prop := ∃ i, x ∈ t i

/-- The table after `x` was put at the end of the chain at `i`. -/
def append [DecidableEq ι] (t : Table ι α) (i : ι) (x : α) : Table ι α :=
  Function.update t i (t i ++ [x])

/-- The table holds exactly the entries of the map. -/
def Represents (key : α → κ) (t : Table ι α) (m : κ → Option α) : Prop :=
  ∀ k x, m k = some x ↔ Holds t x ∧ key x = k

@[simp] theorem not_holds_empty (x : α) : ¬ Holds (empty : Table ι α) x := by
  rintro ⟨i, hi⟩
  exact List.not_mem_nil hi

theorem holds_append [DecidableEq ι] {t : Table ι α} {i : ι} {x y : α} :
    Holds (append t i x) y ↔ Holds t y ∨ y = x := by
  constructor
  · rintro ⟨j, hj⟩
    rcases eq_or_ne j i with rfl | hji
    · rw [append, Function.update_self, List.mem_append, List.mem_singleton] at hj
      exact hj.imp_left fun h => ⟨j, h⟩
    · rw [append, Function.update_of_ne hji] at hj
      exact .inl ⟨j, hj⟩
  · rintro (⟨j, hj⟩ | rfl)
    · refine ⟨j, ?_⟩
      rcases eq_or_ne j i with rfl | hji
      · rw [append, Function.update_self]
        exact List.mem_append_left _ hj
      · rwa [append, Function.update_of_ne hji]
    · exact ⟨i, by simp [append]⟩

variable {key : α → κ} {t : Table ι α} {m : κ → Option α} {k : κ} {x : α}

theorem represents_empty (key : α → κ) :
    Represents key (empty : Table ι α) fun _ => none := by simp [Represents]

theorem Represents.eq_some (h : Represents key t m) (hx : Holds t x) : m (key x) = some x :=
  (h _ _).mpr ⟨hx, rfl⟩

theorem Represents.eq_none (h : Represents key t m) :
    m k = none ↔ ∀ x, Holds t x → key x ≠ k := by
  rw [Option.eq_none_iff_forall_ne_some]
  exact forall_congr' fun x => by rw [ne_eq, h, not_and]

/-- **Storing an entry under a new key.** -/
theorem Represents.append [DecidableEq ι] [DecidableEq κ] (h : Represents key t m) (i : ι)
    (hx : m (key x) = none) :
    Represents key (append t i x) (Function.update m (key x) (some x)) := by
  intro k y
  rw [holds_append]
  rcases eq_or_ne k (key x) with rfl | hk
  · rw [Function.update_self, Option.some.injEq]
    refine ⟨fun he => ⟨.inr he.symm, by rw [he]⟩, ?_⟩
    rintro ⟨hy | rfl, hkey⟩
    · exact absurd hkey (h.eq_none.mp hx y hy)
    · rfl
  · rw [Function.update_of_ne hk, h]
    refine ⟨fun hy => ⟨.inl hy.1, hy.2⟩, ?_⟩
    rintro ⟨hy | rfl, hkey⟩
    · exact ⟨hy, hkey⟩
    · exact absurd hkey.symm hk

end Chained
