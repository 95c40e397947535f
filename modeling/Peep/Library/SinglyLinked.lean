import Mathlib.Data.List.Nodup
import Mathlib.Data.List.TakeWhile
import Mathlib.Logic.Function.Basic

/-!
# Singly linked lists in a memory

A memory is a partial map from addresses to cells; `none` is an address that is not allocated, or
has been freed. `Path mem p xs` says that the cells from `p` on are linked in the order of `xs`, a
list of addresses with what the cells there hold, and that the last one points nowhere.

`seek` walks along a list to the first cell that passes a test, in so many turns at most. It has no
value where it would read a cell that is not there, or where the turns do not suffice.

## Main results

* `Path.det`, `Path.nodup` — a list is determined by its first address, and does not come back
* `Path.update`, `Path.append`, `Path.unlink` — assignments to a cell and behind the last one, and
  taking a cell out
* `seek_mono`, `Path.seek`, `Path.seek_last` — what a walk finds
-/

namespace SinglyLinked

variable {α : Type*}

/-- A cell of a singly linked list. -/
structure Cell (α : Type*) where
  /-- What the cell holds. -/
  value : α
  /-- The address of the next cell. -/
  next : Option ℕ
  deriving DecidableEq

/-- A memory of cells. -/
abbrev Memory (α : Type*) := ℕ → Option (Cell α)

/-- The first cell from `p` on that passes the test. -/
def seek (mem : Memory α) (test : Cell α → Bool) : ℕ → Option ℕ → Option (Option ℕ)
  | _, none => some none
  | 0, some _ => none
  | turns + 1, some a =>
    match mem a with
    | none => none
    | some cell => if test cell then some (some a) else seek mem test turns cell.next

/-- The cells from `p` on are those of `xs`. -/
def Path (mem : Memory α) : Option ℕ → List (ℕ × α) → Prop
  | p, [] => p = none
  | p, x :: xs => p = some x.1 ∧ ∃ next, mem x.1 = some ⟨x.2, next⟩ ∧ Path mem next xs

variable {mem mem' : Memory α} {p : Option ℕ} {a : ℕ} {v : α} {x : ℕ × α} {xs ys : List (ℕ × α)}
  {q : α → Bool} {turns : ℕ}

@[simp] theorem path_nil : Path mem p [] ↔ p = none := Iff.rfl

/-- A list depends on its own cells only. -/
theorem Path.congr (h : Path mem p xs) (heq : ∀ a ∈ xs.map Prod.fst, mem' a = mem a) :
    Path mem' p xs := by
  induction xs generalizing p with
  | nil => exact h
  | cons x xs ih =>
    obtain ⟨hp, next, hx, hxs⟩ := h
    rw [List.map_cons, List.forall_mem_cons] at heq
    exact ⟨hp, next, heq.1.trans hx, ih hxs heq.2⟩

/-- **A list is determined** by its first address. -/
theorem Path.det (hxs : Path mem p xs) (hys : Path mem p ys) : xs = ys := by
  induction xs generalizing p ys with
  | nil =>
    cases ys with
    | nil => rfl
    | cons y ys =>
      rw [path_nil] at hxs
      cases hxs.symm.trans hys.1
  | cons x xs ih =>
    obtain ⟨hp, next, hx, hxs⟩ := hxs
    cases ys with
    | nil =>
      rw [path_nil] at hys
      cases hp.symm.trans hys
    | cons y ys =>
      obtain ⟨hp', next', hy, hys⟩ := hys
      have hfst : x.1 = y.1 := Option.some.inj (hp.symm.trans hp')
      rw [← hfst, hx, Option.some.injEq, Cell.mk.injEq] at hy
      obtain ⟨hsnd, rfl⟩ := hy
      rw [Prod.ext hfst hsnd, ih hxs hys]

/-- What is behind some cells of a list is a list. -/
theorem Path.right (h : Path mem p (xs ++ ys)) : ∃ r, Path mem r ys := by
  induction xs generalizing p with
  | nil => exact ⟨p, h⟩
  | cons x xs ih =>
    obtain ⟨-, next, -, h⟩ := h
    exact ih h

/-- **A list does not come back** to one of its cells. -/
theorem Path.nodup (h : Path mem p xs) : (xs.map Prod.fst).Nodup := by
  induction xs generalizing p with
  | nil => exact List.nodup_nil
  | cons x xs ih =>
    have htail : ∃ next, Path mem next xs := by
      obtain ⟨-, next, -, hxs⟩ := h
      exact ⟨next, hxs⟩
    obtain ⟨next, hxs⟩ := htail
    refine List.nodup_cons.mpr ⟨fun hmem => ?_, ih hxs⟩
    -- behind the same address there would be two lists, one in the other
    obtain ⟨y, hy, hyx⟩ := List.mem_map.mp hmem
    obtain ⟨before, behind, rfl⟩ := List.append_of_mem hy
    obtain ⟨r, hr⟩ := hxs.right
    have hp : r = p := by rw [hr.1, h.1, hyx]
    have heq := congrArg List.length (h.det (hp ▸ hr))
    simp only [List.length_cons, List.length_append] at heq
    omega

/-- Where an address of the list is, its cell is. -/
theorem Path.isSome (h : Path mem p xs) (ha : a ∈ xs.map Prod.fst) : (mem a).isSome := by
  induction xs generalizing p with
  | nil => cases ha
  | cons x xs ih =>
    obtain ⟨-, next, hx, hxs⟩ := h
    rcases List.mem_cons.mp ha with rfl | ha
    · rw [hx]
      rfl
    · exact ih hxs ha

/-- More turns make no difference to a walk that has come to its end. -/
theorem seek_mono {test : Cell α → Bool} {r : Option ℕ} {turns' : ℕ}
    (h : seek mem test turns p = some r) (hle : turns ≤ turns') :
    seek mem test turns' p = some r := by
  induction turns generalizing p turns' with
  | zero =>
    rcases p with - | a
    · cases turns' <;> exact h
    · cases h
  | succ turns ih =>
    rcases p with - | a
    · cases turns' <;> exact h
    · obtain ⟨turns', rfl⟩ := Nat.exists_eq_add_one_of_ne_zero (Nat.ne_zero_of_lt hle)
      rw [seek] at h ⊢
      cases hmem : mem a with
      | none =>
        rw [hmem] at h
        cases h
      | some cell =>
        simp only [hmem] at h ⊢
        split_ifs at h ⊢
        · exact h
        · exact ih h (Nat.le_of_succ_le_succ hle)

/-- **A walk** finds the first cell whose value passes the test. -/
theorem Path.seek (h : Path mem p xs) (hturns : xs.length ≤ turns) :
    seek mem (fun cell => q cell.value) turns p
      = some ((xs.find? fun x => q x.2).map Prod.fst) := by
  induction xs generalizing p turns with
  | nil =>
    obtain rfl : p = none := h
    rw [SinglyLinked.seek]
    rfl
  | cons x xs ih =>
    obtain ⟨rfl, next, hx, hxs⟩ := h
    obtain ⟨turns, rfl⟩ := Nat.exists_eq_add_one_of_ne_zero (Nat.ne_zero_of_lt hturns)
    rw [SinglyLinked.seek]
    simp only [hx, List.find?_cons]
    cases q x.2 with
    | true => rfl
    | false => exact ih hxs (Nat.le_of_succ_le_succ hturns)

/-- The walk to the last cell. -/
theorem Path.seek_last (h : Path mem p (xs ++ [x])) (hturns : xs.length < turns) :
    SinglyLinked.seek mem (fun cell => cell.next.isNone) turns p = some (some x.1) ∧
      mem x.1 = some ⟨x.2, none⟩ := by
  induction xs generalizing p turns with
  | nil =>
    obtain ⟨turns, rfl⟩ := Nat.exists_eq_add_one_of_ne_zero (Nat.ne_zero_of_lt hturns)
    obtain ⟨rfl, next, hx, rfl⟩ := h
    rw [SinglyLinked.seek]
    simp [hx]
  | cons y xs ih =>
    obtain ⟨turns, rfl⟩ := Nat.exists_eq_add_one_of_ne_zero (Nat.ne_zero_of_lt hturns)
    obtain ⟨rfl, next, hy, hxs⟩ := h
    have hnext : next.isNone = false := by
      rcases xs with - | ⟨z, xs⟩
      · rw [hxs.1]
        rfl
      · rw [hxs.1]
        rfl
    rw [SinglyLinked.seek]
    simp only [hy, hnext]
    exact ih hxs (Nat.lt_of_succ_lt_succ hturns)

/-- **An assignment to a cell** of the list. -/
theorem Path.update (h : Path mem p xs) (hx : x ∈ xs) (w : α) :
    ∃ next, mem x.1 = some ⟨x.2, next⟩ ∧ Path (Function.update mem x.1 (some ⟨w, next⟩)) p
      (xs.map fun y => if y.1 = x.1 then (y.1, w) else y) := by
  induction xs generalizing p with
  | nil => cases hx
  | cons y ys ih =>
    have hnodup := List.nodup_cons.mp h.nodup
    obtain ⟨hp, next, hy, hys⟩ := h
    rcases List.mem_cons.mp hx with rfl | hx
    · have hother : ∀ z ∈ ys, z.1 ≠ x.1 := fun z hz heq =>
        hnodup.1 (heq ▸ List.mem_map_of_mem hz)
      have htail : (ys.map fun z => if z.1 = x.1 then (z.1, w) else z) = ys :=
        (List.map_congr_left fun z hz => if_neg (hother z hz)).trans (List.map_id _)
      refine ⟨next, hy, ?_⟩
      rw [List.map_cons, if_pos rfl, htail]
      refine ⟨hp, next, Function.update_self .., hys.congr fun a ha => ?_⟩
      obtain ⟨z, hz, rfl⟩ := List.mem_map.mp ha
      exact Function.update_of_ne (hother z hz) ..
    · have hne : y.1 ≠ x.1 := fun heq => hnodup.1 (heq ▸ List.mem_map_of_mem hx)
      obtain ⟨next', hmem, hpath⟩ := ih hys hx
      refine ⟨next', hmem, ?_⟩
      rw [List.map_cons, if_neg hne]
      exact ⟨hp, next, (Function.update_of_ne hne ..).trans hy, hpath⟩

/-- **An assignment behind the last cell.** -/
theorem Path.append (h : Path mem p (xs ++ [x])) (ha : mem a = none) (w : α) :
    Path (Function.update (Function.update mem x.1 (some ⟨x.2, some a⟩)) a (some ⟨w, none⟩)) p
      (xs ++ [x, (a, w)]) := by
  have hfree : ∀ b ∈ (xs ++ [x]).map Prod.fst, b ≠ a := by
    rintro b hb rfl
    have hthere := h.isSome hb
    rw [ha] at hthere
    cases hthere
  induction xs generalizing p with
  | nil =>
    obtain ⟨hp, next, hx, hnext⟩ := h
    have hne : x.1 ≠ a := hfree x.1 (by simp)
    refine ⟨hp, some a, ?_, rfl, none, Function.update_self .., rfl⟩
    rw [Function.update_of_ne hne, Function.update_self]
  | cons y ys ih =>
    have hnodup := List.nodup_cons.mp h.nodup
    obtain ⟨hp, next, hy, hys⟩ := h
    have hne : y.1 ≠ x.1 := fun heq => hnodup.1 (heq ▸ List.mem_map_of_mem (by simp))
    refine ⟨hp, next, ?_, ih hys fun b hb => hfree b (List.mem_cons_of_mem _ hb)⟩
    rw [Function.update_of_ne (hfree y.1 List.mem_cons_self), Function.update_of_ne hne, hy]

/-- A cell behind another one is taken out of the list and freed. -/
theorem Path.unlink {y : ℕ × α} {next : Option ℕ} (h : Path mem p (xs ++ x :: y :: ys))
    (hy : mem y.1 = some ⟨y.2, next⟩) :
    Path (Function.update (Function.update mem x.1 (some ⟨x.2, next⟩)) y.1 none) p
      (xs ++ x :: ys) := by
  induction xs generalizing p with
  | nil =>
    have hnodup := h.nodup
    simp only [List.nil_append, List.map_cons, List.nodup_cons, List.mem_cons, not_or] at hnodup
    obtain ⟨⟨hxy, hx⟩, hyys, -⟩ := hnodup
    obtain ⟨hp, -, -, -, next', hy', hys⟩ := h
    obtain rfl : next' = next := by
      rw [hy] at hy'
      exact (Cell.mk.inj (Option.some.inj hy')).2.symm
    refine ⟨hp, next', ?_, hys.congr fun b hb => ?_⟩
    · rw [Function.update_of_ne hxy, Function.update_self]
    · rw [Function.update_of_ne (ne_of_mem_of_not_mem hb hyys),
        Function.update_of_ne (ne_of_mem_of_not_mem hb hx)]
  | cons z zs ih =>
    have hnotin := (List.nodup_cons.mp h.nodup).1
    obtain ⟨hp, next', hz, hzs⟩ := h
    refine ⟨hp, next', ?_, ih hzs⟩
    have hne (w : ℕ × α) (hw : w ∈ zs ++ x :: y :: ys) : z.1 ≠ w.1 := fun heq =>
      hnotin (heq ▸ List.mem_map_of_mem hw)
    rw [Function.update_of_ne (hne y (by simp)), Function.update_of_ne (hne x (by simp)), hz]

end SinglyLinked
