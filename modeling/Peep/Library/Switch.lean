import Mathlib.Data.List.Induction

/-!
# A switch along a sequence

The elements of a sequence act on a switch one after the other: some set it, some keep it as it is,
and the others clear it. Whether an element can be passed depends on the switch in front of it.

The switch is set where the last element that does not keep it sets it. So the whole sequence can be
passed if each of its elements can be passed with that switch.

## Main results

* `Switch.after_iff` — where the switch is set
* `Switch.isSome_foldlM_next_iff` — the sequences that can be passed
-/

/-- What the elements of a sequence do to a switch, and what they ask of it. -/
structure Switch (γ : Type) where
  /-- The element sets the switch. -/
  sets : γ → Bool
  /-- The element keeps the switch as it is. -/
  keeps : γ → Bool
  /-- The element can be passed. -/
  passes : Bool → γ → Bool

namespace Switch

variable {γ : Type} (k : Switch γ)

/-- The switch behind an element. -/
def turn (b : Bool) (c : γ) : Bool := k.sets c || (k.keeps c && b)

/-- The switch behind an element that can be passed. -/
def next (b : Bool) (c : γ) : Option Bool := if k.passes b c then some (k.turn b c) else none

/-- The last element that does not keep the switch sets it. -/
def LastSets (before : List γ) : Prop :=
  ∃ earlier c later, before = earlier ++ c :: later ∧ k.sets c = true ∧
    ∀ d ∈ later, k.keeps d = true

/-- Each element of a sequence can be passed with the switch that is there. -/
def Passable (b : Bool) (cs : List γ) : Prop :=
  ∀ before c after, cs = before ++ c :: after → k.passes (before.foldl k.turn b) c = true

variable {k} {b : Bool} {c : γ} {cs : List γ}

/-- **Where the switch is set.** -/
theorem after_iff (before : List γ) : before.foldl k.turn false = true ↔ k.LastSets before := by
  induction before using List.reverseRecOn with
  | nil => simp [LastSets]
  | append_singleton before c ih =>
    rw [List.foldl_append, List.foldl_cons, List.foldl_nil, turn, Bool.or_eq_true,
      Bool.and_eq_true, ih]
    constructor
    · rintro (hsets | ⟨hkeeps, earlier, d, later, rfl, hd, hlater⟩)
      · exact ⟨before, c, [], rfl, hsets, by simp⟩
      · refine ⟨earlier, d, later ++ [c], by simp, hd, fun x hx => ?_⟩
        obtain hx | hx := List.mem_append.mp hx
        · exact hlater x hx
        · rwa [List.mem_singleton.mp hx]
    · rintro ⟨earlier, d, later, happ, hd, hlater⟩
      cases later using List.reverseRecOn with
      | nil =>
        obtain ⟨-, hc⟩ := List.append_inj' happ rfl
        obtain rfl : c = d := by simpa using hc
        exact .inl hd
      | append_singleton later x =>
        have happ' : before ++ [c] = (earlier ++ d :: later) ++ [x] := by simp [happ]
        obtain ⟨rfl, hx⟩ := List.append_inj' happ' rfl
        obtain rfl : c = x := by simpa using hx
        exact .inr ⟨hlater c (by simp), earlier, d, later, rfl, hd,
          fun y hy => hlater y (by simp [hy])⟩

theorem passable_cons :
    k.Passable b (c :: cs) ↔ k.passes b c = true ∧ k.Passable (k.turn b c) cs := by
  constructor
  · intro hall
    refine ⟨hall [] c cs rfl, fun before d after happ => ?_⟩
    exact hall (c :: before) d after (by rw [happ]; rfl)
  · rintro ⟨hc, hrest⟩ before d after happ
    cases before with
    | nil =>
      obtain ⟨rfl, -⟩ := List.cons.inj happ
      exact hc
    | cons x before =>
      obtain ⟨rfl, htail⟩ := List.cons.inj happ
      exact hrest before d after htail

/-- **The sequences that can be passed.** -/
theorem isSome_foldlM_next_iff : (cs.foldlM k.next b).isSome ↔ k.Passable b cs := by
  induction cs generalizing b with
  | nil => simp [Passable]
  | cons c cs ih =>
    rw [List.foldlM_cons, passable_cons, next]
    by_cases hc : k.passes b c = true
    · rw [if_pos hc, Option.bind_eq_bind, Option.bind_some, ih]
      exact (and_iff_right hc).symm
    · rw [if_neg hc]
      exact iff_of_false (by simp) fun h => hc h.1

/-- Where the switch does not matter. -/
theorem passable_iff_forall {p : γ → Prop} (h : ∀ b c, k.passes b c = true ↔ p c) :
    k.Passable b cs ↔ ∀ c ∈ cs, p c := by
  induction cs generalizing b with
  | nil => simp [Passable]
  | cons c cs ih => rw [passable_cons, h, ih, List.forall_mem_cons]

end Switch
