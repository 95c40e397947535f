import Mathlib.Logic.Function.Basic
import Peep.Library.StepSystem

/-!
# Components side by side

Any number of components of one kind take their steps in any order. A step of a component changes
only its own state, and what it puts out goes to a log that they share, where every entry has the
name of the component it comes from.

What can be said of one of them is what it does alone: it takes those labels of the run that have
its name, and of the log it has the entries that have its name.

## Main results

* `exec_view` — a run, seen from one component, is a run of that component alone
* `along_view` — and meets a condition on its steps if the run of all of them does
* `exists_exec` — runs of the components alone can be interleaved in every order
-/

namespace Interleave

open StepSystem

variable {ι σ α β γ : Type*}

/-- The states of the components, and what they have put out. -/
structure System (ι σ β : Type*) where
  /-- The state of each. -/
  component : ι → σ
  /-- What was put out, and by which. -/
  log : List (ι × β)

/-- A component alone: what it has put out is with its state. -/
def alone (step : σ → α → Option (σ × List β)) (s : σ × List β) (a : α) : Option (σ × List β) :=
  (step s.1 a).map fun r => (r.1, s.2 ++ r.2)

variable [DecidableEq ι]

/-- The entries with a name. -/
def own (i : ι) (l : List (ι × γ)) : List γ := (l.filter fun p => p.1 = i).map Prod.snd

/-- A component takes a step. -/
def System.step (step : σ → α → Option (σ × List β)) (s : System ι σ β) (a : ι × α) :
    Option (System ι σ β) :=
  (step (s.component a.1) a.2).map fun r =>
    ⟨Function.update s.component a.1 r.1, s.log ++ r.2.map (Prod.mk a.1)⟩

/-- The system as one component sees it. -/
def System.view (s : System ι σ β) (i : ι) : σ × List β := (s.component i, own i s.log)

variable {step : σ → α → Option (σ × List β)} {s s' t : System ι σ β} {a : ι × α} {i : ι}
  {as : List (ι × α)}

@[simp] theorem own_nil (i : ι) : own i ([] : List (ι × γ)) = [] := rfl

theorem own_append (i : ι) (l l' : List (ι × γ)) : own i (l ++ l') = own i l ++ own i l' := by
  simp [own]

theorem own_cons_self (i : ι) (c : γ) (l : List (ι × γ)) : own i ((i, c) :: l) = c :: own i l := by
  simp [own]

theorem own_cons_of_ne {j : ι} (h : j ≠ i) (c : γ) (l : List (ι × γ)) :
    own i ((j, c) :: l) = own i l := by
  simp [own, h]

@[simp] theorem own_map_self (i : ι) (l : List γ) : own i (l.map (Prod.mk i)) = l := by
  induction l with
  | nil => rfl
  | cons c l ih => rw [List.map_cons, own_cons_self, ih]

theorem own_map_of_ne {j : ι} (h : j ≠ i) (l : List γ) : own i (l.map (Prod.mk j)) = [] := by
  simp [own, h]

/-- Every entry of a log is in what its component has put out. -/
theorem mem_own {c : γ} {l : List (ι × γ)} : c ∈ own i l ↔ (i, c) ∈ l := by
  simp [own]

/-- An entry of a component is somewhere in the log. -/
theorem exists_split_of_own {c : γ} {l : List (ι × γ)} {pre post : List γ}
    (h : own i l = pre ++ c :: post) :
    ∃ before after, l = before ++ (i, c) :: after ∧ own i before = pre ∧ own i after = post := by
  induction l generalizing pre with
  | nil => simp at h
  | cons p l ih =>
    obtain ⟨j, d⟩ := p
    by_cases hj : j = i
    · subst hj
      rw [own_cons_self] at h
      cases pre with
      | nil =>
        obtain ⟨rfl, rfl⟩ := List.cons.inj h
        exact ⟨[], l, rfl, rfl, rfl⟩
      | cons d' pre =>
        obtain ⟨rfl, htail⟩ := List.cons.inj h
        obtain ⟨before, after, rfl, hbefore, hafter⟩ := ih htail
        exact ⟨(j, d) :: before, after, rfl, by rw [own_cons_self, hbefore], hafter⟩
    · rw [own_cons_of_ne hj] at h
      obtain ⟨before, after, rfl, hbefore, hafter⟩ := ih h
      exact ⟨(j, d) :: before, after, rfl, by rw [own_cons_of_ne hj, hbefore], hafter⟩

/-- **A step, seen from the component that takes it.** -/
theorem view_step_self (h : s.step step a = some s') :
    alone step (s.view a.1) a.2 = some (s'.view a.1) := by
  obtain ⟨r, hr, rfl⟩ := Option.map_eq_some_iff.mp h
  simp only [alone, System.view, hr, Option.map_some, Function.update_self, own_append,
    own_map_self]

/-- **A step, seen from another component**: nothing has changed. -/
theorem view_step_of_ne (h : s.step step a = some s') (hi : a.1 ≠ i) : s'.view i = s.view i := by
  obtain ⟨r, -, rfl⟩ := Option.map_eq_some_iff.mp h
  simp only [System.view, Function.update_of_ne (Ne.symm hi), own_append, own_map_of_ne hi,
    List.append_nil]

/-- **A run, seen from one component**, is its run alone. -/
theorem exec_view (h : exec (System.step step) s as = some t) (i : ι) :
    exec (alone step) (s.view i) (own i as) = some (t.view i) := by
  induction as generalizing s with
  | nil =>
    obtain rfl : s = t := by simpa using h
    rfl
  | cons a as ih =>
    obtain ⟨s', hs', ht⟩ := exec_cons_eq_some.mp h
    obtain ⟨j, c⟩ := a
    by_cases hi : j = i
    · subst hi
      rw [own_cons_self]
      exact exec_cons_eq_some.mpr ⟨_, view_step_self hs', ih ht⟩
    · rw [own_cons_of_ne hi, ← view_step_of_ne hs' hi]
      exact ih ht

/-- **A condition on the steps of the components**, seen from one of them. -/
theorem along_view {C : σ × List β → α → Prop} (h : exec (System.step step) s as = some t)
    (hC : Along (System.step step) (fun s a => C (s.view a.1) a.2) s as) (i : ι) :
    Along (alone step) C (s.view i) (own i as) := by
  induction as generalizing s with
  | nil => trivial
  | cons a as ih =>
    obtain ⟨s', hs', ht⟩ := exec_cons_eq_some.mp h
    have hrest := ih ht (hC.2 s' hs')
    obtain ⟨j, c⟩ := a
    by_cases hi : j = i
    · subst hi
      rw [own_cons_self]
      exact (along_cons_of_eq (view_step_self hs')).mpr ⟨hC.1, hrest⟩
    · rw [own_cons_of_ne hi, ← view_step_of_ne hs' hi]
      exact hrest

/-- **Every order is possible**: if each component can take its own steps, all of them can. -/
theorem exists_exec (h : ∀ i, (exec (alone step) (s.view i) (own i as)).isSome) :
    ∃ t, exec (System.step step) s as = some t := by
  induction as generalizing s with
  | nil => exact ⟨s, rfl⟩
  | cons a as ih =>
    obtain ⟨j, c⟩ := a
    have hj := h j
    rw [own_cons_self, exec_cons] at hj
    obtain ⟨v, hv, -⟩ := Option.bind_eq_some_iff.mp (Option.eq_some_of_isSome hj)
    obtain ⟨r, hr, -⟩ := Option.map_eq_some_iff.mp hv
    obtain ⟨s', hs'⟩ : ∃ s', s.step step (j, c) = some s' :=
      ⟨_, Option.map_eq_some_iff.mpr ⟨r, hr, rfl⟩⟩
    obtain ⟨t, ht⟩ := ih (s := s') fun i => by
      have hi := h i
      by_cases hji : j = i
      · subst hji
        rw [own_cons_self, exec_cons, view_step_self hs'] at hi
        exact hi
      · rw [own_cons_of_ne hji, ← view_step_of_ne hs' hji] at hi
        exact hi
    exact ⟨t, exec_cons_eq_some.mpr ⟨s', hs', ht⟩⟩

end Interleave
