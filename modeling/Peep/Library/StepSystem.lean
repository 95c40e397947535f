import Mathlib.Algebra.GroupWithZero.Nat
import Mathlib.Data.List.Basic
import Mathlib.Data.Option.Defs

/-!
# Runs of a partial step function

A system is a state type and a step function `σ → α → Option σ`: `none` means that the label is
not enabled in that state. A run is a list of labels, and everything below is an induction on it.

Two things are said of runs. `exec` is the state a run ends in. `Along` says that a condition on
the state *before* a step and the label taken there holds at every step of the run; it is used
both for what a run is assumed to satisfy and for what is proved of it, so that a conditional
safety theorem reads `Along C → Along P` and an unconditional one is the case of a trivial `C`.

## Main results

* `exec_invariant` — a predicate preserved by the steps that meet `C` holds where a run ends
* `along_of_invariant` — and a consequence of it holds at every step of the run
* `along_iff_of_invariant` — two conditions that agree under the invariant agree along runs
* `exec_potential` — what a run can gain at the expense of a potential
* `exec_rel` — related states run to related states
-/

namespace StepSystem

variable {σ α : Type*} {step : σ → α → Option σ}

/-- The state after the labels of a run, if each is enabled in its turn. -/
def exec (step : σ → α → Option σ) : σ → List α → Option σ
  | s, [] => some s
  | s, a :: as => (step s a).bind fun s' => exec step s' as

/-- `P` holds of the state and the label at every step of the run. A label that is not enabled
is still tested; the run ends there. -/
def Along (step : σ → α → Option σ) (P : σ → α → Prop) : σ → List α → Prop
  | _, [] => True
  | s, a :: as => P s a ∧ ∀ s', step s a = some s' → Along step P s' as

@[simp] theorem exec_nil (s : σ) : exec step s [] = some s := rfl

theorem exec_cons (s : σ) (a : α) (as : List α) :
    exec step s (a :: as) = (step s a).bind fun s' => exec step s' as := rfl

theorem exec_cons_eq_some {s t : σ} {a : α} {as : List α} :
    exec step s (a :: as) = some t ↔ ∃ s', step s a = some s' ∧ exec step s' as = some t := by
  rw [exec_cons, Option.bind_eq_some_iff]

theorem exec_append {s : σ} {as bs : List α} :
    exec step s (as ++ bs) = (exec step s as).bind fun t => exec step t bs := by
  induction as generalizing s with
  | nil => rfl
  | cons a as ih =>
    rw [List.cons_append, exec_cons, exec_cons, Option.bind_assoc]
    exact congrArg _ (funext fun s' => ih)

theorem exec_append_eq_some {s u : σ} {as bs : List α} : exec step s (as ++ bs) = some u ↔
    ∃ t, exec step s as = some t ∧ exec step t bs = some u := by
  rw [exec_append, Option.bind_eq_some_iff]

@[simp] theorem along_nil (P : σ → α → Prop) (s : σ) : Along step P s [] := trivial

theorem along_cons {P : σ → α → Prop} {s : σ} {a : α} {as : List α} :
    Along step P s (a :: as) ↔ P s a ∧ ∀ s', step s a = some s' → Along step P s' as := Iff.rfl

/-- The rest of a run whose first step is known. -/
theorem along_cons_of_eq {P : σ → α → Prop} {s s' : σ} {a : α} {as : List α}
    (h : step s a = some s') : Along step P s (a :: as) ↔ P s a ∧ Along step P s' as := by
  rw [along_cons, h]
  exact and_congr_right fun _ => ⟨fun hP => hP s' rfl, fun hP t ht => Option.some.inj ht ▸ hP⟩

/-- Whether a condition that can be decided at a step holds along a run. -/
instance decidableAlong {P : σ → α → Prop} [∀ s a, Decidable (P s a)] :
    (s : σ) → (as : List α) → Decidable (Along step P s as)
  | _, [] => .isTrue trivial
  | s, a :: as =>
    match h : step s a with
    | none => decidable_of_iff (P s a) ⟨fun hP => ⟨hP, fun s' hs' => by simp [h] at hs'⟩, And.left⟩
    | some s' =>
      haveI := decidableAlong (P := P) s' as
      decidable_of_iff _ (along_cons_of_eq h).symm

/-- A condition that holds along a run holds of the step taken after any prefix of it. -/
theorem Along.of_append {P : σ → α → Prop} {s t : σ} {as bs : List α}
    (h : Along step P s (as ++ bs)) (ht : exec step s as = some t) : Along step P t bs := by
  induction as generalizing s with
  | nil =>
    obtain rfl : s = t := by simpa using ht
    exact h
  | cons a as ih =>
    obtain ⟨s', hs', ht'⟩ := exec_cons_eq_some.mp ht
    exact ih (h.2 s' hs') ht'

/-- It holds along the prefix as well. -/
theorem Along.left {P : σ → α → Prop} {s : σ} {as bs : List α}
    (h : Along step P s (as ++ bs)) : Along step P s as := by
  induction as generalizing s with
  | nil => trivial
  | cons a as ih => exact ⟨h.1, fun s' hs' => ih (h.2 s' hs')⟩

/-- A condition holds along a run if it holds wherever a first part of the run ends. -/
theorem along_of_split {P : σ → α → Prop} {s : σ} {as : List α}
    (h : ∀ before a after t, as = before ++ a :: after → exec step s before = some t → P t a) :
    Along step P s as := by
  induction as generalizing s with
  | nil => trivial
  | cons a as ih =>
    refine ⟨h [] a as s rfl rfl, fun s' hs' => ih ?_⟩
    intro before b after t has ht
    exact h (a :: before) b after t (by rw [has]; rfl) (exec_cons_eq_some.mpr ⟨s', hs', ht⟩)

/-- What holds of every state that a run reaches. -/
theorem forall_prefix_iff {Q : σ → Prop} {s : σ} {as : List α} :
    (∀ before after t, as = before ++ after → exec step s before = some t → Q t) ↔
      Q s ∧ Along step (fun s a => ∀ s', step s a = some s' → Q s') s as := by
  constructor
  · intro h
    refine ⟨h [] as s rfl rfl, along_of_split fun before a after t has ht s' hs' => ?_⟩
    refine h (before ++ [a]) after s' (by rw [has, List.append_assoc]; rfl) ?_
    exact exec_append_eq_some.mpr ⟨t, ht, exec_cons_eq_some.mpr ⟨s', hs', rfl⟩⟩
  · rintro ⟨hs, h⟩ before after t rfl ht
    induction before generalizing s with
    | nil =>
      obtain rfl : s = t := by simpa using ht
      exact hs
    | cons a before ih =>
      obtain ⟨s', hs', ht'⟩ := exec_cons_eq_some.mp ht
      exact ih (h.1 s' hs') (h.2 s' hs') ht'

/-- What holds of every label of a run holds along it. -/
theorem along_of_forall {P : σ → α → Prop} {as : List α} (h : ∀ a ∈ as, ∀ s, P s a) (s : σ) :
    Along step P s as := by
  induction as generalizing s with
  | nil => trivial
  | cons a as ih =>
    refine ⟨h a List.mem_cons_self s, fun s' _ => ih (fun b hb => ?_) s'⟩
    exact h b (List.mem_cons_of_mem _ hb)

theorem along_trivial (s : σ) (as : List α) : Along step (fun _ _ => True) s as :=
  along_of_forall (fun _ _ _ => trivial) s

/-- Two conditions hold along a run together. -/
theorem Along.and {P Q : σ → α → Prop} {s : σ} {as : List α} (hP : Along step P s as)
    (hQ : Along step Q s as) : Along step (fun s a => P s a ∧ Q s a) s as := by
  induction as generalizing s with
  | nil => trivial
  | cons a as ih => exact ⟨⟨hP.1, hQ.1⟩, fun s' hs' => ih (hP.2 s' hs') (hQ.2 s' hs')⟩

/-- A run is put together from a first part and a continuation of it. -/
theorem Along.append {P : σ → α → Prop} {s : σ} {as bs : List α} (h : Along step P s as)
    (hbs : ∀ t, exec step s as = some t → Along step P t bs) : Along step P s (as ++ bs) := by
  induction as generalizing s with
  | nil => exact hbs s rfl
  | cons a as ih =>
    refine ⟨h.1, fun s' hs' => ih (h.2 s' hs') fun t ht => hbs t ?_⟩
    exact exec_cons_eq_some.mpr ⟨s', hs', ht⟩

section Invariant

variable {I : σ → Prop} {C : σ → α → Prop}

/-- **The invariant rule.** What the steps that meet `C` preserve holds wherever a run of such
steps ends. -/
theorem exec_invariant (hstep : ∀ s a s', I s → C s a → step s a = some s' → I s') {s t : σ}
    {as : List α} (hI : I s) (hC : Along step C s as) (ht : exec step s as = some t) : I t := by
  induction as generalizing s with
  | nil =>
    obtain rfl : s = t := by simpa using ht
    exact hI
  | cons a as ih =>
    obtain ⟨s', hs', ht'⟩ := exec_cons_eq_some.mp ht
    exact ih (hstep s a s' hI hC.1 hs') (hC.2 s' hs') ht'

/-- **The safety rule.** What the invariant says of a single step that meets `C` holds of every
step of a run of such steps. -/
theorem along_of_invariant (hstep : ∀ s a s', I s → C s a → step s a = some s' → I s')
    {P : σ → α → Prop} (hP : ∀ s a, I s → C s a → P s a) {s : σ} {as : List α} (hI : I s)
    (hC : Along step C s as) : Along step P s as := by
  induction as generalizing s with
  | nil => trivial
  | cons a as ih =>
    exact ⟨hP s a hI hC.1, fun s' hs' => ih (hstep s a s' hI hC.1 hs') (hC.2 s' hs')⟩

/-- **The exactness rule.** If the invariant makes `P` and `C` the same at a single step, and steps
that meet `C` preserve it, then a run meets the one exactly when it meets the other. -/
theorem along_iff_of_invariant (hstep : ∀ s a s', I s → C s a → step s a = some s' → I s')
    {P : σ → α → Prop} (hPC : ∀ s a, I s → (P s a ↔ C s a)) {s : σ} {as : List α} (hI : I s) :
    Along step P s as ↔ Along step C s as :=
  ⟨along_of_invariant (fun s a s' h hP => hstep s a s' h ((hPC s a h).mp hP))
      (fun s a h => (hPC s a h).mp) hI,
    along_of_invariant hstep (fun s a h => (hPC s a h).mpr) hI⟩

end Invariant

/-- **The potential rule.** If a step gains no more than it costs and takes from a potential, under
an invariant, then a run gains no more than its steps cost and what the potential was. -/
theorem exec_potential {I : σ → Prop} {μ : σ → ℕ} {gain cost : α → ℕ}
    (hstep : ∀ s a s', I s → step s a = some s' → I s' ∧ gain a + μ s' ≤ μ s + cost a) {s t : σ}
    {as : List α} (hI : I s) (ht : exec step s as = some t) :
    (as.map gain).sum + μ t ≤ μ s + (as.map cost).sum := by
  induction as generalizing s with
  | nil =>
    obtain rfl : s = t := by simpa using ht
    simp
  | cons a as ih =>
    obtain ⟨s', hs', ht'⟩ := exec_cons_eq_some.mp ht
    obtain ⟨hI', hle⟩ := hstep s a s' hI hs'
    have hrest := ih hI' ht'
    simp only [List.map_cons, List.sum_cons]
    omega

/-- **The refinement rule.** Two systems whose related states step to related states, or both have
no step, run to related states, or both have no run. The relation may depend on how many steps are
still to come. -/
theorem exec_rel {τ : Type*} {step' : τ → α → Option τ} {R : ℕ → σ → τ → Prop}
    (hstep : ∀ n s t a, R (n + 1) s t → Option.Rel (R n) (step s a) (step' t a)) {s : σ} {t : τ}
    (as : List α) (h : R as.length s t) : Option.Rel (R 0) (exec step s as) (exec step' t as) := by
  induction as generalizing s t with
  | nil => exact .some h
  | cons a as ih =>
    rw [exec_cons, exec_cons]
    have hnext := hstep _ s t a h
    revert hnext
    generalize step s a = s', step' t a = t'
    intro hnext
    cases hnext with
    | some hrel => exact ih hrel
    | none => exact .none

end StepSystem
