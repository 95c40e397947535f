import Mathlib.Algebra.GroupWithZero.Nat
import Mathlib.Data.Nat.Notation
import Mathlib.Logic.Basic

/-!
# Programs that may crash

A program over the states `σ` returns a value, or it crashes. What it has done to the state until
then remains in both cases, so that one can ask what a program has done before it crashed.

`Carries P Q p` says that the program leads from a state with `P` to one with `Q`, whether it
crashes there or not. Invariants are the case `P = Q`. `Yields Q p` is about the value: it has `Q`
if the program returns.

A program can be given a log, to ask what it has done on its way. `Erases q p` says that `q` is `p`
but for the log.

## Main results

* `bind_eq_some_iff` — a sequence of programs returns if both do
* `Carries.bind`, `Yields.bind` — the rules for a sequence
* `Erases.bind` — the rule for a sequence with a log
-/

/-- A program: the value it returns, `none` if it crashes, and the state it leaves. -/
def Program (σ α : Type) : Type := σ → Option α × σ

namespace Program

variable {σ α β : Type}

/-- A program that returns. -/
def ret (a : α) : Program σ α := fun s => (some a, s)

/-- A program that crashes. -/
def crash : Program σ α := fun s => (none, s)

/-- One program after the other. -/
def seq (p : Program σ α) (f : α → Program σ β) : Program σ β := fun s =>
  match p s with
  | (some a, s) => f a s
  | (none, s) => (none, s)

instance : Monad (Program σ) where
  pure := ret
  bind := seq

/-- The state. -/
def get : Program σ σ := fun s => (some s, s)

/-- A change of the state. -/
def change (f : σ → σ) : Program σ Unit := fun s => (some (), f s)

/-- A value that there may not be. -/
def ofOption : Option α → Program σ α
  | some a => ret a
  | none => crash

variable {p : Program σ α} {f : α → Program σ β} {s t u : σ} {a : α} {b : β}

/-! ## What a program returns -/

@[simp] theorem pure_apply (a : α) (s : σ) : (pure a : Program σ α) s = (some a, s) := rfl

@[simp] theorem ofOption_some (a : α) : (ofOption (some a) : Program σ α) = pure a := rfl

/-- **The first of two programs returns.** -/
theorem bind_of_some (h : p s = (some a, t)) : (p >>= f) s = f a t := by
  show seq p f s = f a t
  rw [seq, h]

/-- **The first of two programs crashes.** -/
theorem bind_of_none (h : p s = (none, t)) : (p >>= f) s = (none, t) := by
  show seq p f s = (none, t)
  rw [seq, h]

/-- **The first of two programs leaves the state as it is.** -/
theorem bind_of_stays {o : Option α} (h : p s = (o, s)) :
    (p >>= f) s = o.elim (none, s) fun a => f a s := by
  cases o with
  | none => exact bind_of_none h
  | some a => exact bind_of_some h

@[simp] theorem get_bind (f : σ → Program σ β) (s : σ) : (get >>= f) s = f s s := rfl

@[simp] theorem change_bind (g : σ → σ) (f : Unit → Program σ β) (s : σ) :
    (change g >>= f) s = f () (g s) := rfl

@[simp] theorem pure_bind_apply (a : α) (f : α → Program σ β) : (pure a >>= f) = f a := rfl

instance : LawfulMonad (Program σ) := by
  refine .mk' (Program σ) (fun p => funext fun s => ?_) (fun _ _ => rfl)
    (fun p f g => funext fun s => ?_)
  · show seq p ret s = p s
    rw [seq]
    rcases p s with ⟨_ | a, t⟩ <;> rfl
  · show seq (seq p f) g s = seq p (fun a => seq (f a) g) s
    rw [seq, seq, seq]
    rcases p s with ⟨_ | a, t⟩ <;> rfl

/-- A sequence of programs returns if both do. -/
theorem bind_eq_some_iff :
    (p >>= f) s = (some b, u) ↔ ∃ a t, p s = (some a, t) ∧ f a t = (some b, u) := by
  constructor
  · intro h
    rcases hp : p s with ⟨_ | a, t⟩
    · rw [bind_of_none hp] at h
      cases h
    · rw [bind_of_some hp] at h
      exact ⟨a, t, rfl, h⟩
  · rintro ⟨a, t, hp, hf⟩
    rw [bind_of_some hp, hf]

/-! ## Where a program carries a state -/

/-- The program carries a state with `P` to one with `Q`. -/
def Carries (P Q : σ → Prop) (p : Program σ α) : Prop := ∀ s, P s → Q (p s).2

variable {P Q R : σ → Prop}

theorem Carries.mono (h : Carries P Q p) (hQ : ∀ s, Q s → R s) : Carries P R p :=
  fun s hs => hQ _ (h s hs)

theorem carries_pure (h : ∀ s, P s → Q s) (a : α) : Carries P Q (pure a : Program σ α) := h

theorem carries_crash (h : ∀ s, P s → Q s) : Carries P Q (crash : Program σ α) := h

theorem carries_change {g : σ → σ} (h : ∀ s, P s → Q (g s)) : Carries P Q (change g) := h

theorem carries_ofOption (h : ∀ s, P s → Q s) (a : Option α) :
    Carries P Q (ofOption a : Program σ α) := by
  cases a <;> exact h

/-- **The rule for a sequence.** A crash in between must not matter. -/
theorem Carries.bind (hp : Carries P R p) (hf : ∀ a, Carries R Q (f a)) (hRQ : ∀ s, R s → Q s) :
    Carries P Q (p >>= f) := by
  intro s hs
  have hR := hp s hs
  rcases h : p s with ⟨_ | a, t⟩
  · rw [bind_of_none h]
    rw [h] at hR
    exact hRQ t hR
  · rw [bind_of_some h]
    rw [h] at hR
    exact hf a t hR

/-- The rule for a sequence that keeps a predicate. -/
theorem Carries.next (hp : Carries P P p) (hf : ∀ a, Carries P P (f a)) : Carries P P (p >>= f) :=
  hp.bind hf fun _ h => h

/-- The rule for a program that begins by reading the state. -/
theorem carries_get_bind {f : σ → Program σ β} (h : ∀ s, P s → Q (f s s).2) :
    Carries P Q (get >>= f) := h

theorem carries_ite {c : Prop} [Decidable c] {p q : Program σ α} (hp : c → Carries P Q p)
    (hq : ¬ c → Carries P Q q) : Carries P Q (if c then p else q) := by
  by_cases h : c
  · rw [if_pos h]
    exact hp h
  · rw [if_neg h]
    exact hq h

/-! ## What values have in common -/

/-- The value that the program returns has `Q`. -/
def Yields (Q : α → Prop) (p : Program σ α) : Prop := ∀ s a t, p s = (some a, t) → Q a

section Yields

variable {S : α → Prop} {T : β → Prop}

theorem Yields.mono {S' : α → Prop} (h : Yields S p) (hS : ∀ a, S a → S' a) : Yields S' p :=
  fun s a t hp => hS a (h s a t hp)

theorem yields_pure (h : S a) : Yields S (pure a : Program σ α) := by
  intro s b t hb
  obtain rfl := Option.some.inj (congrArg Prod.fst hb)
  exact h

theorem yields_crash : Yields S (crash : Program σ α) := fun _ _ _ h => nomatch h

theorem yields_ofOption {o : Option α} (h : ∀ a, o = some a → S a) :
    Yields S (ofOption o : Program σ α) := by
  cases o with
  | none => exact yields_crash
  | some a => exact yields_pure (h a rfl)

/-- **The rule for a sequence.** -/
theorem Yields.bind (hp : Yields S p) (hf : ∀ a, S a → Yields T (f a)) : Yields T (p >>= f) := by
  intro s b u h
  obtain ⟨a, t, hpa, hfa⟩ := bind_eq_some_iff.mp h
  exact hf a (hp s a t hpa) t b u hfa

/-- The rule for a sequence whose first value does not matter. -/
theorem yields_bind (p : Program σ α) (hf : ∀ a, Yields T (f a)) : Yields T (p >>= f) := by
  have hp : Yields (fun _ => True) p := fun _ _ _ _ => trivial
  exact hp.bind fun a _ => hf a

theorem yields_ite {c : Prop} [Decidable c] {q : Program σ α} (hp : Yields S p)
    (hq : Yields S q) : Yields S (if c then p else q) := by
  by_cases h : c
  · rw [if_pos h]
    exact hp
  · rw [if_neg h]
    exact hq

/-- **A program that returns nothing crashes.** -/
theorem Yields.crashes {p : Program σ α} (h : Yields (fun _ => False) p) (s : σ) :
    ∃ t, p s = (none, t) := by
  rcases hp : p s with ⟨- | a, t⟩
  · exact ⟨t, rfl⟩
  · exact absurd hp fun hp => h s a t hp

/-- **The rule for a loop over a list**, where a part of the value goes its own way. -/
theorem yields_foldlM {τ γ ν : Type} {step : τ → γ → Program σ τ} {part : τ → ν} {g : ν → γ → ν}
    (cs : List γ) (hstep : ∀ x, ∀ c ∈ cs, Yields (fun y => part y = g (part x) c) (step x c))
    (x : τ) : Yields (fun y => part y = cs.foldl g (part x)) (cs.foldlM step x) := by
  induction cs generalizing x with
  | nil => exact yields_pure rfl
  | cons c cs ih =>
    rw [List.foldlM_cons]
    refine (hstep x c List.mem_cons_self).bind fun y hy => ?_
    rw [List.foldl_cons, ← hy]
    exact ih (fun x d hd => hstep x d (List.mem_cons_of_mem _ hd)) y

/-- The same, where each element adds to a size. -/
theorem yields_foldlM_sum {τ γ : Type} {step : τ → γ → Program σ τ} {size : τ → ℕ} {n : γ → ℕ}
    (cs : List γ) (hstep : ∀ x, ∀ c ∈ cs, Yields (fun y => size y = size x + n c) (step x c))
    (x : τ) : Yields (fun y => size y = size x + (cs.map n).sum) (cs.foldlM step x) := by
  have hsum : ∀ k, cs.foldl (fun k c => k + n c) k = k + (cs.map n).sum := by
    clear hstep
    induction cs with
    | nil => exact fun k => rfl
    | cons c cs ih => exact fun k => by rw [List.foldl_cons, ih, List.map_cons, List.sum_cons,
        Nat.add_assoc]
  rw [← hsum (size x)]
  exact yields_foldlM cs hstep x

end Yields

/-! ## Programs with a log -/

variable {ι : Type} {q : Program (σ × List ι) α}

/-- The program in a state with a log, which it leaves as it is. -/
def quiet (p : Program σ α) : Program (σ × List ι) α := fun s => ((p s.1).1, (p s.1).2, s.2)

/-- An entry in the log. -/
def log (i : ι) : Program (σ × List ι) Unit := change fun s => (s.1, s.2 ++ [i])

/-- Without its log, the program is this one. -/
def Erases (q : Program (σ × List ι) α) (p : Program σ α) : Prop :=
  ∀ s l, (q (s, l)).1 = (p s).1 ∧ (q (s, l)).2.1 = (p s).2

theorem quiet_apply (p : Program σ α) (s : σ) (l : List ι) :
    quiet p (s, l) = ((p s).1, (p s).2, l) := rfl

theorem quiet_of_some {l : List ι} (h : p s = (some a, t)) :
    quiet p (s, l) = (some a, t, l) := by
  rw [quiet_apply, h]

theorem quiet_of_none {l : List ι} (h : p s = (none, t)) :
    quiet p (s, l) = (none, t, l) := by
  rw [quiet_apply, h]

theorem quiet_get_bind (f : σ → Program (σ × List ι) α) (s : σ) (l : List ι) :
    (quiet get >>= f) (s, l) = f s (s, l) := rfl

theorem erases_quiet (p : Program σ α) : Erases (quiet p : Program (σ × List ι) α) p :=
  fun _ _ => ⟨rfl, rfl⟩

theorem erases_pure (a : α) : Erases (pure a : Program (σ × List ι) α) (pure a) :=
  fun _ _ => ⟨rfl, rfl⟩

theorem erases_crash : Erases (crash : Program (σ × List ι) α) crash := fun _ _ => ⟨rfl, rfl⟩

theorem erases_ofOption (o : Option α) :
    Erases (ofOption o : Program (σ × List ι) α) (ofOption o) := by
  cases o with
  | none => exact erases_crash
  | some a => exact erases_pure a

/-- **The rule for a sequence.** -/
theorem Erases.bind {g : α → Program (σ × List ι) β} (h : Erases q p)
    (hg : ∀ a, Erases (g a) (f a)) : Erases (q >>= g) (p >>= f) := by
  intro s l
  obtain ⟨hvalue, hstate⟩ := h s l
  rcases hp : p s with ⟨- | a, t⟩
  · rw [hp] at hvalue hstate
    have hq : q (s, l) = (none, t, (q (s, l)).2.2) := Prod.ext hvalue (Prod.ext hstate rfl)
    rw [bind_of_none hp, bind_of_none hq]
    exact ⟨rfl, rfl⟩
  · rw [hp] at hvalue hstate
    have hq : q (s, l) = (some a, t, (q (s, l)).2.2) := Prod.ext hvalue (Prod.ext hstate rfl)
    rw [bind_of_some hp, bind_of_some hq]
    exact hg a t _

/-- The rule for an entry in the log. -/
theorem Erases.log_bind {g : Unit → Program (σ × List ι) α} (h : Erases (g ()) p) (i : ι) :
    Erases (log i >>= g) p := fun s l => h s (l ++ [i])

theorem erases_ite {c : Prop} [Decidable c] {p' : Program σ α} {q' : Program (σ × List ι) α}
    (h : c → Erases q p) (h' : ¬ c → Erases q' p') :
    Erases (if c then q else q') (if c then p else p') := by
  by_cases hc : c
  · rw [if_pos hc, if_pos hc]
    exact h hc
  · rw [if_neg hc, if_neg hc]
    exact h' hc

end Program
