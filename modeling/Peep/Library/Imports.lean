import Mathlib.Data.Fintype.Card
import Mathlib.Logic.Relation

/-!
# Files that import files

The entries of a file are lines, and imports of other files. If no file imports itself, directly or
through others, then there is a text in which each import is replaced by the lines of the file that
it imports (`Expands`).

A program that reads such files goes through lines (`Emits`), and it may stop early. How it comes
back behind an import is its own business: it may put the lines of the file in front of those that
are left, or keep a stack. What is asked of it is one rule for a line and one for an import.

## Main results

* `Acyclic.exists_expands` — a file can be expanded
* `passes_of_expands` — a program with the two rules goes through the expanded file
-/

namespace Imports

/-! ## Expanding files -/

/-- What is in a file. -/
inductive Entry (ι α : Type*)
  /-- A line. -/
  | line (a : α)
  /-- An import. -/
  | file (f : ι)

variable {ι α σ κ : Type*} {files : ι → List (Entry ι α)} {entries : List (Entry ι α)}
  {lines xs ys : List α} {f : ι}

/-- The lines that are there when each import is replaced by the lines of the file, which are
expanded in turn. -/
inductive Expands (files : ι → List (Entry ι α)) : List (Entry ι α) → List α → Prop
  | nil : Expands files [] []
  | line {a : α} {entries : List (Entry ι α)} {lines : List α} (h : Expands files entries lines) :
      Expands files (.line a :: entries) (a :: lines)
  | file {f : ι} {entries : List (Entry ι α)} {inner lines : List α}
      (hinner : Expands files (files f) inner) (h : Expands files entries lines) :
      Expands files (.file f :: entries) (inner ++ lines)

/-- No file imports itself, directly or through others. -/
def Acyclic (files : ι → List (Entry ι α)) : Prop :=
  ∀ f, ¬ Relation.TransGen (fun g f => .file g ∈ files f) f f

/-- A relation on finitely many files that never leads back. -/
theorem wellFounded_of_transGen [Finite ι] {r : ι → ι → Prop}
    (h : ∀ f, ¬ Relation.TransGen r f f) : WellFounded r := by
  have hirrefl : Std.Irrefl (Relation.TransGen r) := ⟨h⟩
  have htrans : WellFounded (Relation.TransGen r) := Finite.wellFounded_of_trans_of_irrefl _
  exact Subrelation.wf (fun hfile => Relation.TransGen.single hfile) htrans

/-- **A file can be expanded.** -/
theorem Acyclic.exists_expands [Finite ι] (h : Acyclic files) (f : ι) :
    ∃ lines, Expands files (files f) lines := by
  induction f using (wellFounded_of_transGen h).induction with
  | _ f ih =>
    have hentries : ∀ entries ⊆ files f, ∃ lines, Expands files entries lines := by
      intro entries hsub
      induction entries with
      | nil => exact ⟨[], .nil⟩
      | cons entry entries hind =>
        obtain ⟨hentry, hentries⟩ := List.cons_subset.mp hsub
        obtain ⟨lines, hlines⟩ := hind hentries
        cases entry with
        | line a => exact ⟨a :: lines, .line hlines⟩
        | file g =>
          obtain ⟨inner, hinner⟩ := ih g hentry
          exact ⟨inner ++ lines, .file hinner hlines⟩
    exact hentries (files f) (List.Subset.refl _)

/-! ## Going through lines -/

/-- A run of a program, with the lines that it has gone through: those of the states in which it
makes a step. -/
inductive Emits (step : σ → Option σ) (emit : σ → List α) : σ → List α → σ → Prop
  | refl (s : σ) : Emits step emit s [] s
  | head {s t u : σ} {xs : List α} (hstep : step s = some t) (h : Emits step emit t xs u) :
      Emits step emit s (emit s ++ xs) u

variable {step : σ → Option σ} {emit : σ → List α} {s t u : σ} {stops done : σ → Prop}

theorem Emits.of_step (h : step s = some t) : Emits step emit s (emit s) t := by
  have hhead : Emits step emit s (emit s ++ []) t := .head h (.refl t)
  rwa [List.append_nil] at hhead

theorem Emits.trans (h : Emits step emit s xs t) (h' : Emits step emit t ys u) :
    Emits step emit s (xs ++ ys) u := by
  induction h with
  | refl s => exact h'
  | head hstep _ ih =>
    rw [List.append_assoc]
    exact .head hstep (ih h')

/-- **The invariant rule.** -/
theorem Emits.invariant {I : σ → Prop} (hI : ∀ s t, I s → step s = some t → I t)
    (h : Emits step emit s xs t) (hs : I s) : I t := by
  induction h with
  | refl s => exact hs
  | head hstep _ ih => exact ih (hI _ _ hs hstep)

/-- The program goes through the lines and is done with them then, unless it stops before. -/
def Passes (step : σ → Option σ) (emit : σ → List α) (stops done : σ → Prop) (s : σ)
    (lines : List α) : Prop :=
  ∃ xs t, Emits step emit s xs t ∧ (done t ∧ xs = lines ∨ stops t ∧ xs <+: lines)

theorem Passes.refl (h : done s) : Passes step emit stops done s [] :=
  ⟨[], s, .refl s, .inl ⟨h, rfl⟩⟩

/-- A run in front. -/
theorem Emits.passes (h : Emits step emit s xs t) (h' : Passes step emit stops done t ys) :
    Passes step emit stops done s (xs ++ ys) := by
  obtain ⟨zs, u, hrun, ⟨hu, rfl⟩ | ⟨hu, hprefix⟩⟩ := h'
  · exact ⟨xs ++ zs, u, h.trans hrun, .inl ⟨hu, rfl⟩⟩
  · exact ⟨xs ++ zs, u, h.trans hrun, .inr ⟨hu, (List.prefix_append_right_inj xs).mpr hprefix⟩⟩

/-- **The rule for a sequence.** -/
theorem Passes.trans {next : σ → Prop} (h : Passes step emit stops next s xs)
    (h' : ∀ t, next t → Passes step emit stops done t ys) :
    Passes step emit stops done s (xs ++ ys) := by
  obtain ⟨zs, t, hrun, ⟨ht, rfl⟩ | ⟨ht, hprefix⟩⟩ := h
  · exact hrun.passes (h' t ht)
  · exact ⟨zs, t, hrun, .inr ⟨ht, hprefix.trans (List.prefix_append xs ys)⟩⟩

/-! ## Going through files -/

/-- **A program that reads files** goes through what they expand to, if it goes through a line, and
through an import by reading the file and then coming to what is behind the import. What it has to
remember meanwhile is in the context. -/
theorem passes_of_expands {reads : List (Entry ι α) → κ → σ → Prop}
    (hline : ∀ a entries c s, reads (.line a :: entries) c s →
      Passes step emit stops (reads entries c) s [a])
    (hfile : ∀ f entries c s, reads (.file f :: entries) c s →
      ∃ c', Passes step emit stops (reads (files f) c') s [] ∧
        ∀ t, reads [] c' t → Passes step emit stops (reads entries c) t [])
    (h : Expands files entries lines) (c : κ) (s : σ) (hs : reads entries c s) :
    Passes step emit stops (reads [] c) s lines := by
  induction h generalizing c s with
  | nil => exact .refl hs
  | line _ ih =>
    exact (hline _ _ c s hs).trans fun t ht => ih c t ht
  | file _ _ ihinner ih =>
    obtain ⟨c', hopen, hback⟩ := hfile _ _ c s hs
    have hinner := hopen.trans fun t ht => ihinner c' t ht
    have hthrough := (hinner.trans fun t ht => hback t ht).trans fun t ht => ih c t ht
    rwa [List.nil_append, List.append_nil] at hthrough

end Imports
