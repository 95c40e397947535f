import Mathlib.Data.List.Infix
import Mathlib.Data.List.Basic

/-!
# Words that end in a delimiter

A list of words is written down by putting a delimiter behind each of them. Where no word contains
the delimiter, what can be recognised in the result without splitting it is limited: a word with its
delimiter is found exactly where a word of the list ends in it, and stands at the beginning exactly
if it is the first word.

## Main results

* `isInfix_joined_iff` — searching for a word and its delimiter finds the ends of words
* `isPrefix_joined_iff` — at the beginning stands the first word
-/

namespace Delimited

variable {α : Type*} {d : α} {a x : List α} {word : List α} {words : List (List α)}

/-- The words, each with a delimiter behind it. -/
def joined (d : α) (words : List (List α)) : List α := words.flatMap (· ++ [d])

@[simp] theorem joined_nil : joined d [] = [] := rfl

@[simp] theorem joined_cons : joined d (word :: words) = word ++ d :: joined d words := by
  simp [joined]

@[simp] theorem joined_concat : joined d (words ++ [word]) = joined d words ++ (word ++ [d]) := by
  simp [joined]

theorem mem_joined (h : words ≠ []) : d ∈ joined d words := by
  rcases words with - | ⟨word, words⟩
  · exact absurd rfl h
  · simp

/-- Two readings of a list at a delimiter: they agree, or the one that began with `x` comes to its
delimiter first. -/
theorem append_cons_eq_append_cons (hx : d ∉ x) {s t rest : List α}
    (h : s ++ d :: t = x ++ d :: rest) :
    (s = x ∧ t = rest) ∨ ∃ u, s = x ++ d :: u ∧ rest = u ++ d :: t := by
  rcases List.append_eq_append_iff.mp h with ⟨u, hxs, hdt⟩ | ⟨u, hsx, hdr⟩
  · rcases u with - | ⟨e, u⟩
    · simp only [List.append_nil, List.nil_append, List.cons.injEq, true_and] at hxs hdt
      exact .inl ⟨hxs.symm, hdt⟩
    · simp only [List.cons_append, List.cons.injEq] at hdt
      exact absurd (by simp [hxs, ← hdt.1]) hx
  · rcases u with - | ⟨e, u⟩
    · simp only [List.append_nil, List.nil_append, List.cons.injEq, true_and] at hsx hdr
      exact .inl ⟨hsx, hdr.symm⟩
    · simp only [List.cons_append, List.cons.injEq] at hdr
      exact .inr ⟨u, by rw [hsx, ← hdr.1], hdr.2⟩

/-- A word is found with its delimiter at the end of the first word, or behind it. -/
theorem isInfix_append_cons_iff (ha : d ∉ a) (hx : d ∉ x) {rest : List α} :
    a ++ [d] <:+: x ++ d :: rest ↔ a <:+ x ∨ a ++ [d] <:+: rest := by
  constructor
  · rintro ⟨s, t, hst⟩
    have hsplit : (s ++ a) ++ d :: t = x ++ d :: rest := by simpa using hst
    rcases append_cons_eq_append_cons hx hsplit with ⟨hsa, -⟩ | ⟨u, hsa, rfl⟩
    · exact .inl ⟨s, hsa⟩
    · -- the delimiter of `x` is in `s`, because it is not in `a`
      rcases List.append_eq_append_iff.mp hsa with ⟨v, hv, hav⟩ | ⟨v, hv, hdv⟩
      · exact absurd (by simp [hav]) ha
      · rcases v with - | ⟨e, v⟩
        · simp only [List.nil_append] at hdv
          exact absurd (by simp [← hdv]) ha
        · simp only [List.cons_append, List.cons.injEq] at hdv
          exact .inr ⟨v, t, by simp [hdv.2]⟩
  · rintro (⟨s, rfl⟩ | ⟨s, t, rfl⟩)
    · exact ⟨s, rest, by simp⟩
    · exact ⟨x ++ d :: s, t, by simp⟩

/-- **Searching for a word and its delimiter** finds the words that end in it. -/
theorem isInfix_joined_iff (ha : d ∉ a) (hwords : ∀ word ∈ words, d ∉ word) :
    a ++ [d] <:+: joined d words ↔ ∃ word ∈ words, a <:+ word := by
  induction words with
  | nil => simp
  | cons word words ih =>
    rw [joined_cons, isInfix_append_cons_iff ha (hwords word List.mem_cons_self),
      ih fun w hw => hwords w (List.mem_cons_of_mem _ hw)]
    simp

/-- **At the beginning** stands the first word. -/
theorem isPrefix_joined_iff (ha : d ∉ a) (hwords : ∀ word ∈ words, d ∉ word) :
    a ++ [d] <+: joined d words ↔ words.head? = some a := by
  rcases words with - | ⟨word, words⟩
  · simp
  · rw [joined_cons, List.head?_cons, Option.some.injEq]
    constructor
    · rintro ⟨t, ht⟩
      have hsplit : word ++ d :: joined d words = a ++ d :: t := by simpa using ht.symm
      rcases append_cons_eq_append_cons ha hsplit with ⟨h, -⟩ | ⟨u, h, -⟩
      · exact h
      · exact absurd (by simp [h]) (hwords word List.mem_cons_self)
    · rintro rfl
      exact ⟨joined d words, by simp⟩

end Delimited
