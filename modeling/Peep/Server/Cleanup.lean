import Peep.Server.XmlNotice

/-!
# Cleaning up text

`createXmlNormalizedString` (`xml.c`) copies a text into a buffer with one byte more, without
newlines, tabs, and the blanks that nothing follows. Where a letter or digit follows a blank, both
are copied in one step, and the index then falls through to the default case, which copies the
character behind them whatever it is. It may be a newline, a blank that should go, or lie behind
the text: expat does not terminate its texts, and the buffer has no place for it.

## Choices

The loop is repeated here on the text alone, so that a read behind the text shows
(`normalizeWithin`). What it writes is compared byte for byte, zeros included.

## Main results

* `createXmlNormalizedString_of_within` — the two loops agree as long as nothing behind is read
* `normalizeWithin_eq_iff` — for which texts the loop is the filter
* `filters_iff` — for which texts the function is
-/

namespace Peep

open Bytes

/-! ## The filter -/

/-- A text without newlines and tabs, and of its blanks those with a letter or digit behind them. -/
def filtered : List UInt8 → List UInt8
  | [] => []
  | c :: text =>
    if c = 10 ∨ c = 9 then filtered text
    else if c = 32 then if text.head?.any isalnum then c :: filtered text else filtered text
    else c :: filtered text

/-- What is to be returned: `NULL` if nothing remains. -/
def filteredOrNull (text : List UInt8) : Option (List UInt8) :=
  if filtered text = [] then none else some (filtered text)

/-! ## The loop on the text alone -/

/-- The loop of `createXmlNormalizedString`: what is in `str` after it, or `none` where it reads
behind the text. -/
def normalizeWithin : List UInt8 → Option (List UInt8)
  | [] => some []
  | c :: text =>
    if c = 10 ∨ c = 9 then normalizeWithin text
    else if c = 32 then
      match text with
      -- `s[i + 1]` is behind the text
      | [] => none
      | d :: text =>
        if isalnum d then
          match text with
          -- `i` has been increased by two, and `s[i]` is behind the text
          | [] => none
          | e :: text => (normalizeWithin text).map fun str => c :: d :: e :: str
        else normalizeWithin (d :: text)
    else (normalizeWithin text).map fun str => c :: str

/-- `createXmlNormalizedString` on the text alone: the bytes before the last zero, or `NULL`. -/
def createWithin (text : List UInt8) : Option (Option (List UInt8)) :=
  (normalizeWithin text).map fun str => if (str ++ [0]).head? = some 0 then none else some str

/-- The function is the filter, reads nothing behind the text, and writes into its buffer only. -/
def Filters (text : List UInt8) : Prop :=
  createWithin text = some (filteredOrNull text) ∧
    ∀ str, normalizeWithin text = some str → (str ++ [0]).length ≤ text.length + 1

/-- Each blank that the loop comes to is not the last character; and if a letter or digit follows,
there is a character behind that, no newline or tab, and if it is a blank, then a letter or digit
follows it too. The loop does not come to the three characters that it copies in one step again. -/
def BlanksFollowed : List UInt8 → Prop
  | [] => True
  | c :: text =>
    if c = 32 then
      match text with
      | [] => False
      | d :: text =>
        if isalnum d then
          match text with
          | [] => False
          | e :: text =>
            (e ≠ 10 ∧ e ≠ 9 ∧ (e = 32 → text.head?.any isalnum = true)) ∧ BlanksFollowed text
        else BlanksFollowed (d :: text)
    else BlanksFollowed text

variable {text str : List UInt8}

/-! ## The two loops -/

/-- What the loop copies of a text, if it reads nothing behind it. -/
inductive Copies : List UInt8 → List UInt8 → Prop
  /-- The end of the text. -/
  | nil : Copies [] []
  /-- A newline or tab. -/
  | newline {c : UInt8} {text str : List UInt8} (hc : c = 10 ∨ c = 9) (h : Copies text str) :
      Copies (c :: text) str
  /-- A blank with a letter or digit behind it, and the character behind that. -/
  | word {d e : UInt8} {text str : List UInt8} (hd : isalnum d = true) (h : Copies text str) :
      Copies (32 :: d :: e :: text) (32 :: d :: e :: str)
  /-- Another blank. -/
  | blank {d : UInt8} {text str : List UInt8} (hd : isalnum d ≠ true) (h : Copies (d :: text) str) :
      Copies (32 :: d :: text) str
  /-- Another character. -/
  | other {c : UInt8} {text str : List UInt8} (hc : ¬ (c = 10 ∨ c = 9)) (hsp : c ≠ 32)
      (h : Copies text str) : Copies (c :: text) (c :: str)

theorem copies_of_normalizeWithin (h : normalizeWithin text = some str) : Copies text str := by
  fun_induction normalizeWithin text generalizing str with
  | case1 =>
    obtain rfl := Option.some.inj h
    exact .nil
  | case2 c text hc ih => exact .newline hc (ih h)
  | case3 => cases h
  | case4 => cases h
  | case5 d hd e text hc ih =>
    obtain ⟨str, hstr, rfl⟩ := Option.map_eq_some_iff.mp h
    exact .word hd (ih hstr)
  | case6 d text hd hc ih => exact .blank hd (ih h)
  | case7 c text hc hsp ih =>
    obtain ⟨str, hstr, rfl⟩ := Option.map_eq_some_iff.mp h
    exact .other hc hsp (ih hstr)

/-- **The loops agree** as long as nothing behind the text is read. -/
theorem Copies.normalizeLoop_eq (h : Copies text str) (behind : List UInt8) :
    normalizeLoop (text ++ behind) text.length 0 = str := by
  induction h with
  | nil => cases behind <;> rfl
  | newline hc _ ih => rw [List.cons_append, List.length_cons, normalizeLoop, if_pos hc, ih]
  | word hd _ ih => simp [normalizeLoop, hd, ih]
  | blank hd _ ih =>
    rw [List.cons_append, List.length_cons, normalizeLoop, if_neg (by decide), if_pos rfl]
    simpa [hd] using ih
  | other hc hsp _ ih =>
    rw [List.cons_append, List.length_cons, normalizeLoop, if_neg hc, if_neg hsp, ih]

/-- **So do the functions**; the string ends at the first zero. -/
theorem createXmlNormalizedString_of_within {r : Option (List UInt8)}
    (h : createWithin text = some r) (behind : List UInt8) :
    createXmlNormalizedString (text ++ behind) text.length = r.map untilZero := by
  obtain ⟨str, hstr, rfl⟩ := Option.map_eq_some_iff.mp h
  rw [createXmlNormalizedString, (copies_of_normalizeWithin hstr).normalizeLoop_eq]
  rcases str with - | ⟨c, str⟩
  · rfl
  · by_cases hc : c = 0
    · subst hc
      rfl
    · simp [untilZero, hc]

/-! ## Blanks -/

theorem blanksFollowed_cons_of_ne {c : UInt8} (h : c ≠ 32) :
    BlanksFollowed (c :: text) ↔ BlanksFollowed text := by
  rw [BlanksFollowed.eq_def]
  exact iff_of_eq (if_neg h)

theorem blanksFollowed_step {d e : UInt8} (h : isalnum d = true) :
    BlanksFollowed (32 :: d :: e :: text) ↔
      (e ≠ 10 ∧ e ≠ 9 ∧ (e = 32 → text.head?.any isalnum = true)) ∧ BlanksFollowed text := by
  rw [BlanksFollowed.eq_def]
  exact iff_of_eq ((if_pos rfl).trans (if_pos h))

theorem blanksFollowed_skip {d : UInt8} (h : isalnum d ≠ true) :
    BlanksFollowed (32 :: d :: text) ↔ BlanksFollowed (d :: text) := by
  rw [BlanksFollowed.eq_def]
  exact iff_of_eq ((if_pos rfl).trans (if_neg h))

/-! ## The loop and the filter -/

theorem length_filtered_cons_le (c : UInt8) (text : List UInt8) :
    (filtered (c :: text)).length ≤ (filtered text).length + 1 := by
  rw [filtered]
  split_ifs <;> simp

/-- The loop keeps what the filter keeps, and more. -/
theorem Copies.length_filtered_le (h : Copies text str) : (filtered text).length ≤ str.length := by
  induction h with
  | nil => exact Nat.zero_le _
  | newline hc _ ih =>
    rw [filtered, if_pos hc]
    exact ih
  | @word d e text str hd _ ih =>
    have h₁ := length_filtered_cons_le e text
    have h₂ := length_filtered_cons_le d (e :: text)
    have h₃ := length_filtered_cons_le 32 (d :: e :: text)
    simp only [List.length_cons]
    omega
  | blank hd _ ih =>
    rw [filtered, if_neg (by decide), if_pos rfl, if_neg (by simpa using hd)]
    exact ih
  | other hc hsp _ ih =>
    rw [filtered, if_neg hc, if_neg hsp]
    exact Nat.succ_le_succ ih

/-- It writes no more bytes than there are. -/
theorem Copies.length_le (h : Copies text str) : str.length ≤ text.length := by
  induction h with
  | nil => exact Nat.le_refl _
  | newline _ _ ih => exact ih.trans (Nat.le_succ _)
  | word _ _ ih => simpa using ih
  | blank _ _ ih => exact ih.trans (Nat.le_succ _)
  | other _ _ _ ih => exact Nat.succ_le_succ ih

/-- It begins with what the filter begins with. -/
theorem Copies.head?_eq (h : Copies text str) : str.head? = (filtered text).head? := by
  induction h with
  | nil => rfl
  | newline hc _ ih =>
    rw [filtered, if_pos hc]
    exact ih
  | word hd _ _ =>
    rw [filtered, if_neg (by decide), if_pos rfl, if_pos (by simpa using hd)]
    rfl
  | blank hd _ ih =>
    rw [filtered, if_neg (by decide), if_pos rfl, if_neg (by simpa using hd)]
    exact ih
  | other hc hsp _ _ =>
    rw [filtered, if_neg hc, if_neg hsp]
    rfl

/-- What the filter begins with, if that is a zero. -/
theorem head?_filtered_eq_zero_iff (text : List UInt8) :
    (filtered text).head? = some 0 ↔ (text.dropWhile isBlank).head? = some 0 := by
  induction text with
  | nil => rfl
  | cons c text ih =>
    rw [filtered]
    split_ifs with hc hsp hnext
    · rw [List.dropWhile_cons_of_pos (isBlank_iff.mpr (.inl hc)), ih]
    · -- the letter or digit is no zero
      rcases text with - | ⟨d, text⟩
      · cases hnext
      · have hd : isalnum d = true := by simpa using hnext
        have hblank : isBlank d ≠ true := by
          intro hblank
          rcases isBlank_iff.mp hblank with (rfl | rfl) | rfl <;> cases hd
        have hzero : d ≠ 0 := by
          rintro rfl
          cases hd
        rw [List.dropWhile_cons_of_pos (isBlank_iff.mpr (.inr hsp)),
          List.dropWhile_cons_of_neg hblank]
        simp [hsp, hzero]
    · rw [List.dropWhile_cons_of_pos (isBlank_iff.mpr (.inr hsp)), ih]
    · rw [List.dropWhile_cons_of_neg (fun hblank => (isBlank_iff.mp hblank).elim hc hsp)]
      rfl

/-- The characters that are copied in one step. -/
theorem filtered_step {d e : UInt8} (hd : isalnum d = true) :
    filtered (32 :: d :: e :: text) = 32 :: d :: filtered (e :: text) := by
  have hnewline : ¬ (d = 10 ∨ d = 9) := by
    rintro (rfl | rfl)
    · cases hd
    · cases hd
  have hspace : d ≠ 32 := by
    rintro rfl
    cases hd
  rw [filtered, if_neg (by decide), if_pos rfl, if_pos (by simpa using hd), filtered,
    if_neg hnewline, if_neg hspace]

/-- The character behind a letter or digit is copied: the filter has to keep it. -/
theorem filtered_cons_eq_iff {e : UInt8} (h : (filtered text).length ≤ str.length) :
    e :: str = filtered (e :: text) ↔
      (e ≠ 10 ∧ e ≠ 9 ∧ (e = 32 → text.head?.any isalnum = true)) ∧ str = filtered text := by
  have hdropped : e :: str ≠ filtered text := by
    intro heq
    have hlength := congrArg List.length heq
    rw [List.length_cons] at hlength
    omega
  rw [filtered]
  split_ifs with hnewline hspace hnext
  · exact iff_of_false hdropped fun hkeep => hnewline.elim hkeep.1.1 hkeep.1.2.1
  · simp [hspace, hnext]
  · exact iff_of_false hdropped fun hkeep => hnext (hkeep.1.2.2 hspace)
  · rw [not_or] at hnewline
    simp [hnewline, hspace]

/-- **For which texts the loop is the filter.** -/
theorem normalizeWithin_eq_iff (text : List UInt8) :
    normalizeWithin text = some (filtered text) ↔ BlanksFollowed text := by
  fun_induction normalizeWithin text with
  | case1 => exact iff_of_true rfl trivial
  | case2 c text hc ih =>
    have hspace : c ≠ 32 := by
      rintro rfl
      exact absurd hc (by decide)
    rw [filtered, if_pos hc, blanksFollowed_cons_of_ne hspace, ih]
  | case3 => simp [BlanksFollowed]
  | case4 d hd => simp [BlanksFollowed, hd]
  | case5 d hd e text hc ih =>
    rw [blanksFollowed_step hd, filtered_step hd, ← ih]
    constructor
    · intro h
      obtain ⟨str, hstr, heq⟩ := Option.map_eq_some_iff.mp h
      rw [List.cons.injEq, List.cons.injEq, filtered_cons_eq_iff (copies_of_normalizeWithin hstr).length_filtered_le] at heq
      exact ⟨heq.2.2.1, heq.2.2.2 ▸ hstr⟩
    · rintro ⟨hkeep, hstr⟩
      have hle := (copies_of_normalizeWithin hstr).length_filtered_le
      rw [hstr, Option.map_some, (filtered_cons_eq_iff hle).mpr ⟨hkeep, rfl⟩]
  | case6 d text hd hc ih =>
    rw [blanksFollowed_skip hd, filtered, if_neg hc, if_pos rfl, if_neg (by simpa using hd), ih]
  | case7 c text hc hsp ih =>
    rw [filtered, if_neg hc, if_neg hsp, blanksFollowed_cons_of_ne hsp, ← ih]
    simp

/-- **For which texts the function is the filter**, reads only the text, and writes only into its
buffer. -/
theorem filters_iff (text : List UInt8) :
    Filters text ↔ BlanksFollowed text ∧ (text.dropWhile isBlank).head? ≠ some 0 := by
  have hwrites : ∀ str, normalizeWithin text = some str →
      (str ++ [0]).length ≤ text.length + 1 := by
    intro str hstr
    simpa using (copies_of_normalizeWithin hstr).length_le
  rw [Filters, and_iff_left hwrites, ← normalizeWithin_eq_iff, ne_eq, ← head?_filtered_eq_zero_iff,
    createWithin]
  rcases hwithin : normalizeWithin text with - | str
  · simp
  have hhead := (copies_of_normalizeWithin hwithin).head?_eq
  rw [Option.map_some, Option.some.injEq, filteredOrNull]
  -- the loop and the filter begin with the same character, if any
  rcases str with - | ⟨c, str⟩
  · have hnil : filtered text = [] := List.head?_eq_none_iff.mp hhead.symm
    simp [hnil]
  · obtain ⟨kept, hkept⟩ := List.head?_eq_some_iff.mp hhead.symm
    rw [hkept]
    by_cases hc : c = 0
    · simp [hc]
    · simp [hc]

/-- **A blank behind the text**: `a b` without a character behind it. -/
theorem not_filters_two_words : ¬ Filters [97, 32, 98] := by
  rintro ⟨h, -⟩
  cases h

end Peep
