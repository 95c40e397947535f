import Peep.Library.Text
import Peep.Server.Loading

/-!
# The tokens of a line

`parserTokenize` (`parser.c`) takes the next word of a line from `remainder`, which begins with the
whole line. The blanks behind a word are skipped with it. If the text ends behind the word, and not
with a blank, then `remainder` becomes `NULL`, which the next call must not be given; if there is no
word, then the token is the empty string and `remainder` becomes `NULL` as well.

A line is read by `fgets` into a buffer of 1024 bytes, so that a longer line is read in pieces. Only
what stands in front of the first zero in the buffer is seen.

## Main results

* `parserTokenize_of_cons` — a call returns the first word, and leaves the others
* `Holds.cons`, `Holds.nil` — the calls on a line that ends in a blank
* `Ragged.cons` — the calls on a line that ends in a word
* `Ragged.map_token`, `Holds.map_token` — the tokens of a line
-/

namespace Peep

open Bytes Decimal Text

/-! ## Lines -/

/-- The strings that `fgets` puts in a buffer of `PARSER_BUFFER_LEN` bytes, until the end. -/
def fgetsAll (contents : List UInt8) : List CString := (readLines 10 1023 contents).map untilZero

/-- Lines without zeros are seen as a whole. -/
theorem map_untilZero {lines : List CString} (h : ∀ line ∈ lines, 0 ∉ line) :
    (lines.map (· ++ [10])).map untilZero = lines.map (· ++ [10]) := by
  refine (List.map_congr_left fun raw hraw => untilZero_eq_self ?_).trans (List.map_id _)
  obtain ⟨line, hline, rfl⟩ := List.mem_map.mp hraw
  exact fun h0 => (List.mem_append.mp h0).elim (h line hline) (by simp)

/-! ## Tokens -/

/-- `struct tok`. -/
structure Tok where
  /-- `token`. -/
  token : CString
  /-- `remainder`; `none` is `NULL`. -/
  remainder : Option CString
  deriving DecidableEq

/-- The token is this keyword. -/
def Tok.is (tok : Tok) (keyword : String) : Bool := strcaseeq tok.token (ascii keyword)

/-- The token begins with `PARSER_COMMENT`. -/
def Tok.isComment (tok : Tok) : Bool := tok.token.head? = some 35

/-- `parserTokenize`, which reads through `remainder`. -/
def parserTokenize (remainder : Option CString) : Option Tok :=
  remainder.map fun line =>
    let p := line.dropWhile isspace
    let token := p.takeWhile fun c => !isspace c
    match p.dropWhile fun c => !isspace c with
    | [] => ⟨token, none⟩
    | _ :: q => ⟨token, some (q.dropWhile isspace)⟩

/-- The room that calls need. -/
def roomOf (remainder : Option CString) : ℕ := remainder.elim 0 fun line => line.length + 1

/-- At most so many calls. -/
def tokensLoop : ℕ → Option CString → List Tok
  | 0, _ => []
  | calls + 1, remainder =>
    match parserTokenize remainder with
    | none => []
    | some tok => tok :: tokensLoop calls tok.remainder

/-- What one call of `parserTokenize` after the other makes of a remainder, as long as it is not
`NULL`. -/
def tokens (remainder : Option CString) : List Tok := tokensLoop (roomOf remainder) remainder

variable {s line : CString} {r : Option CString} {tok : Tok} {w : CString} {ws : List CString}

/-- A call leaves less than it was given. -/
theorem roomOf_remainder_lt (h : parserTokenize r = some tok) :
    roomOf tok.remainder < roomOf r := by
  rcases r with - | line
  · cases h
  · have htok := Option.some.inj h
    have hlength : ((line.dropWhile isspace).dropWhile fun c => !isspace c).length ≤ line.length :=
      (List.dropWhile_suffix _).length_le.trans (List.dropWhile_suffix _).length_le
    cases hrest : (line.dropWhile isspace).dropWhile fun c => !isspace c with
    | nil =>
      simp only [hrest] at htok
      rw [← htok]
      exact Nat.succ_pos _
    | cons c q =>
      simp only [hrest] at htok
      rw [hrest, List.length_cons] at hlength
      have hq : (q.dropWhile isspace).length ≤ q.length := (List.dropWhile_suffix _).length_le
      rw [← htok]
      show (q.dropWhile isspace).length + 1 < line.length + 1
      omega

theorem tokensLoop_congr {a b : ℕ} (ha : roomOf r ≤ a) (hb : roomOf r ≤ b) :
    tokensLoop a r = tokensLoop b r := by
  induction a generalizing b r with
  | zero =>
    rcases r with - | line
    · cases b <;> rfl
    · exact absurd ha (Nat.not_succ_le_zero _)
  | succ a ih =>
    rcases b with - | b
    · rcases r with - | line
      · rfl
      · exact absurd hb (Nat.not_succ_le_zero _)
    · rw [tokensLoop, tokensLoop]
      cases htok : parserTokenize r with
      | none => rfl
      | some tok =>
        have hlt := roomOf_remainder_lt htok
        exact congrArg (tok :: ·) (ih (by omega) (by omega))

/-- **One call after the other.** -/
theorem tokens_of_some (h : parserTokenize r = some tok) :
    tokens r = tok :: tokens tok.remainder := by
  have hlt := roomOf_remainder_lt h
  obtain ⟨calls, hcalls⟩ := Nat.exists_eq_add_one_of_ne_zero (Nat.ne_zero_of_lt hlt)
  rw [tokens, hcalls, tokensLoop, h]
  exact congrArg (tok :: ·) (tokensLoop_congr (by omega) le_rfl)

/-! ## Words -/

/-- A line without words has one token. -/
theorem parserTokenize_of_nil (h : words isspace line = []) :
    parserTokenize (some line) = some ⟨[], none⟩ := by
  rw [parserTokenize, Option.map_some, words_eq_nil_iff.mp h]
  rfl

/-- What a call makes of a line whose first character behind the blanks is `c`. -/
theorem parserTokenize_of_dropWhile {c : UInt8} (hline : line.dropWhile isspace = c :: s)
    (hc : isspace c = false) :
    parserTokenize (some line) = some ⟨c :: s.takeWhile fun d => !isspace d,
      match s.dropWhile fun d => !isspace d with
      | [] => none
      | _ :: q => some (q.dropWhile isspace)⟩ := by
  have hnot : (!isspace c) = true := by rw [hc]; rfl
  have htoken : (c :: s).takeWhile (fun d => !isspace d) = c :: s.takeWhile fun d => !isspace d :=
    List.takeWhile_cons_of_pos hnot
  have hrest : (c :: s).dropWhile (fun d => !isspace d) = s.dropWhile fun d => !isspace d :=
    List.dropWhile_cons_of_pos hnot
  simp only [parserTokenize, Option.map_some, hline, htoken, hrest]
  cases s.dropWhile fun d => !isspace d <;> rfl

/-- **The first word of a line.** If it ends the line, then `remainder` is `NULL`. -/
theorem parserTokenize_of_cons (h : words isspace line = w :: ws) :
    ∃ tok, parserTokenize (some line) = some tok ∧ tok.token = w ∧
      ((tok.remainder = none ∧ ws = [] ∧ ∃ c ∈ line.getLast?, isspace c = false) ∨
        ∃ rest, tok.remainder = some rest ∧ rest <:+ line ∧ words isspace rest = ws) := by
  rw [← words_dropWhile] at h
  have hsuffix := List.dropWhile_suffix (l := line) isspace
  rcases hline : line.dropWhile isspace with - | ⟨c, s⟩
  · rw [hline] at h
    cases h
  · rw [hline] at h hsuffix
    have hc : isspace c = false := eq_false_of_dropWhile_eq_cons hline
    rw [words_cons_of_not_blank hc] at h
    obtain ⟨rfl, rfl⟩ := List.cons.inj h
    refine ⟨_, parserTokenize_of_dropWhile hline hc, rfl, ?_⟩
    cases hrest : s.dropWhile fun d => !isspace d with
    | nil =>
      refine .inl ⟨rfl, rfl, ?_⟩
      obtain ⟨before, rfl⟩ := hsuffix
      refine ⟨_, by rw [List.getLast?_append_of_ne_nil _ (List.cons_ne_nil c s)]; exact
        List.getLast?_eq_getLast_of_ne_nil (List.cons_ne_nil c s), ?_⟩
      rcases List.mem_cons.mp (List.getLast_mem (List.cons_ne_nil c s)) with hlast | hlast
      · rw [hlast, hc]
      · simpa using List.dropWhile_eq_nil_iff.mp hrest _ hlast
    | cons d q =>
      have hd : isspace d = true := by simpa using eq_false_of_dropWhile_eq_cons hrest
      have htail : d :: q <:+ s := hrest ▸ List.dropWhile_suffix _
      refine .inr ⟨_, rfl, ?_, by rw [words_dropWhile, words_cons_of_blank hd]⟩
      exact (List.dropWhile_suffix _).trans ((List.suffix_cons d q).trans
        (htail.trans ((List.suffix_cons c s).trans hsuffix)))

/-- What is left of a line that ends in a blank, and the words in it. -/
def Holds (r : Option CString) (ws : List CString) : Prop :=
  ∃ line, r = some line ∧ (∀ c ∈ line.getLast?, isspace c = true) ∧ words isspace line = ws

/-- **The next word.** -/
theorem Holds.cons (h : Holds r (w :: ws)) :
    ∃ tok, parserTokenize r = some tok ∧ tok.token = w ∧ Holds tok.remainder ws := by
  obtain ⟨line, rfl, hlast, hwords⟩ := h
  obtain ⟨tok, htok, hw, ⟨-, -, c, hc, hblank⟩ | ⟨rest, hrest, hsuffix, hws⟩⟩ :=
    parserTokenize_of_cons hwords
  · rw [hlast c hc] at hblank
    cases hblank
  · refine ⟨tok, htok, hw, rest, hrest, fun c hc => hlast c ?_, hws⟩
    obtain ⟨before, rfl⟩ := hsuffix
    have hne : rest ≠ [] := by
      rintro rfl
      cases hc
    rw [List.getLast?_append_of_ne_nil _ hne]
    exact hc

/-- No word is left. -/
theorem Holds.nil (h : Holds r []) : parserTokenize r = some ⟨[], none⟩ := by
  obtain ⟨line, rfl, -, hwords⟩ := h
  exact parserTokenize_of_nil hwords

/-- What is left of a line that does not end in a blank does not either. -/
theorem getLast?_remainder (htok : parserTokenize (some line) = some tok)
    (hrest : tok.remainder = some s) {c : UInt8} (hlast : c ∈ line.getLast?)
    (hc : isspace c = false) : c ∈ s.getLast? := by
  have hbehind := getLast?_dropWhile hlast hc
  simp only [parserTokenize, Option.map_some, Option.some.injEq] at htok
  rcases hword : (line.dropWhile isspace).dropWhile (fun c => !isspace c) with - | ⟨d, q⟩
  · simp only [hword] at htok
    rw [← htok] at hrest
    cases hrest
  · simp only [hword] at htok
    rw [← htok] at hrest
    obtain rfl := Option.some.inj hrest
    have hd : isspace d = true := by simpa using eq_false_of_dropWhile_eq_cons hword
    -- the last character is behind the blank that ends the word
    obtain ⟨word, hsuffix⟩ := List.dropWhile_suffix (l := line.dropWhile isspace)
      fun c => !isspace c
    rw [← hsuffix, hword, List.getLast?_append_of_ne_nil _ (List.cons_ne_nil d q)] at hbehind
    refine getLast?_dropWhile ?_ hc
    rcases q with - | ⟨e, q⟩
    · have heq : d = c := Option.some.inj hbehind
      rw [← heq, hd] at hc
      cases hc
    · rwa [List.getLast?_cons_cons] at hbehind

/-- What is left of a line that ends in a word, and the words in it. -/
def Ragged (r : Option CString) (ws : List CString) : Prop :=
  ∃ line, r = some line ∧ (∃ c ∈ line.getLast?, isspace c = false) ∧ words isspace line = ws

theorem Ragged.ne_nil (h : Ragged r ws) : ws ≠ [] := by
  obtain ⟨line, -, ⟨c, hc, hblank⟩, rfl⟩ := h
  rw [ne_eq, words_eq_nil_iff, List.dropWhile_eq_nil_iff]
  intro hall
  rw [hall c (List.mem_of_mem_getLast? hc)] at hblank
  cases hblank

/-- **The next word.** The last one leaves nothing. -/
theorem Ragged.cons (h : Ragged r (w :: ws)) :
    ∃ tok, parserTokenize r = some tok ∧ tok.token = w ∧
      (ws = [] ∧ tok.remainder = none ∨ Ragged tok.remainder ws) := by
  obtain ⟨line, rfl, ⟨c, hc, hblank⟩, hwords⟩ := h
  obtain ⟨tok, htok, hw, ⟨hnone, hnil, -⟩ | ⟨rest, hrest, -, hws⟩⟩ := parserTokenize_of_cons hwords
  · exact ⟨tok, htok, hw, .inl ⟨hnil, hnone⟩⟩
  · have hlast := getLast?_remainder htok hrest hc hblank
    exact ⟨tok, htok, hw, .inr ⟨rest, hrest, ⟨c, hlast, hblank⟩, hws⟩⟩

/-- **All tokens** are the words, if the line ends in one. -/
theorem Ragged.map_token (h : Ragged r ws) : (tokens r).map Tok.token = ws := by
  induction ws generalizing r with
  | nil => exact absurd rfl h.ne_nil
  | cons w ws ih =>
    obtain ⟨tok, htok, rfl, ⟨rfl, hnone⟩ | hmore⟩ := h.cons
    · rw [tokens_of_some htok, hnone]
      rfl
    · rw [tokens_of_some htok, List.map_cons, ih hmore]

/-- There is one more, the empty string, if the line ends in a blank. -/
theorem Holds.map_token (h : Holds r ws) : (tokens r).map Tok.token = ws ++ [[]] := by
  induction ws generalizing r with
  | nil =>
    rw [tokens_of_some h.nil]
    rfl
  | cons w ws ih =>
    obtain ⟨tok, htok, rfl, hmore⟩ := h.cons
    rw [tokens_of_some htok, List.map_cons, ih hmore, List.cons_append]

end Peep
