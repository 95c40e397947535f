import Mathlib.Data.List.Chain
import Mathlib.Data.List.Infix
import Peep.Library.Decimal

/-!
# Documents of elements and text

The part of XML that has neither declarations nor attributes, references or comments: elements, the
text in them, and sections of character data. A document is the list of its tokens, and its text is
what the tokens are written as.

A parser reads a text and calls a handler for the beginning and the end of each element and for
the text in between. It may cut the text of a token into as many pieces as it likes, and it calls
nothing for the blanks behind the document.

## Main results

* `scan_render` — the tokens of a text are found again
* `parses_read` — there is a parser
-/

namespace Xml

open Decimal

/-! ## Documents -/

/-- What a document is made of. -/
inductive Token
  /-- The beginning of an element. -/
  | start (name : List UInt8)
  /-- Text. -/
  | text (s : List UInt8)
  /-- A section of character data. -/
  | cdata (s : List UInt8)
  /-- The end of an element. -/
  | stop (name : List UInt8)
  deriving DecidableEq

/-- What a section of character data begins with. -/
def cdataStart : List UInt8 := ascii "<![CDATA["

/-- What it ends with. -/
def cdataStop : List UInt8 := ascii "]]>"

/-- What a token is written as. -/
def Token.render : Token → List UInt8
  | .start name => 60 :: (name ++ [62])
  | .text s => s
  | .cdata s => cdataStart ++ s ++ cdataStop
  | .stop name => 60 :: 47 :: (name ++ [62])

/-- What a document is written as. -/
def render (ts : List Token) : List UInt8 := ts.flatMap Token.render

/-- The characters that are passed on as they are: a parser turns a carriage return into a
newline. -/
def IsLegal (c : UInt8) : Prop := c = 9 ∨ c = 10 ∨ 32 ≤ c ∧ c ≤ 126

/-- The characters of a name. -/
def IsNameChar (c : UInt8) : Prop := 65 ≤ c ∧ c ≤ 90 ∨ 97 ≤ c ∧ c ≤ 122 ∨ c = 95

/-- The blanks. -/
def IsBlank (c : UInt8) : Prop := c = 9 ∨ c = 10 ∨ c = 32

instance (c : UInt8) : Decidable (IsLegal c) := inferInstanceAs (Decidable (_ ∨ _))

instance (c : UInt8) : Decidable (IsNameChar c) := inferInstanceAs (Decidable (_ ∨ _))

instance (c : UInt8) : Decidable (IsBlank c) := inferInstanceAs (Decidable (_ ∨ _))

/-- A name. -/
def IsName (name : List UInt8) : Prop := name ≠ [] ∧ ∀ c ∈ name, IsNameChar c

instance (name : List UInt8) : Decidable (IsName name) := inferInstanceAs (Decidable (_ ∧ _))

/-- What may stand in a section of character data. -/
def IsCData (s : List UInt8) : Prop := (∀ c ∈ s, IsLegal c) ∧ ¬ cdataStop <:+: s

/-- What may stand as text. -/
def IsText (s : List UInt8) : Prop := s ≠ [] ∧ IsCData s ∧ 60 ∉ s ∧ 38 ∉ s

instance (s : List UInt8) : Decidable (IsCData s) := inferInstanceAs (Decidable (_ ∧ _))

instance (s : List UInt8) : Decidable (IsText s) := inferInstanceAs (Decidable (_ ∧ _))

/-- The token may be written as it is. -/
def Token.Legal : Token → Prop
  | .start name => IsName name
  | .text s => IsText s
  | .cdata s => IsCData s
  | .stop name => IsName name

/-- The token is text. -/
def Token.isText : Token → Bool
  | .text _ => true
  | _ => false

/-- The tokens end the open elements, innermost first, and with the last of them they are over. -/
inductive Closes : List (List UInt8) → List Token → Prop
  | nil : Closes [] []
  | start {name : List UInt8} {names : List (List UInt8)} {ts : List Token} (hne : names ≠ []) :
      Closes (name :: names) ts → Closes names (.start name :: ts)
  | text {s : List UInt8} {names : List (List UInt8)} {ts : List Token} (hne : names ≠ []) :
      Closes names ts → Closes names (.text s :: ts)
  | cdata {s : List UInt8} {names : List (List UInt8)} {ts : List Token} (hne : names ≠ []) :
      Closes names ts → Closes names (.cdata s :: ts)
  | stop {name : List UInt8} {names : List (List UInt8)} {ts : List Token} :
      Closes names ts → Closes (name :: names) (.stop name :: ts)

/-- The tokens are a document. -/
structure WellFormed (ts : List Token) : Prop where
  /-- Each of them may be written as it is. -/
  legal : ∀ t ∈ ts, t.Legal
  /-- No two texts stand side by side. -/
  separate : ts.IsChain fun a b => ¬ (a.isText = true ∧ b.isText = true)
  /-- They are one element. -/
  closes : ∃ name rest, ts = .start name :: rest ∧ Closes [name] rest

/-! ## Building documents -/

section Building

variable {ts us : List Token} {t : Token} {names : List (List UInt8)} {β : Type*} {l : List β}
  {f : β → List Token}

/-- No two texts stand side by side, and none is the last token. -/
structure Separated (ts : List Token) : Prop where
  /-- No two texts stand side by side. -/
  chain : ts.IsChain fun a b => ¬ (a.isText = true ∧ b.isText = true)
  /-- The last token is not text. -/
  last : ∀ t ∈ ts.getLast?, t.isText ≠ true

theorem separated_nil : Separated [] := ⟨.nil, by simp⟩

theorem separated_singleton (h : t.isText ≠ true) : Separated [t] :=
  ⟨.singleton t, by simpa using h⟩

theorem Separated.append (hts : Separated ts) (hus : Separated us) : Separated (ts ++ us) where
  chain := List.isChain_append.mpr
    ⟨hts.chain, hus.chain, fun t ht _ _ htext => hts.last t ht htext.1⟩
  last := by
    intro t ht
    rw [List.getLast?_append] at ht
    rcases hlast : us.getLast? with - | u
    · rw [hlast, Option.none_or] at ht
      exact hts.last t ht
    · rw [hlast, Option.some_or] at ht
      exact hus.last t (hlast ▸ ht)

/-- A token that is not text in front. -/
theorem Separated.cons (hts : Separated ts) (h : t.isText ≠ true) : Separated (t :: ts) :=
  (separated_singleton h).append hts

/-- Text in front of a token that is not text. -/
theorem Separated.text (hts : Separated ts) (hne : ts ≠ []) (h : ∀ t ∈ ts.head?, t.isText ≠ true)
    (s : List UInt8) : Separated (.text s :: ts) := by
  obtain ⟨t, ts, rfl⟩ := List.exists_cons_of_ne_nil hne
  exact ⟨List.isChain_cons_cons.mpr ⟨fun htext => h t rfl htext.2, hts.chain⟩,
    by simpa using hts.last⟩

theorem separated_flatMap (h : ∀ b ∈ l, Separated (f b)) : Separated (l.flatMap f) := by
  induction l with
  | nil => exact separated_nil
  | cons b l ih =>
    exact (h b List.mem_cons_self).append (ih fun b hb => h b (List.mem_cons_of_mem _ hb))

theorem closes_flatMap (h : ∀ b ∈ l, ∀ ts, Closes names ts → Closes names (f b ++ ts))
    (hts : Closes names ts) : Closes names (l.flatMap f ++ ts) := by
  induction l with
  | nil => exact hts
  | cons b l ih =>
    rw [List.flatMap_cons, List.append_assoc]
    exact h b List.mem_cons_self _ (ih fun b hb => h b (List.mem_cons_of_mem _ hb))

/-- Blanks may stand as text. -/
theorem isText_of_isBlank {s : List UInt8} (hne : s ≠ []) (h : ∀ c ∈ s, IsBlank c) : IsText s := by
  refine ⟨hne, ⟨fun c hc => ?_, fun hstop => ?_⟩, fun h60 => ?_, fun h38 => ?_⟩
  · rcases h c hc with rfl | rfl | rfl <;> decide
  · exact absurd (h 93 (hstop.subset (by decide))) (by decide)
  · exact absurd (h 60 h60) (by decide)
  · exact absurd (h 38 h38) (by decide)

end Building

/-! ## Parsers -/

/-- What a parser calls. -/
inductive Call
  /-- The handler for the beginning of an element, with its attributes. -/
  | start (name : List UInt8) (attributes : List (List UInt8 × List UInt8))
  /-- The handler for text. -/
  | char (s : List UInt8)
  /-- The handler for the end of an element. -/
  | stop (name : List UInt8)
  deriving DecidableEq

/-- The calls report the tokens. -/
inductive Reports : List Token → List Call → Prop
  | nil : Reports [] []
  | start {name : List UInt8} {ts : List Token} {calls : List Call} :
      Reports ts calls → Reports (.start name :: ts) (.start name [] :: calls)
  | text {pieces : List (List UInt8)} {ts : List Token} {calls : List Call}
      (hne : ∀ piece ∈ pieces, piece ≠ []) :
      Reports ts calls → Reports (.text pieces.flatten :: ts) (pieces.map .char ++ calls)
  | cdata {pieces : List (List UInt8)} {ts : List Token} {calls : List Call}
      (hne : ∀ piece ∈ pieces, piece ≠ []) :
      Reports ts calls → Reports (.cdata pieces.flatten :: ts) (pieces.map .char ++ calls)
  | stop {name : List UInt8} {ts : List Token} {calls : List Call} :
      Reports ts calls → Reports (.stop name :: ts) (.stop name :: calls)

/-- The calls for some tokens and those for the tokens behind them. -/
theorem Reports.of_append {ts us : List Token} {calls : List Call} (h : Reports (ts ++ us) calls) :
    ∃ before behind, calls = before ++ behind ∧ Reports ts before ∧ Reports us behind := by
  induction ts generalizing calls with
  | nil => exact ⟨[], calls, rfl, .nil, h⟩
  | cons t ts ih =>
    cases h with
    | start h =>
      obtain ⟨before, behind, rfl, hts, hus⟩ := ih h
      exact ⟨_, behind, rfl, hts.start, hus⟩
    | text hne h =>
      obtain ⟨before, behind, rfl, hts, hus⟩ := ih h
      exact ⟨_, behind, (List.append_assoc _ _ _).symm, hts.text hne, hus⟩
    | cdata hne h =>
      obtain ⟨before, behind, rfl, hts, hus⟩ := ih h
      exact ⟨_, behind, (List.append_assoc _ _ _).symm, hts.cdata hne, hus⟩
    | stop h =>
      obtain ⟨before, behind, rfl, hts, hus⟩ := ih h
      exact ⟨_, behind, rfl, hts.stop, hus⟩

/-- **The parser reads documents.** -/
def Parses (parse : List UInt8 → Option (List Call)) : Prop :=
  ∀ ts blanks, WellFormed ts → (∀ c ∈ blanks, IsBlank c) →
    ∃ calls, parse (render ts ++ blanks) = some calls ∧ Reports ts calls

/-! ## Finding the tokens of a text -/

/-- A section of character data up to the first `]]>`, and what comes behind it. -/
def sectionOf : List UInt8 → Option (List UInt8 × List UInt8)
  | [] => none
  | c :: s =>
    if cdataStop.isPrefixOf (c :: s) then some ([], s.drop 2)
    else (sectionOf s).map fun found => (c :: found.1, found.2)

/-- What a tag holds, and what comes behind it. -/
def tagOf (s : List UInt8) : List UInt8 × List UInt8 :=
  (s.takeWhile (· ≠ 62), (s.dropWhile (· ≠ 62)).tail)

/-- The first token of a text, and what comes behind it. -/
def token (s : List UInt8) : Option (Token × List UInt8) :=
  if cdataStart.isPrefixOf s then
    (sectionOf (s.drop cdataStart.length)).map fun found => (.cdata found.1, found.2)
  else if s.head? ≠ some 60 then some (.text (s.takeWhile (· ≠ 60)), s.dropWhile (· ≠ 60))
  else if s.tail.head? = some 47 then some (.stop (tagOf (s.drop 2)).1, (tagOf (s.drop 2)).2)
  else some (.start (tagOf s.tail).1, (tagOf s.tail).2)

/-- The tokens of a text, at most so many. -/
def scan : ℕ → List UInt8 → Option (List Token)
  | _, [] => some []
  | 0, _ :: _ => none
  | n + 1, c :: s => (token (c :: s)).bind fun found => (scan n found.2).map (found.1 :: ·)

/-- The calls for the tokens behind `n` open tags. -/
def callsOf : ℕ → List Token → List Call
  | _, [] => []
  | n, .start name :: ts => .start name [] :: callsOf (n + 1) ts
  | n, .stop name :: ts => .stop name :: callsOf (n - 1) ts
  | n, .text s :: ts => if n = 0 then callsOf n ts else .char s :: callsOf n ts
  | n, .cdata s :: ts => if s = [] then callsOf n ts else .char s :: callsOf n ts

/-- A parser of documents. -/
def read (s : List UInt8) : Option (List Call) := (scan s.length s).map (callsOf 0)

variable {s rest name blanks : List UInt8} {t : Token} {ts : List Token}
  {names : List (List UInt8)} {n : ℕ}

theorem sectionOf_append (h : ¬ cdataStop <:+: s) :
    sectionOf (s ++ (cdataStop ++ rest)) = some (s, rest) := by
  induction s with
  | nil => rfl
  | cons c s ih =>
    have hs : ¬ cdataStop <:+: s := fun hs => h (List.infix_cons hs)
    have hc : cdataStop.isPrefixOf (c :: (s ++ (cdataStop ++ rest))) = false := by
      rw [← Bool.not_eq_true, List.isPrefixOf_iff_prefix]
      intro hprefix
      -- a terminator that begins here ends in the section, or it would overlap the real one
      rcases s with - | ⟨d, - | ⟨e, s⟩⟩
      · exact absurd hprefix (by simp [cdataStop, ascii])
      · exact absurd hprefix (by simp [cdataStop, ascii])
      · refine h (List.IsPrefix.isInfix ⟨s, ?_⟩)
        simpa [cdataStop, ascii, eq_comm] using hprefix
    rw [List.cons_append, sectionOf, hc, ih hs]
    rfl

theorem tagOf_append (h : IsName name) : tagOf (name ++ 62 :: rest) = (name, rest) := by
  have hname : ∀ c ∈ name, decide (c ≠ 62) = true := by
    intro c hc
    rw [decide_eq_true_iff]
    rintro rfl
    exact absurd (h.2 62 hc) (by decide)
  rw [tagOf, List.takeWhile_append_of_pos hname, List.dropWhile_append_of_pos hname]
  simp

theorem token_start (h : IsName name) :
    token ((Token.start name).render ++ rest) = some (.start name, rest) := by
  obtain ⟨c, name, rfl⟩ := List.exists_cons_of_ne_nil h.1
  have hc : IsNameChar c := h.2 c List.mem_cons_self
  have h33 : c ≠ 33 := by rintro rfl; exact absurd hc (by decide)
  have h47 : c ≠ 47 := by rintro rfl; exact absurd hc (by decide)
  have hcdata : cdataStart.isPrefixOf (60 :: c :: (name ++ 62 :: rest)) = false := by
    simp [cdataStart, ascii, List.isPrefixOf, h33.symm]
  have htag : tagOf (c :: name ++ 62 :: rest) = (c :: name, rest) := tagOf_append h
  have hrender : (Token.start (c :: name)).render ++ rest = 60 :: c :: (name ++ 62 :: rest) := by
    simp [Token.render]
  rw [List.cons_append] at htag
  rw [hrender, token, hcdata]
  simp [h47, htag]

theorem token_stop (h : IsName name) :
    token ((Token.stop name).render ++ rest) = some (.stop name, rest) := by
  have hcdata : cdataStart.isPrefixOf (60 :: 47 :: (name ++ 62 :: rest)) = false := by
    simp [cdataStart, ascii, List.isPrefixOf]
  have hrender : (Token.stop name).render ++ rest = 60 :: 47 :: (name ++ 62 :: rest) := by
    simp [Token.render]
  rw [hrender, token, hcdata]
  simp [tagOf_append h]

theorem token_cdata (h : IsCData s) :
    token ((Token.cdata s).render ++ rest) = some (.cdata s, rest) := by
  have hrender : (Token.cdata s).render ++ rest = cdataStart ++ (s ++ (cdataStop ++ rest)) := by
    simp [Token.render]
  have hcdata : cdataStart.isPrefixOf (cdataStart ++ (s ++ (cdataStop ++ rest))) = true :=
    List.isPrefixOf_iff_prefix.mpr (List.prefix_append _ _)
  rw [hrender, token, hcdata, if_pos rfl, List.drop_left, sectionOf_append h.2]
  rfl

theorem token_text (h : IsText s) (hrest : ∀ c ∈ rest.head?, c = 60) :
    token ((Token.text s).render ++ rest) = some (.text s, rest) := by
  obtain ⟨hne, -, h60, -⟩ := h
  have hs : ∀ c ∈ s, decide (c ≠ 60) = true := by
    intro c hc
    rw [decide_eq_true_iff]
    rintro rfl
    exact h60 hc
  have htake : (s ++ rest).takeWhile (· ≠ 60) = s := by
    rw [List.takeWhile_append_of_pos hs]
    rcases rest with - | ⟨c, rest⟩
    · simp
    · simp [hrest c rfl]
  have hdrop : (s ++ rest).dropWhile (· ≠ 60) = rest := by
    rw [List.dropWhile_append_of_pos hs]
    rcases rest with - | ⟨c, rest⟩
    · simp
    · simp [hrest c rfl]
  obtain ⟨c, s, rfl⟩ := List.exists_cons_of_ne_nil hne
  have hc : c ≠ 60 := by rintro rfl; exact h60 List.mem_cons_self
  have hcdata : cdataStart.isPrefixOf (c :: s ++ rest) = false := by
    simp [cdataStart, ascii, List.isPrefixOf, hc.symm]
  have hhead : (c :: s ++ rest).head? ≠ some 60 := by simp [hc]
  rw [Token.render, token, hcdata, if_neg (by decide), if_pos hhead, htake, hdrop]

/-- **The first token of a text is found.** -/
theorem token_render (h : t.Legal) (hrest : t.isText = true → ∀ c ∈ rest.head?, c = 60) :
    token (t.render ++ rest) = some (t, rest) := by
  cases t with
  | start name => exact token_start h
  | text s => exact token_text h (hrest rfl)
  | cdata s => exact token_cdata h
  | stop name => exact token_stop h

theorem render_cons : render (t :: ts) = t.render ++ render ts := rfl

theorem render_ne_nil (h : t.Legal) : t.render ≠ [] := by
  cases t with
  | start name => exact List.cons_ne_nil _ _
  | text s => exact h.1
  | cdata s => simp [Token.render, cdataStart, ascii]
  | stop name => exact List.cons_ne_nil _ _

/-- What is not text begins with `<`. -/
theorem head?_render (h : t.isText ≠ true) : t.render.head? = some 60 := by
  cases t with
  | start name => rfl
  | text s => exact absurd rfl h
  | cdata s => rfl
  | stop name => rfl

/-- Blanks are a text of their own. -/
def blankTokens (blanks : List UInt8) : List Token := if blanks = [] then [] else [.text blanks]

theorem scan_blanks (hblanks : ∀ c ∈ blanks, IsBlank c) (hn : blanks.length ≤ n) :
    scan n blanks = some (blankTokens blanks) := by
  rcases blanks with - | ⟨c, blanks⟩
  · cases n <;> rfl
  rcases n with - | n
  · exact absurd hn (Nat.not_succ_le_zero _)
  have h60 : ∀ d ∈ c :: blanks, d ≠ 60 := by
    rintro d hd rfl
    exact absurd (hblanks 60 hd) (by decide)
  have hcdata : cdataStart.isPrefixOf (c :: blanks) = false := by
    simp [cdataStart, ascii, List.isPrefixOf, (h60 c List.mem_cons_self).symm]
  have hhead : (c :: blanks).head? ≠ some 60 := by simp [h60 c List.mem_cons_self]
  have htake : (c :: blanks).takeWhile (· ≠ 60) = c :: blanks :=
    List.takeWhile_eq_self_iff.mpr fun d hd => decide_eq_true (h60 d hd)
  have hdrop : (c :: blanks).dropWhile (· ≠ 60) = [] :=
    List.dropWhile_eq_nil_iff.mpr fun d hd => decide_eq_true (h60 d hd)
  rw [scan, token, hcdata, if_neg (by decide), if_pos hhead, htake, hdrop]
  cases n <;> rfl

/-- **The tokens of a text are found again**, with the blanks behind them, unless the last token is
text. -/
theorem scan_render (hlegal : ∀ t ∈ ts, t.Legal)
    (hseparate : (ts ++ blankTokens blanks).IsChain
      fun a b => ¬ (a.isText = true ∧ b.isText = true))
    (hblanks : ∀ c ∈ blanks, IsBlank c) (hn : (render ts ++ blanks).length ≤ n) :
    scan n (render ts ++ blanks) = some (ts ++ blankTokens blanks) := by
  induction ts generalizing n with
  | nil => exact scan_blanks hblanks hn
  | cons t ts ih =>
    have ht := hlegal t List.mem_cons_self
    have hne := render_ne_nil ht
    have hlength : 0 < t.render.length := List.length_pos_iff.mpr hne
    rw [render_cons, List.append_assoc] at hn ⊢
    rw [List.length_append] at hn
    have hnext : t.isText = true → ∀ c ∈ (render ts ++ blanks).head?, c = 60 := by
      intro htext c hc
      rcases ts with - | ⟨u, ts⟩
      · rcases blanks with - | ⟨d, blanks⟩
        · cases hc
        · exact absurd ⟨htext, rfl⟩ (List.isChain_cons_cons.mp hseparate).1
      · have hu : u.isText ≠ true := fun hu =>
          (List.isChain_cons_cons.mp hseparate).1 ⟨htext, hu⟩
        rw [render_cons, List.append_assoc, List.head?_append, head?_render hu] at hc
        exact (Option.some.inj hc).symm
    have htoken := token_render ht hnext
    obtain ⟨c, s, hs⟩ := List.exists_cons_of_ne_nil
      (List.append_ne_nil_of_left_ne_nil hne (render ts ++ blanks))
    rcases n with - | n
    · omega
    · rw [hs] at htoken ⊢
      rw [scan, htoken, Option.bind_some,
        ih (fun t ht => hlegal t (List.mem_cons_of_mem _ ht)) hseparate.tail
          (by omega)]
      rfl

/-- **The calls for the tokens report them**, and the blanks behind the document are not among
them. -/
theorem reports_callsOf (h : Closes names ts) (hlegal : ∀ t ∈ ts, t.Legal) :
    Reports ts (callsOf names.length (ts ++ blankTokens blanks)) := by
  induction h with
  | nil =>
    rw [blankTokens]
    split_ifs
    · exact .nil
    · exact .nil
  | start hne _ ih => exact .start (ih fun t ht => hlegal t (List.mem_cons_of_mem _ ht))
  | @text s names ts hne _ ih =>
    have hs : s ≠ [] := (hlegal _ List.mem_cons_self).1
    have hpieces : ∀ piece ∈ [s], piece ≠ [] := by simpa using hs
    have htext := Reports.text hpieces (ih fun t ht => hlegal t (List.mem_cons_of_mem _ ht))
    rw [List.cons_append, callsOf, if_neg (by simpa using hne)]
    simpa using htext
  | @cdata s names ts hne _ ih =>
    have hts := ih fun t ht => hlegal t (List.mem_cons_of_mem _ ht)
    rw [List.cons_append, callsOf]
    split_ifs with hs
    · subst hs
      have hpieces : ∀ piece ∈ ([] : List (List UInt8)), piece ≠ [] := by simp
      exact Reports.cdata hpieces hts
    · have hpieces : ∀ piece ∈ [s], piece ≠ [] := by simpa using hs
      have hcdata := Reports.cdata hpieces hts
      simpa using hcdata
  | stop _ ih => exact .stop (ih fun t ht => hlegal t (List.mem_cons_of_mem _ ht))

theorem Closes.isText_getLast? (h : Closes names ts) :
    ∀ t ∈ ts.getLast?, t.isText ≠ true := by
  induction h with
  | nil => simp
  | @start name names ts hne hcloses ih =>
    rcases ts with - | ⟨u, ts⟩
    · cases hcloses
    · simpa using ih
  | @text s names ts hne hcloses ih =>
    rcases ts with - | ⟨u, ts⟩
    · cases hcloses
      exact absurd rfl hne
    · simpa using ih
  | @cdata s names ts hne hcloses ih =>
    rcases ts with - | ⟨u, ts⟩
    · cases hcloses
      exact absurd rfl hne
    · simpa using ih
  | @stop name names ts hcloses ih =>
    rcases ts with - | ⟨u, ts⟩
    · simp [Token.isText]
    · simpa using ih

/-- **There is a parser.** -/
theorem parses_read : Parses read := by
  intro ts blanks hts hblanks
  have hlegal := hts.legal
  have hseparate := hts.separate
  obtain ⟨name, rest, rfl, hcloses⟩ := hts.closes
  have hlast : ∀ t ∈ (Token.start name :: rest).getLast?, t.isText ≠ true := by
    rcases rest with - | ⟨u, rest⟩
    · cases hcloses
    · simpa using hcloses.isText_getLast?
  have hall := List.isChain_append.mpr ⟨hseparate, (by rw [blankTokens]; split_ifs <;> simp :
    (blankTokens blanks).IsChain fun a b => ¬ (a.isText = true ∧ b.isText = true)),
    fun t ht _ _ h => hlast t ht h.1⟩
  have hreports : Reports rest (callsOf [name].length (rest ++ blankTokens blanks)) :=
    reports_callsOf hcloses fun t ht => hlegal t (List.mem_cons_of_mem _ ht)
  refine ⟨_, ?_, .start hreports⟩
  rw [read, scan_render hlegal hall hblanks (Nat.le_refl _)]
  rfl

end Xml
