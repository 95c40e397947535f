import Peep.Server.NoticeRuns

/-!
# Texts in pieces

expat may deliver the text of an element in several calls: it does so at the end of its buffer, at
newlines and at references. `xmlParseClientChar` (`xml_notice.c`) cleans each piece up by itself and
overwrites the field of the current tag with what is left, so the last piece that is not blank
counts. A field with more than one character is thus lost as soon as its text is split.

## Choices

Behind a piece that is not the last one lies the rest of the text, if it was cut off in a buffer, or
whatever is not a letter or digit, such as the markup of a reference. Behind a whole text lies
markup. The date of a notice is carried along here: `strptime` is a parameter, from cleared memory
to a `struct tm`.

## Main results

* `fields_parseNotice` — what is in the fields after the calls for a document
* `Splits.rel_lastText`, `exists_splits_of_isEnd` — what the last text of a field may become
* `unchunked_iff` — for which documents splitting changes nothing
-/

namespace Peep

open Bytes Decimal

/-! ## The date -/

section Date

variable {δ : Type*}

/-- `xmlParseClientChar`: the date. -/
def xmlParseClientDate (strptime : CString → δ) (info : ParseInfo) (date : δ) (c : XmlCall) : δ :=
  match c.token, info.currentTag with
  | .text text, some tag =>
    match createXmlNormalizedString (text ++ c.behind) text.length with
    | none => date
    | some string => if strcaseeq tag (ascii "date") then strptime string else date
  | _, _ => date

/-- The handler is called, and writes the date too. -/
def callDated (strptime : CString → δ) (i : ParseInfo × δ) (c : XmlCall) : Option (ParseInfo × δ) :=
  (i.1.call c).map fun info => (info, xmlParseClientDate strptime i.1 i.2 c)

/-- The notice for some calls of the handlers, with its date. -/
def parseNotice (strptime : CString → δ) (date : δ) (calls : List XmlCall) : Option (NOTICE × δ) :=
  (calls.foldlM (callDated strptime) (⟨noticeCreateNotice, none⟩, date)).map fun i =>
    (i.1.notice, i.2)

/-- What is in the field of an attribute, the date included. -/
def fieldOf (n : NOTICE) (date : δ) : Attribute → (Option CString ⊕ Int32) ⊕ δ
  | .date => .inr date
  | a => .inl (n.slot a)

/-- What a text becomes in the field of an attribute, the date included. -/
def readAs (strptime : CString → δ) (s : CString) : Attribute → (Option CString ⊕ Int32) ⊕ δ
  | .date => .inr (strptime s)
  | a => .inl (slotOf s a)

end Date

/-! ## Splitting -/

/-- The calls for a text in nonempty pieces. -/
inductive Pieces (behind : List UInt8) : List UInt8 → List XmlCall → Prop
  | nil : Pieces behind [] []
  | cons {piece text mem : List UInt8} {calls : List XmlCall} (hne : piece ≠ [])
      (hmem : mem = text ++ behind ∨ isalnum (mem.headD 0) = false)
      (hcalls : Pieces behind text calls) :
      Pieces behind (piece ++ text) (⟨.text piece, mem⟩ :: calls)

/-- The calls for a document, with its texts in pieces. -/
inductive Splits : List XmlCall → List XmlCall → Prop
  | nil : Splits [] []
  | start {tag behind} {calls split : List XmlCall} (h : Splits calls split) :
      Splits (⟨.start tag, behind⟩ :: calls) (⟨.start tag, behind⟩ :: split)
  | stop {tag behind} {calls split : List XmlCall} (h : Splits calls split) :
      Splits (⟨.stop tag, behind⟩ :: calls) (⟨.stop tag, behind⟩ :: split)
  | text {text behind} {calls pieces split : List XmlCall} (hpieces : Pieces behind text pieces)
      (h : Splits calls split) : Splits (⟨.text text, behind⟩ :: calls) (pieces ++ split)

/-- The texts of a document have no zeros, and behind each is markup. -/
def MarkupBehind (calls : List XmlCall) : Prop :=
  ∀ text behind, ⟨.text text, behind⟩ ∈ calls →
    (0 : UInt8) ∉ text ∧ isalnum (behind.headD 0) = false

/-- The calls for a document, each text in one call. -/
structure IsDocument (calls : List XmlCall) : Prop where
  /-- The first call opens a tag. -/
  begins : BeginsWithTag calls
  /-- Markup is behind each text. -/
  markup : MarkupBehind calls

/-- The notice is the same however the texts are split, and without those between elements. -/
def Unchunked {δ : Type*} (strptime : CString → δ) (date : δ) (calls : List XmlCall) : Prop :=
  (∀ split, Splits calls split →
    parseNotice strptime date split = parseNotice strptime date calls) ∧
  parseNotice strptime date (calls.filter fun c => c.token.isKept) = parseNotice strptime date calls

/-- A piece near the end of a text: blanks at most come behind it. -/
def IsEnd (p q : List UInt8 × List UInt8) : Prop :=
  ∃ before blanks, p.1 = before ++ q.1 ++ blanks ∧ blanks.all isBlank = true ∧
    isalnum (q.2.headD 0) = false

/-- One character and blanks; a letter or digit has no space in front of it. -/
def IsSingle (text : List UInt8) : Prop :=
  ∃ before c after, text = before ++ c :: after ∧ before.all isBlank = true ∧
    after.all isBlank = true ∧ isBlank c = false ∧ (isalnum c = true → before.getLast? ≠ some 32)

/-- The ends of a text are read as what the text is read as. -/
def EndsAgree {δ : Type*} (strptime : CString → δ) (a : Attribute)
    (p : List UInt8 × List UInt8) : Prop :=
  ∀ q s s', IsEnd p q → cleaned p = some s → cleaned q = some s' →
    readAs strptime s' a = readAs strptime s a

/-- The text of a string is a single character, and that of a number or a date ends in texts for
the same number or date only. -/
def Settled {δ : Type*} (strptime : CString → δ) (p : List UInt8 × List UInt8) : Attribute → Prop
  | .client | .data | .host | .sound => IsSingle p.1
  | a => EndsAgree strptime a p

variable {a : Attribute} {text behind mem : List UInt8} {c : UInt8}
  {calls pieces split rest : List XmlCall} {tag : CString} {isTag : CString → Bool}
  {p q : List UInt8 × List UInt8} {n : NOTICE}

/-! ## What cleaning up leaves -/

/-- All characters but blanks are left. -/
theorem countP_le_length_normalizeLoop (hzero : (0 : UInt8) ∉ text) (mem : List UInt8)
    (copy : ℕ) : text.countP (fun c => !isBlank c)
      ≤ (untilZero (normalizeLoop (text ++ mem) text.length copy)).length := by
  induction text generalizing copy with
  | nil => exact Nat.zero_le _
  | cons c text ih =>
    obtain ⟨hc, htext⟩ := List.ne_and_not_mem_of_not_mem_cons hzero
    have hkept (str : List UInt8) : untilZero (c :: str) = c :: untilZero str :=
      List.takeWhile_cons_of_pos (decide_eq_true hc.symm)
    have hcount : (c :: text).countP (fun c => !isBlank c)
        ≤ text.countP (fun c => !isBlank c) + 1 := by
      rw [List.countP_cons]
      split_ifs <;> omega
    have hdropped (hblank : isBlank c = true) : (c :: text).countP (fun c => !isBlank c)
        = text.countP (fun c => !isBlank c) := by
      rw [List.countP_cons, hblank]
      rfl
    rw [List.cons_append, List.length_cons]
    rcases copy with - | copy
    · rw [normalizeLoop]
      split_ifs with hnl hsp halnum
      · rw [hdropped (isBlank_iff.mpr (.inl hnl))]
        exact ih htext 0
      · rw [hkept]
        exact hcount.trans (Nat.succ_le_succ (ih htext 2))
      · rw [hdropped (isBlank_iff.mpr (.inr hsp))]
        exact ih htext 0
      · rw [hkept]
        exact hcount.trans (Nat.succ_le_succ (ih htext 0))
    · rw [normalizeLoop, hkept]
      exact hcount.trans (Nat.succ_le_succ (ih htext copy))

/-- What is left is no shorter than what is not blank. -/
theorem countP_le_length_of_cleaned {s : CString} (hzero : (0 : UInt8) ∉ text)
    (h : cleaned (text, mem) = some s) : text.countP (fun c => !isBlank c) ≤ s.length := by
  have hle := countP_le_length_normalizeLoop hzero mem 0
  rw [cleaned, createXmlNormalizedString] at h
  split_ifs at h with hnil
  obtain rfl := Option.some.inj h
  exact hle

/-- **When nothing is left**: the text is blank. -/
theorem cleaned_eq_none_iff (hzero : (0 : UInt8) ∉ text) (hmem : isalnum (mem.headD 0) = false) :
    cleaned (text, mem) = none ↔ text.all isBlank = true := by
  constructor
  · intro h
    have hle := countP_le_length_normalizeLoop hzero mem 0
    rw [cleaned, createXmlNormalizedString] at h
    split_ifs at h with hnil
    rw [hnil, List.length_nil, Nat.le_zero, List.countP_eq_zero] at hle
    exact List.all_eq_true.mpr fun c hc => by simpa using hle c hc
  · exact fun hblank => createXmlNormalizedString_of_isBlank hblank fun _ => hmem

theorem not_isalnum_of_isBlank (h : isBlank c = true) : isalnum c = false := by
  rcases isBlank_iff.mp h with (rfl | rfl) | rfl <;> rfl

/-! ## Single characters -/

section Single

variable {before after : List UInt8}

/-- A single character is left. -/
theorem normalizeLoop_single (hbefore : before.all isBlank = true)
    (hafter : after.all isBlank = true) (hc : isBlank c = false)
    (hlast : isalnum c = true → before.getLast? ≠ some 32)
    (hmem : isalnum (mem.headD 0) = false) :
    normalizeLoop (before ++ c :: after ++ mem) (before ++ c :: after).length 0 = [c] := by
  induction before with
  | nil =>
    have hnone : ¬ ((c = 10 ∨ c = 9) ∨ c = 32) := fun h =>
      Bool.false_ne_true (hc.symm.trans (isBlank_iff.mpr h))
    rw [not_or] at hnone
    rw [List.nil_append, List.cons_append, List.length_cons, normalizeLoop, if_neg hnone.1,
      if_neg hnone.2, normalizeLoop_of_isBlank hafter fun _ => hmem]
  | cons b before ih =>
    rw [List.all_cons, Bool.and_eq_true] at hbefore
    have hrest := ih hbefore.2 fun halnum hspace =>
      hlast halnum (by rw [List.getLast?_cons, hspace]; rfl)
    -- what comes behind a space is a blank, or the character itself
    have hnext : b = 32 → isalnum ((before ++ c :: after ++ mem).headD 0) = false := by
      rintro rfl
      rcases before with - | ⟨d, before⟩
      · exact Bool.eq_false_iff.mpr fun halnum => hlast halnum rfl
      · exact not_isalnum_of_isBlank (List.all_eq_true.mp hbefore.2 d List.mem_cons_self)
    rw [List.cons_append, List.cons_append, List.length_cons, normalizeLoop]
    split_ifs with hnl hsp halnum
    · exact hrest
    · rw [hnext hsp] at halnum
      cases halnum
    · exact hrest
    · exact absurd ((isBlank_iff.mp hbefore.1).resolve_right hsp) hnl

theorem cleaned_single (hbefore : before.all isBlank = true)
    (hafter : after.all isBlank = true) (hc : isBlank c = false) (hzero : c ≠ 0)
    (hlast : isalnum c = true → before.getLast? ≠ some 32)
    (hmem : isalnum (mem.headD 0) = false) :
    cleaned (before ++ c :: after, mem) = some [c] := by
  have hself : untilZero [c] = [c] :=
    untilZero_eq_self fun h0 => hzero (List.mem_singleton.mp h0).symm
  rw [cleaned, createXmlNormalizedString, normalizeLoop_single hbefore hafter hc hlast hmem, hself]
  rfl

/-- A space in front of a letter or digit is left. -/
theorem head?_normalizeLoop_space (hbefore : before.all isBlank = true) (hc : isalnum c = true)
    (hlast : before.getLast? = some 32) :
    (normalizeLoop (before ++ c :: after ++ mem) (before ++ c :: after).length 0).head?
      = some 32 := by
  induction before with
  | nil => cases hlast
  | cons b before ih =>
    rw [List.all_cons, Bool.and_eq_true] at hbefore
    rw [List.cons_append, List.cons_append, List.length_cons, normalizeLoop]
    rcases before with - | ⟨d, before⟩
    · obtain rfl : b = 32 := Option.some.inj hlast
      have hnext : isalnum (([] ++ c :: after ++ mem).headD 0) = true := hc
      rw [if_neg (by decide), if_pos rfl, if_pos hnext]
      rfl
    · have hrest := ih hbefore.2 (by rwa [List.getLast?_cons_cons] at hlast)
      have hnext : isalnum ((d :: before ++ c :: after ++ mem).headD 0) = false :=
        not_isalnum_of_isBlank (List.all_eq_true.mp hbefore.2 d List.mem_cons_self)
      rw [if_neg (Bool.eq_false_iff.mp hnext)]
      split_ifs with hnl hsp
      · exact hrest
      · exact hrest
      · exact absurd ((isBlank_iff.mp hbefore.1).resolve_right hsp) hnl

/-- **When a single character is left** that blanks come behind. -/
theorem isSingle_of_cleaned (hzero : (0 : UInt8) ∉ before ++ c :: after)
    (hafter : after.all isBlank = true) (hc : isBlank c = false)
    (h : cleaned (before ++ c :: after, mem) = some [c]) : IsSingle (before ++ c :: after) := by
  have hcount := countP_le_length_of_cleaned hzero h
  have hbefore : before.all isBlank = true := by
    rw [List.countP_append, List.countP_cons, hc, List.length_singleton] at hcount
    have hnone : before.countP (fun c => !isBlank c) = 0 := by
      simp only [Bool.not_false, if_true] at hcount
      omega
    rw [List.countP_eq_zero] at hnone
    exact List.all_eq_true.mpr fun b hb => by simpa using hnone b hb
  refine ⟨before, c, after, rfl, hbefore, hafter, hc, fun halnum hspace => ?_⟩
  have hhead : (normalizeLoop (before ++ c :: after ++ mem) (before ++ c :: after).length 0).head?
      = some 32 := head?_normalizeLoop_space hbefore halnum hspace
  obtain ⟨str, hstr⟩ := List.head?_eq_some_iff.mp hhead
  rw [cleaned, createXmlNormalizedString, hstr] at h
  have hspace : c = 32 := by
    have hkept : untilZero (32 :: str) = 32 :: untilZero str := List.takeWhile_cons_of_pos rfl
    rw [hkept, if_neg (List.cons_ne_nil _ _)] at h
    exact (List.cons.inj (Option.some.inj h)).1.symm
  rw [hspace] at hc
  cases hc

/-- The last character that is not blank. -/
theorem exists_last_of_not_isBlank (h : text.all isBlank ≠ true) :
    ∃ before c after, text = before ++ c :: after ∧ after.all isBlank = true ∧
      isBlank c = false := by
  induction text with
  | nil => exact absurd rfl h
  | cons c text ih =>
    by_cases htext : text.all isBlank = true
    · have hc : isBlank c = false := by
        rw [List.all_cons, htext, Bool.and_true] at h
        exact Bool.eq_false_iff.mpr h
      exact ⟨[], c, text, rfl, htext, hc⟩
    · obtain ⟨before, d, after, rfl, hafter, hd⟩ := ih htext
      exact ⟨c :: before, d, after, rfl, hafter, hd⟩

/-- The first character that is not blank is determined. -/
theorem eq_of_isBlank_append {before' after' : List UInt8} {d : UInt8}
    (hbefore : before.all isBlank = true) (hbefore' : before'.all isBlank = true)
    (hc : isBlank c = false) (hd : isBlank d = false)
    (h : before ++ c :: after = before' ++ d :: after') : before = before' ∧ c = d := by
  induction before generalizing before' with
  | nil =>
    rcases before' with - | ⟨b, before'⟩
    · exact ⟨rfl, (List.cons.inj h).1⟩
    · rw [List.all_cons, ← (List.cons.inj h).1, hc] at hbefore'
      cases hbefore'
  | cons b before ih =>
    rcases before' with - | ⟨b', before'⟩
    · rw [List.all_cons, (List.cons.inj h).1, hd] at hbefore
      cases hbefore
    · obtain ⟨rfl, hrest⟩ := List.cons.inj h
      rw [List.all_cons, Bool.and_eq_true] at hbefore hbefore'
      obtain ⟨rfl, hcd⟩ := ih hbefore.2 hbefore'.2 hrest
      exact ⟨rfl, hcd⟩

end Single

/-! ## Ends of a text -/

theorem IsEnd.self (hmem : isalnum (p.2.headD 0) = false) : IsEnd p p :=
  ⟨[], [], by simp, rfl, hmem⟩

theorem IsEnd.notMem_zero (h : IsEnd p q) (hzero : (0 : UInt8) ∉ p.1) : (0 : UInt8) ∉ q.1 := by
  obtain ⟨before, blanks, htext, -, -⟩ := h
  intro h0
  exact hzero (htext ▸ List.mem_append_left _ (List.mem_append_right _ h0))

/-- The ends of a single character are the character. -/
theorem cleaned_of_isSingle {s : CString} (hzero : (0 : UInt8) ∉ p.1) (h : IsSingle p.1)
    (hq : IsEnd p q) (hs : cleaned q = some s) : ∃ before c after,
      p.1 = before ++ c :: after ∧ before.all isBlank = true ∧ isBlank c = false ∧ s = [c] := by
  obtain ⟨before, c, after, htext, hbefore, hafter, hc, hlast⟩ := h
  have hzero' := hq.notMem_zero hzero
  obtain ⟨front, blanks, hend, hblanks, hmem⟩ := hq
  obtain ⟨text, mem⟩ := q
  refine ⟨before, c, after, htext, hbefore, hc, ?_⟩
  have hnot : text.all isBlank ≠ true := by
    rw [ne_eq, ← cleaned_eq_none_iff hzero' hmem, hs]
    exact Option.some_ne_none s
  obtain ⟨x, d, y, rfl, hy, hd⟩ := exists_last_of_not_isBlank hnot
  -- the whole text has one character that is not blank, and `d` is one
  have hcount : p.1.countP (fun c => !isBlank c) = 1 := by
    have hnone {l : List UInt8} (hl : l.all isBlank = true) :
        l.countP (fun c => !isBlank c) = 0 := by
      rw [List.countP_eq_zero]
      intro b hb
      simpa using List.all_eq_true.mp hl b hb
    rw [htext, List.countP_append, List.countP_cons, hnone hbefore, hnone hafter, hc]
    rfl
  have hfront : (front ++ x).all isBlank = true := by
    rw [hend] at hcount
    simp only [List.countP_append, List.countP_cons, hd, Bool.not_false, if_true] at hcount
    have hnone : (front ++ x).countP (fun c => !isBlank c) = 0 := by
      rw [List.countP_append]
      omega
    rw [List.countP_eq_zero] at hnone
    exact List.all_eq_true.mpr fun b hb => by simpa using hnone b hb
  have hsplit : before ++ c :: after = front ++ x ++ d :: (y ++ blanks) := by
    rw [← htext, hend]
    simp
  obtain ⟨rfl, rfl⟩ := eq_of_isBlank_append hbefore hfront hc hd hsplit
  have hx : x.all isBlank = true := by
    rw [List.all_append, Bool.and_eq_true] at hfront
    exact hfront.2
  have hzero'' : c ≠ 0 := by
    rintro rfl
    exact hzero' (List.mem_append_right _ List.mem_cons_self)
  have hsingle : cleaned (x ++ c :: y, mem) = some [c] := by
    refine cleaned_single hx hy hc hzero'' (fun halnum hspace => hlast halnum ?_) hmem
    rw [List.getLast?_append, hspace]
    rfl
  exact Option.some.inj (hs.symm.trans hsingle)

/-- **When the ends of a text for a string agree**: it is a single character. -/
theorem ends_eq_iff_isSingle {s : CString} (hzero : (0 : UInt8) ∉ p.1)
    (hmem : isalnum (p.2.headD 0) = false) (hs : cleaned p = some s) :
    (∀ q s', IsEnd p q → cleaned q = some s' → s' = s) ↔ IsSingle p.1 := by
  obtain ⟨text, mem⟩ := p
  constructor
  · intro hall
    have hnot : text.all isBlank ≠ true := by
      rw [ne_eq, ← cleaned_eq_none_iff hzero hmem, hs]
      exact Option.some_ne_none s
    obtain ⟨before, c, after, rfl, hafter, hc⟩ := exists_last_of_not_isBlank hnot
    have hzero' : c ≠ 0 := by
      rintro rfl
      exact hzero (List.mem_append_right _ List.mem_cons_self)
    have hlast : cleaned ([] ++ c :: after, mem) = some [c] :=
      cleaned_single rfl hafter hc hzero' (fun _ h => by cases h) hmem
    have hend : IsEnd (before ++ c :: after, mem) (c :: after, mem) :=
      ⟨before, [], by simp, rfl, hmem⟩
    have hsingle : [c] = s := hall _ _ hend hlast
    exact isSingle_of_cleaned hzero hafter hc (hs.trans (congrArg some hsingle.symm))
  · intro hsingle q s' hq hs'
    obtain ⟨before, c, after, htext, hbefore, hc, rfl⟩ :=
      cleaned_of_isSingle hzero hsingle (IsEnd.self hmem) hs
    obtain ⟨before', c', after', htext', hbefore', hc', rfl⟩ :=
      cleaned_of_isSingle hzero hsingle hq hs'
    rw [(eq_of_isBlank_append hbefore' hbefore hc' hc (htext'.symm.trans htext)).2]

/-- **When the ends of a text agree** as they are read for an attribute. -/
theorem endsAgree_iff {δ : Type*} {strptime : CString → δ} {s : CString}
    (hzero : (0 : UInt8) ∉ p.1) (hmem : isalnum (p.2.headD 0) = false)
    (hs : cleaned p = some s) (a : Attribute) :
    EndsAgree strptime a p ↔ Settled strptime p a := by
  have hstring (hread : ∀ s, readAs strptime s a = .inl (.inl (some s))) :
      EndsAgree strptime a p ↔ IsSingle p.1 := by
    rw [← ends_eq_iff_isSingle hzero hmem hs]
    constructor
    · intro hends q s' hq hs'
      have hsame := hends q s s' hq hs hs'
      rw [hread, hread] at hsame
      exact Option.some.inj (Sum.inl.inj (Sum.inl.inj hsame))
    · intro hall q s₁ s' hq hs₁ hs'
      obtain rfl : s₁ = s := Option.some.inj (hs₁.symm.trans hs)
      rw [hall q s' hq hs']
  cases a
  case client => exact hstring fun _ => rfl
  case data => exact hstring fun _ => rfl
  case host => exact hstring fun _ => rfl
  case sound => exact hstring fun _ => rfl
  all_goals rfl

/-! ## The last text -/

theorem lastText_append (before after : List XmlCall) :
    lastText isTag tag (before ++ after)
      = (lastText isTag (openedTag tag before) after).or (lastText isTag tag before) := by
  induction before generalizing tag with
  | nil => rw [List.nil_append, lastText, Option.or_none]; rfl
  | cons c before ih =>
    obtain ⟨token, behind⟩ := c
    rcases token with tag' | text | tag'
    · rw [List.cons_append, lastText_start, lastText_start, ih]
      rfl
    · rw [List.cons_append, lastText_text, lastText_text, ih, Option.or_assoc]
      rfl
    · rw [List.cons_append, lastText_stop, lastText_stop, ih]
      rfl

theorem Pieces.openedTag_eq (h : Pieces behind text pieces) : openedTag tag pieces = tag := by
  induction h with
  | nil => rfl
  | cons _ _ _ ih => exact ih

/-- Something is left of a text that is not blank. -/
theorem isSome_cleaned_iff (hzero : (0 : UInt8) ∉ text) (hmem : isalnum (mem.headD 0) = false) :
    (cleaned (text, mem)).isSome = !text.all isBlank := by
  rw [Bool.eq_iff_iff, Option.isSome_iff_ne_none, ne_eq, cleaned_eq_none_iff hzero hmem]
  simp

theorem Pieces.lastText_eq_none (h : Pieces behind text pieces) (htag : isTag tag = false) :
    lastText isTag tag pieces = none := by
  induction h with
  | nil => rfl
  | cons _ _ _ ih => rw [lastText_text, ih, htag]; rfl

/-- The last piece that something is left of ends the text, but for blanks. -/
theorem Pieces.rel_lastText (h : Pieces behind text pieces) (htag : isTag tag = true)
    (hzero : (0 : UInt8) ∉ text) (hmem : isalnum (behind.headD 0) = false) :
    Option.Rel IsEnd (if text.all isBlank then none else some (text, behind))
      (lastText isTag tag pieces) := by
  induction h with
  | nil => exact .none
  | @cons piece text mem calls hne hpiece hcalls ih =>
    rw [List.mem_append, not_or] at hzero
    have hrest := ih hzero.2
    rw [lastText_text, htag, Bool.true_and, List.all_append]
    by_cases hblank : text.all isBlank = true
    · -- nothing is left of the pieces behind, and no letter or digit follows
      rw [if_pos hblank] at hrest
      have hmem' : isalnum (mem.headD 0) = false := by
        rcases hpiece with rfl | hmem'
        · rcases text with - | ⟨d, text⟩
          · exact hmem
          · exact not_isalnum_of_isBlank (List.all_eq_true.mp hblank d List.mem_cons_self)
        · exact hmem'
      rw [isSome_cleaned_iff hzero.1 hmem', hblank, Bool.and_true]
      generalize lastText isTag tag calls = o at hrest
      cases hrest
      rw [Option.none_or]
      cases piece.all isBlank
      · exact .some ⟨[], text, rfl, hblank, hmem'⟩
      · exact .none
    · rw [if_neg hblank] at hrest
      have hboth : ¬ (piece.all isBlank && text.all isBlank) = true := fun h =>
        hblank (Bool.and_eq_true_iff.mp h).2
      rw [if_neg hboth]
      generalize lastText isTag tag calls = o at hrest
      cases hrest with
      | some hend =>
        obtain ⟨before, blanks, htext, hblanks, hmem'⟩ := hend
        rw [Option.some_or]
        refine .some ⟨piece ++ before, blanks, ?_, hblanks, hmem'⟩
        show piece ++ text = _
        rw [show text = _ from htext]
        simp

/-- A text leaves what it leaves in pieces, or one of its ends. -/
theorem rel_lastText_text (hzero : (0 : UInt8) ∉ text) (hmem : isalnum (behind.headD 0) = false)
    (h : Pieces behind text pieces)
    (hrest : Option.Rel IsEnd (lastText isTag tag calls) (lastText isTag tag split)) :
    Option.Rel IsEnd (lastText isTag tag (⟨.text text, behind⟩ :: calls))
      (lastText isTag tag (pieces ++ split)) := by
  rw [lastText_text, lastText_append, h.openedTag_eq, isSome_cleaned_iff hzero hmem]
  generalize lastText isTag tag calls = o at hrest
  generalize lastText isTag tag split = o' at hrest
  cases hrest with
  | some hend => exact .some hend
  | none =>
    rw [Option.none_or, Option.none_or]
    rcases htag : isTag tag with - | -
    · rw [h.lastText_eq_none htag]
      exact .none
    · have hpieces := h.rel_lastText htag hzero hmem
      rw [Bool.true_and]
      rcases hblank : text.all isBlank with - | -
      · rwa [hblank] at hpieces
      · rwa [hblank] at hpieces

theorem MarkupBehind.tail {c : XmlCall} (h : MarkupBehind (c :: calls)) : MarkupBehind calls :=
  fun text behind hmem => h text behind (List.mem_cons_of_mem c hmem)

/-- **What the last text becomes**: one of its ends. -/
theorem Splits.rel_lastText (h : Splits calls split) (hmarkup : MarkupBehind calls)
    (tag : CString) :
    Option.Rel IsEnd (lastText isTag tag calls) (lastText isTag tag split) := by
  induction h generalizing tag with
  | nil => exact .none
  | start _ ih => exact ih hmarkup.tail _
  | stop _ ih => exact ih hmarkup.tail tag
  | @text text behind calls pieces split hpieces _ ih =>
    obtain ⟨hzero, hmem⟩ := hmarkup text behind List.mem_cons_self
    exact rel_lastText_text hzero hmem hpieces (ih hmarkup.tail tag)

/-! ## How a text can be split -/

theorem exists_pieces (behind text : List UInt8) : ∃ pieces, Pieces behind text pieces := by
  rcases text with - | ⟨c, text⟩
  · exact ⟨[], .nil⟩
  · have hone : Pieces behind ((c :: text) ++ []) [⟨.text (c :: text), behind⟩] :=
      .cons (List.cons_ne_nil c text) (.inl rfl) .nil
    rw [List.append_nil] at hone
    exact ⟨_, hone⟩

theorem exists_splits (calls : List XmlCall) : ∃ split, Splits calls split := by
  induction calls with
  | nil => exact ⟨[], .nil⟩
  | cons c calls ih =>
    obtain ⟨token, behind⟩ := c
    obtain ⟨split, hsplit⟩ := ih
    rcases token with tag | text | tag
    · exact ⟨_, .start hsplit⟩
    · obtain ⟨pieces, hpieces⟩ := exists_pieces behind text
      exact ⟨_, .text hpieces hsplit⟩
    · exact ⟨_, .stop hsplit⟩

/-- A piece may be cut off in front. -/
theorem Pieces.exists_append (h : Pieces behind text pieces) (before : List UInt8)
    (hlast : lastText isTag tag pieces = some q) :
    ∃ pieces', Pieces behind (before ++ text) pieces' ∧
      lastText isTag tag pieces' = some q := by
  rcases before with - | ⟨c, before⟩
  · exact ⟨pieces, h, hlast⟩
  · refine ⟨_, .cons (List.cons_ne_nil c before) (.inl rfl) h, ?_⟩
    rw [lastText_text, hlast]
    rfl

/-- Each end of a text may be the last that something is left of. -/
theorem IsEnd.exists_pieces (h : IsEnd p q) (hzero : (0 : UInt8) ∉ p.1)
    (hmem : isalnum (p.2.headD 0) = false) (htag : isTag tag = true)
    (hq : (cleaned q).isSome = true) :
    ∃ pieces, Pieces p.2 p.1 pieces ∧ lastText isTag tag pieces = some q := by
  obtain ⟨before, blanks, htext, hblanks, hmem'⟩ := h
  obtain ⟨text, behind⟩ := p
  obtain ⟨piece, mem⟩ := q
  obtain rfl : text = before ++ piece ++ blanks := htext
  have hne : piece ≠ [] := by
    rintro rfl
    rw [isSome_cleaned_iff (by simp) hmem'] at hq
    cases hq
  have hblanks0 : (0 : UInt8) ∉ blanks := fun h0 => hzero (List.mem_append_right _ h0)
  obtain ⟨behindPieces, hbehind⟩ := Peep.exists_pieces behind blanks
  have hnone : lastText isTag tag behindPieces = none := by
    have hrel := hbehind.rel_lastText htag hblanks0 hmem
    rw [if_pos hblanks] at hrel
    generalize lastText isTag tag behindPieces = o at hrel
    cases hrel
    rfl
  have hlast : lastText isTag tag (⟨.text piece, mem⟩ :: behindPieces) = some (piece, mem) := by
    rw [lastText_text, hnone, htag, hq]
    rfl
  obtain ⟨pieces, hpieces, hend⟩ :=
    (Pieces.cons hne (.inr hmem') hbehind).exists_append before hlast
  exact ⟨pieces, by rwa [List.append_assoc], hend⟩

/-- **What the last text may become**: each of its ends of which something is left. -/
theorem exists_splits_of_isEnd (hmarkup : MarkupBehind calls)
    (hp : lastText isTag tag calls = some p) (hend : IsEnd p q)
    (hq : (cleaned q).isSome = true) :
    ∃ split, Splits calls split ∧ lastText isTag tag split = some q := by
  induction calls generalizing tag with
  | nil => cases hp
  | cons c calls ih =>
    obtain ⟨token, behind⟩ := c
    rcases token with tag' | text | tag'
    · obtain ⟨split, hsplit, hlast⟩ := ih hmarkup.tail hp
      exact ⟨_, .start hsplit, hlast⟩
    · obtain ⟨hzero, hmem⟩ := hmarkup text behind List.mem_cons_self
      rw [lastText_text] at hp
      rcases hrest : lastText isTag tag calls with - | p'
      · rw [hrest, Option.none_or] at hp
        split_ifs at hp with hhere
        obtain rfl := Option.some.inj hp
        obtain ⟨pieces, hpieces, hlast⟩ :=
          hend.exists_pieces hzero hmem (Bool.and_eq_true_iff.mp hhere).1 hq
        obtain ⟨split, hsplit⟩ := exists_splits calls
        refine ⟨_, .text hpieces hsplit, ?_⟩
        have hrel : Option.Rel IsEnd (lastText isTag tag calls) (lastText isTag tag split) :=
          hsplit.rel_lastText hmarkup.tail tag
        rw [hrest] at hrel
        generalize hsplitLast : lastText isTag tag split = o at hrel
        cases hrel
        rw [lastText_append, hpieces.openedTag_eq, hsplitLast, hlast]
        rfl
      · rw [hrest, Option.some_or] at hp
        obtain ⟨split, hsplit, hlast⟩ := ih hmarkup.tail (hrest.trans hp)
        obtain ⟨pieces, hpieces⟩ := exists_pieces behind text
        refine ⟨_, .text hpieces hsplit, ?_⟩
        rw [lastText_append, hpieces.openedTag_eq, hlast]
        rfl
    · obtain ⟨split, hsplit, hlast⟩ := ih hmarkup.tail hp
      exact ⟨_, .stop hsplit, hlast⟩

/-! ## Fields -/

section Fields

variable {δ : Type*} {strptime : CString → δ} {date : δ}

/-- What is left of the last text, one call further. -/
theorem elim_lastText_text {A : Type*} (d : A) (f : CString → A) :
    ((lastText isTag tag (⟨.text text, behind⟩ :: calls)).bind cleaned).elim d f
      = ((lastText isTag tag calls).bind cleaned).elim
        (if isTag tag then (cleaned (text, behind)).elim d f else d) f := by
  rw [lastText_text]
  rcases hlast : lastText isTag tag calls with - | p
  · rw [Option.none_or]
    rcases isTag tag with - | -
    · rfl
    · rcases hclean : cleaned (text, behind) with - | s
      · rfl
      · rw [Option.isSome_some, Bool.true_and, if_pos rfl, if_pos rfl, Option.bind_some, hclean]
        rfl
  · obtain ⟨s, hs⟩ := Option.isSome_iff_exists.mp (isSome_cleaned_of_lastText hlast)
    rw [Option.some_or, Option.bind_some, hs]
    rfl

/-- The date after some calls behind a tag. -/
theorem foldlM_callDated (strptime : CString → δ) (calls : List XmlCall) (n : NOTICE)
    (tag : CString) (date : δ) :
    calls.foldlM (callDated strptime) (⟨n, some tag⟩, date)
      = (calls.foldlM ParseInfo.call ⟨n, some tag⟩).map fun info =>
        (info, ((lastText Attribute.date.isTag tag calls).bind cleaned).elim date strptime) := by
  induction calls generalizing n tag date with
  | nil => rfl
  | cons c calls ih =>
    obtain ⟨token, behind⟩ := c
    rw [List.foldlM_cons, List.foldlM_cons]
    rcases token with tag' | text | tag'
    · exact ih n tag' date
    · rw [elim_lastText_text]
      rcases hclean : createXmlNormalizedString (text ++ behind) text.length with - | string
      · have hcall : ParseInfo.call ⟨n, some tag⟩ ⟨.text text, behind⟩ = some ⟨n, some tag⟩ := by
          show xmlParseClientChar _ text behind = _
          rw [xmlParseClientChar, hclean]
        have hdate : xmlParseClientDate strptime ⟨n, some tag⟩ date ⟨.text text, behind⟩
            = date := by
          show (match createXmlNormalizedString (text ++ behind) text.length with
            | none => date
            | some string => _) = date
          rw [hclean]
        rw [callDated, hcall, Option.map_some, hdate, Option.bind_eq_bind, Option.bind_some,
          Option.bind_eq_bind, Option.bind_some, ih, cleaned, hclean, Option.elim_none, ite_self]
      · have hcall : ParseInfo.call ⟨n, some tag⟩ ⟨.text text, behind⟩
            = some ⟨n.set tag string, some tag⟩ := by
          show xmlParseClientChar _ text behind = _
          rw [xmlParseClientChar, hclean]
          rfl
        have hdate : xmlParseClientDate strptime ⟨n, some tag⟩ date ⟨.text text, behind⟩
            = if Attribute.date.isTag tag then strptime string else date := by
          show (match createXmlNormalizedString (text ++ behind) text.length with
            | none => date
            | some string => if strcaseeq tag (ascii "date") then strptime string else date) = _
          rw [hclean]
          rfl
        rw [callDated, hcall, Option.map_some, hdate, Option.bind_eq_bind, Option.bind_some,
          Option.bind_eq_bind, Option.bind_some, ih, cleaned, hclean, Option.elim_some]
    · exact ih n tag date

/-- **What is in the fields** after the calls for a document. -/
theorem fields_parseNotice (strptime : CString → δ) (date : δ) (h : BeginsWithTag calls) :
    ∃ n d, parseNotice strptime date calls = some (n, d) ∧
      ∀ a, fieldOf n d a = ((lastText a.isTag [] calls).bind cleaned).elim
        (fieldOf noticeCreateNotice date a) fun s => readAs strptime s a := by
  rcases calls with - | ⟨⟨token, behind⟩, calls⟩
  · exact ⟨_, _, rfl, fun _ => rfl⟩
  obtain ⟨tag, rfl⟩ : ∃ tag, token = .start tag := h _ rfl
  obtain ⟨info, hrun, hslot⟩ := slot_foldlM_call calls noticeCreateNotice tag
  have hdated := foldlM_callDated strptime calls noticeCreateNotice tag date
  rw [hrun, Option.map_some] at hdated
  refine ⟨info.notice, _, congrArg (Option.map _) hdated, fun a => ?_⟩
  have hother (hfield : ∀ (n : NOTICE) (d : δ), fieldOf n d a = .inl (n.slot a))
      (hread : ∀ s, readAs strptime s a = .inl (slotOf s a)) :
      fieldOf info.notice
          (((lastText Attribute.date.isTag tag calls).bind cleaned).elim date strptime) a
        = ((lastText a.isTag tag calls).bind cleaned).elim
          (fieldOf noticeCreateNotice date a) fun s => readAs strptime s a := by
    rw [hfield, hfield, hslot a]
    rcases (lastText a.isTag tag calls).bind cleaned with - | s
    · rfl
    · exact (hread s).symm
  cases a
  case date =>
    show Sum.inr _ = ((lastText Attribute.date.isTag tag calls).bind cleaned).elim _ _
    rcases (lastText Attribute.date.isTag tag calls).bind cleaned with - | s
    · rfl
    · rfl
  all_goals exact hother (fun _ _ => rfl) fun _ => rfl

/-- A notice and its date are their fields. -/
theorem eq_of_fieldOf {n n' : NOTICE} {d d' : δ} (h : ∀ a, fieldOf n d a = fieldOf n' d' a) :
    n = n' ∧ d = d' := by
  have hclient : n.client = n'.client := Sum.inl.inj (Sum.inl.inj (h .client))
  have hdata : n.data = n'.data := Sum.inl.inj (Sum.inl.inj (h .data))
  have hhost : n.host = n'.host := Sum.inl.inj (Sum.inl.inj (h .host))
  have hsound : n.sound = n'.sound := Sum.inl.inj (Sum.inl.inj (h .sound))
  have hdither : n.dither = n'.dither := Sum.inr.inj (Sum.inl.inj (h .dither))
  have hflags : n.flags = n'.flags := Sum.inr.inj (Sum.inl.inj (h .flags))
  have hlocation : n.location = n'.location := Sum.inr.inj (Sum.inl.inj (h .location))
  have hmetric : n.metric = n'.metric := Sum.inr.inj (Sum.inl.inj (h .metric))
  have hpriority : n.priority = n'.priority := Sum.inr.inj (Sum.inl.inj (h .priority))
  have htype : n.type = n'.type := Sum.inr.inj (Sum.inl.inj (h .type))
  have hvolume : n.volume = n'.volume := Sum.inr.inj (Sum.inl.inj (h .volume))
  refine ⟨?_, Sum.inr.inj (h .date)⟩
  cases n
  cases n'
  simp_all

/-- Two documents are the same notice if what is left of their last texts is read as the same. -/
theorem parseNotice_eq_iff {calls' : List XmlCall} (h : BeginsWithTag calls)
    (h' : BeginsWithTag calls') :
    parseNotice strptime date calls' = parseNotice strptime date calls ↔
      ∀ a, ((lastText a.isTag [] calls').bind cleaned).elim (fieldOf noticeCreateNotice date a)
          (fun s => readAs strptime s a)
        = ((lastText a.isTag [] calls).bind cleaned).elim (fieldOf noticeCreateNotice date a)
          fun s => readAs strptime s a := by
  obtain ⟨n, d, hparse, hfields⟩ := fields_parseNotice strptime date h
  obtain ⟨n', d', hparse', hfields'⟩ := fields_parseNotice strptime date h'
  rw [hparse, hparse', Option.some.injEq, Prod.mk.injEq]
  constructor
  · rintro ⟨rfl, rfl⟩ a
    rw [← hfields, ← hfields']
  · intro hall
    exact eq_of_fieldOf fun a => by rw [hfields, hfields', hall]

end Fields

/-! ## Splitting documents -/

/-- The last text is among the calls. -/
theorem mem_of_lastText (h : lastText isTag tag calls = some p) :
    ⟨.text p.1, p.2⟩ ∈ calls := by
  induction calls generalizing tag with
  | nil => cases h
  | cons c calls ih =>
    obtain ⟨token, behind⟩ := c
    rcases token with tag' | text | tag'
    · exact List.mem_cons_of_mem _ (ih h)
    · rw [lastText_text] at h
      rcases hlast : lastText isTag tag calls with - | q
      · rw [hlast, Option.none_or] at h
        split_ifs at h
        obtain rfl := Option.some.inj h
        exact List.mem_cons_self
      · rw [hlast, Option.some_or] at h
        exact List.mem_cons_of_mem _ (ih (hlast.trans h))
    · exact List.mem_cons_of_mem _ (ih h)

theorem BeginsWithTag.splits (hbegins : BeginsWithTag calls) (h : Splits calls split) :
    BeginsWithTag split := by
  cases h with
  | nil => exact hbegins
  | @start tag => exact fun c hc => ⟨tag, Option.some.inj hc ▸ rfl⟩
  | stop _ =>
    obtain ⟨tag, htag⟩ := hbegins _ rfl
    cases htag
  | text _ _ =>
    obtain ⟨tag, htag⟩ := hbegins _ rfl
    cases htag

theorem BeginsWithTag.filter (hbegins : BeginsWithTag calls) :
    BeginsWithTag (calls.filter fun c => c.token.isKept) := by
  rcases calls with - | ⟨c, calls⟩
  · exact hbegins
  · obtain ⟨tag, htag⟩ := hbegins c rfl
    have hkept : c.token.isKept = true := by rw [htag]; rfl
    rw [List.filter_cons_of_pos (by simpa using hkept)]
    exact fun d hd => ⟨tag, Option.some.inj hd ▸ htag⟩

/-- **Blank texts are never the last.** -/
theorem lastText_filter (hmarkup : MarkupBehind calls) (tag : CString) :
    lastText isTag tag (calls.filter fun c => c.token.isKept) = lastText isTag tag calls := by
  induction calls generalizing tag with
  | nil => rfl
  | cons c calls ih =>
    obtain ⟨token, behind⟩ := c
    rcases token with tag' | text | tag'
    · exact ih hmarkup.tail tag'
    · obtain ⟨hzero, hmem⟩ := hmarkup text behind List.mem_cons_self
      rw [lastText_text, isSome_cleaned_iff hzero hmem]
      by_cases hblank : text.all isBlank = true
      · rw [List.filter_cons_of_neg (by simp [Token.isKept, hblank]), ih hmarkup.tail, hblank,
          Bool.not_true, Bool.and_false, if_neg Bool.false_ne_true, Option.or_none]
      · rw [List.filter_cons_of_pos (by simpa [Token.isKept] using hblank), lastText_text,
          ih hmarkup.tail, isSome_cleaned_iff hzero hmem]
    · exact ih hmarkup.tail tag

section Main

variable {δ : Type*} {strptime : CString → δ} {date : δ}

/-- Splitting changes nothing if the ends of the last texts agree. -/
theorem parseNotice_splits (h : IsDocument calls)
    (hends : ∀ a p, lastText a.isTag [] calls = some p → EndsAgree strptime a p)
    (hsplit : Splits calls split) :
    parseNotice strptime date split = parseNotice strptime date calls := by
  refine (parseNotice_eq_iff h.begins (h.begins.splits hsplit)).mpr fun a => ?_
  have hrel : Option.Rel IsEnd (lastText a.isTag [] calls) (lastText a.isTag [] split) :=
    hsplit.rel_lastText h.markup []
  rcases hlast : lastText a.isTag [] calls with - | p
  · rw [hlast] at hrel
    generalize lastText a.isTag [] split = o at hrel
    cases hrel
    rfl
  · rw [hlast] at hrel
    rcases hlast' : lastText a.isTag [] split with - | q
    · rw [hlast'] at hrel
      cases hrel
    · rw [hlast', Option.rel_some_some] at hrel
      obtain ⟨s, hs⟩ := Option.isSome_iff_exists.mp (isSome_cleaned_of_lastText hlast)
      obtain ⟨s', hs'⟩ := Option.isSome_iff_exists.mp (isSome_cleaned_of_lastText hlast')
      rw [Option.bind_some, Option.bind_some, hs, hs']
      exact hends a p hlast q s s' hrel hs hs'

/-- The ends of the last texts agree if splitting changes nothing. -/
theorem endsAgree_of_splits (h : IsDocument calls)
    (hall : ∀ split, Splits calls split →
      parseNotice strptime date split = parseNotice strptime date calls)
    (hlast : lastText a.isTag [] calls = some p) : EndsAgree strptime a p := by
  intro q s s' hend hs hs'
  obtain ⟨split, hsplit, hlast'⟩ :=
    exists_splits_of_isEnd h.markup hlast hend (Option.isSome_iff_exists.mpr ⟨s', hs'⟩)
  have hfields := (parseNotice_eq_iff h.begins (h.begins.splits hsplit)).mp (hall split hsplit) a
  rwa [hlast, hlast', Option.bind_some, Option.bind_some, hs, hs'] at hfields

/-- **For which documents splitting changes nothing**: those where the last text of each field is a
single character, or its ends are for one and the same number or date. -/
theorem unchunked_iff (strptime : CString → δ) (date : δ) (h : IsDocument calls) :
    Unchunked strptime date calls ↔
      ∀ a p, lastText a.isTag [] calls = some p → Settled strptime p a := by
  have hsettled (a : Attribute) (p : List UInt8 × List UInt8)
      (hlast : lastText a.isTag [] calls = some p) :
      EndsAgree strptime a p ↔ Settled strptime p a := by
    obtain ⟨hzero, hmem⟩ := h.markup p.1 p.2 (mem_of_lastText hlast)
    obtain ⟨s, hs⟩ := Option.isSome_iff_exists.mp (isSome_cleaned_of_lastText hlast)
    exact endsAgree_iff hzero hmem hs a
  have hblanks : parseNotice strptime date (calls.filter fun c => c.token.isKept)
      = parseNotice strptime date calls := by
    refine (parseNotice_eq_iff h.begins h.begins.filter).mpr fun a => ?_
    rw [lastText_filter h.markup]
  constructor
  · rintro ⟨hall, -⟩ a p hlast
    exact (hsettled a p hlast).mp (endsAgree_of_splits h hall hlast)
  · intro hall
    refine ⟨fun split hsplit => ?_, hblanks⟩
    exact parseNotice_splits h (fun a p hlast => (hsettled a p hlast).mpr (hall a p hlast)) hsplit

end Main

/-- The calls for a notice with a sound. -/
def soundCalls (sound : CString) : List XmlCall :=
  [⟨.start (ascii "sound"), []⟩, ⟨.text sound, [60]⟩, ⟨.stop (ascii "sound"), []⟩]

theorem isDocument_soundCalls {sound : CString} (h : (0 : UInt8) ∉ sound) :
    IsDocument (soundCalls sound) where
  begins c hc := ⟨ascii "sound", Option.some.inj hc ▸ rfl⟩
  markup text behind hmem := by
    simp only [soundCalls, List.mem_cons, XmlCall.mk.injEq, Token.text.injEq, reduceCtorEq,
      false_and, false_or, List.not_mem_nil, or_false] at hmem
    obtain ⟨rfl, rfl⟩ := hmem
    exact ⟨h, rfl⟩

/-- **Two pieces**: of the sound `ab` its second character is left. -/
theorem not_unchunked_ab : IsDocument (soundCalls [97, 98]) ∧
    ¬ Unchunked (fun s => s) [] (soundCalls [97, 98]) := by
  refine ⟨isDocument_soundCalls (by decide), fun h => ?_⟩
  have hpieces : Pieces [60] ([97] ++ ([98] ++ []))
      [⟨.text [97], [98, 60]⟩, ⟨.text [98], [60]⟩] :=
    .cons (by decide) (.inl rfl) (.cons (by decide) (.inl rfl) .nil)
  have hsame := h.1 _ (.start (.text hpieces (.stop .nil)))
  have hsound := congrArg (Option.map fun r : NOTICE × CString => r.1.sound) hsame
  revert hsound
  decide

/-- A sound of one character, with a newline. -/
theorem unchunked_a : IsDocument (soundCalls [97, 10]) ∧
    Unchunked (fun s => s) [] (soundCalls [97, 10]) := by
  have hdoc : IsDocument (soundCalls [97, 10]) := isDocument_soundCalls (by decide)
  refine ⟨hdoc, (unchunked_iff _ _ hdoc).mpr fun a p hlast => ?_⟩
  rcases htag : a.isTag (ascii "sound") with - | -
  · rw [soundCalls, lastText_start, lastText_text, htag] at hlast
    cases hlast
  · obtain rfl : a = .sound := Attribute.eq_of_isTag htag (by decide)
    have hmem := mem_of_lastText hlast
    simp only [soundCalls, List.mem_cons, XmlCall.mk.injEq, Token.text.injEq, reduceCtorEq,
      false_and, false_or, List.not_mem_nil, or_false] at hmem
    refine ⟨[], 97, [10], hmem.1, rfl, rfl, rfl, fun _ h => ?_⟩
    cases h

end Peep
