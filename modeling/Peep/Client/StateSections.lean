import Peep.Server.ConfigStates
import Peep.Server.ConfigThresholds

/-!
# State sections in the client

The client has a parser of its own for the configuration file (`Net::Peep::Parser`). It tests the
lines with regular expressions, and `parseState` is called with the lines behind `state`.

It knows thresholds under the name `threshhold` only. A line with that word would have it take all
lines that are left, and then call `getThresHolds`, which is nowhere defined.

## Choices

What a regular expression that begins with `^\s*` sees of a line is its first words. `\s` is what
`isspace` is in C. A line that ends the loop because it is false, as a last line with nothing but
`0`, is gone.

## Main results

* `parseState_lines` — the lines in front of the first `end`
* `StateBlock.agree_iff_no_thresholds` — the states of which both make the same
-/

namespace Peep

open Bytes Decimal Program Text

/-! ## The parser -/

/-- The line begins with this text, as in `/^\s*end/`. -/
def lineBegins (text : String) (line : CString) : Bool :=
  (words isspace line).head?.any (ascii text).isPrefixOf

/-- The word behind a keyword, as in `/^\s*name\s+(\S+)/`. -/
def wordBehind (keyword : String) (line : CString) : Option CString :=
  match words isspace line with
  | first :: w :: _ => if first = ascii keyword then some w else none
  | _ => none

/-- `Net::Peep::Data::State`: the name, and the level and the fade time of each threshold. -/
structure StateData where
  /-- `name`. -/
  name : Option CString
  /-- `threshholds`. -/
  threshholds : List (CString × CString)

/-- The loop of `parseState`, with the lines that are left; `none` if it dies. -/
def parseState (state : StateData) : List CString → Option (StateData × List CString)
  | [] => some (state, [])
  | line :: file =>
    if line = [] ∨ line = [48] then some (state, file)
    else if lineBegins "end" line then some (state, file)
    else if lineBegins "#" line then parseState state file
    else
      match wordBehind "name" line with
      | some name => parseState { state with name := some name } file
      | none => if (wordBehind "threshhold" line).isSome then none else parseState state file

/-- A new `Net::Peep::Data::State`. -/
def StateData.new : StateData := ⟨none, []⟩

/-! ## The lines of a state -/

variable {raw line : CString} {raws left : List CString} {ws : List CString}
  {wss : List (List CString)} {state : StateData} {w : CString} {remark : Remark}

/-- The words of a line that does not end the loop. -/
def Goes (ws : List CString) : Prop :=
  ∀ first ∈ ws.head?, (ascii "end").isPrefixOf first = false ∧ first ≠ ascii "threshhold"

/-- The name that a line has. -/
def nameIn (ws : List CString) : Option CString :=
  match ws with
  | first :: w :: _ => if first = ascii "name" then some w else none
  | _ => none

/-- A line of a file, with its newline. -/
def IsRead (raw : CString) (ws : List CString) : Prop :=
  words isspace raw = ws ∧ raw.getLast? = some 10

/-- **A line that does not end the loop.** -/
theorem parseState_cons (h : IsRead raw ws) (hws : Goes ws) (state : StateData)
    (file : List CString) :
    parseState state (raw :: file)
      = parseState { state with name := (nameIn ws).or state.name } file := by
  obtain ⟨rfl, hlast⟩ := h
  have htrue : ¬ (raw = [] ∨ raw = [48]) := by
    rintro (rfl | rfl)
    · cases hlast
    · exact absurd hlast (by decide)
  rw [parseState, if_neg htrue]
  rcases hwords : words isspace raw with - | ⟨first, more⟩
  · have hnone (keyword : String) : wordBehind keyword raw = none := by rw [wordBehind, hwords]
    have hbegins (text : String) : lineBegins text raw = false := by rw [lineBegins, hwords]; rfl
    rw [hbegins, hbegins, hnone, hnone]
    rfl
  · rw [hwords] at hws
    obtain ⟨hend, hthreshhold⟩ := hws first rfl
    have hbegins (text : String) :
        lineBegins text raw = (ascii text).isPrefixOf first := by rw [lineBegins, hwords]; rfl
    have hname : wordBehind "name" raw = nameIn (first :: more) := by rw [wordBehind, hwords]; rfl
    have hnot : wordBehind "threshhold" raw = none := by
      rw [wordBehind, hwords]
      rcases more with - | ⟨w, more⟩
      · rfl
      · exact if_neg hthreshhold
    rw [hbegins, hbegins, hend, if_neg Bool.false_ne_true, hname, hnot]
    rcases hcomment : (ascii "#").isPrefixOf first with - | -
    · cases nameIn (first :: more) <;> rfl
    · have hnone : nameIn (first :: more) = none := by
        rcases more with - | ⟨w, more⟩
        · rfl
        · refine if_neg ?_
          rintro rfl
          exact absurd hcomment (by decide)
      rw [hnone]
      rfl

/-- **The lines in front of the first `end`.** -/
theorem parseState_lines (h : List.Forall₂ IsRead raws wss) (hwss : ∀ ws ∈ wss, Goes ws)
    (state : StateData) (left : List CString) :
    parseState state (raws ++ left) = parseState { state with
      name := (wss.filterMap nameIn).foldl (fun _ w => some w) state.name } left := by
  induction wss generalizing raws state with
  | nil =>
    obtain rfl := List.forall₂_nil_right_iff.mp h
    rfl
  | cons ws wss ih =>
    obtain ⟨raw, raws, hraw, hraws, rfl⟩ := List.forall₂_cons_right_iff.mp h
    rw [List.cons_append, parseState_cons hraw (hwss ws List.mem_cons_self),
      ih hraws (fun ws hws => hwss ws (List.mem_cons_of_mem _ hws)), List.filterMap_cons]
    cases nameIn ws <;> rfl

/-- The first `end`. -/
theorem parseState_end {keyword : String} {more : List CString}
    (h : words isspace raw = endLine keyword more) (state : StateData) (file : List CString) :
    parseState state (raw :: file) = some (state, file) := by
  have hbegins : lineBegins "end" raw = true := by
    rw [lineBegins, h]
    show (ascii "end").isPrefixOf (ascii "end") = true
    decide
  rw [parseState, hbegins, if_pos rfl, ite_self]

/-! ## The documented format -/

theorem Remark.goes (remark : Remark) : Goes remark.words := by
  intro first hfirst
  have hhead := remark.isComment first hfirst
  rcases first with - | ⟨c, first⟩
  · cases hhead
  · obtain rfl := Option.some.inj hhead
    exact ⟨rfl, fun heq => absurd (List.cons.inj heq).1 (by decide)⟩

theorem Remark.nameIn_eq_none (remark : Remark) : nameIn remark.words = none := by
  rcases hwords : remark.words with - | ⟨first, - | ⟨w, more⟩⟩
  · rfl
  · rfl
  · refine if_neg ?_
    rintro rfl
    exact absurd (remark.isComment (ascii "name") (by rw [hwords]; rfl)) (by decide)

/-- The lines of a state in front of its first threshold. -/
theorem StateItem.goes {item : StateItem} (h : item.threshold? = none) :
    ∀ ws ∈ item.words, Goes ws := by
  cases item with
  | name w remark =>
    intro ws hws
    obtain rfl := List.mem_singleton.mp hws
    rintro _ ⟨⟩
    decide
  | threshold t => cases h
  | remark remark =>
    intro ws hws
    obtain rfl := List.mem_singleton.mp hws
    exact remark.goes

theorem StateItem.filterMap_nameIn {item : StateItem} (h : item.threshold? = none) :
    item.words.filterMap nameIn = item.name?.toList := by
  cases item with
  | name w remark => rfl
  | threshold t => cases h
  | remark remark =>
    rw [StateItem.words, List.filterMap_cons, remark.nameIn_eq_none]
    rfl

/-- The lines of a threshold in front of its end. -/
theorem ThresholdBlock.goes (t : ThresholdBlock) :
    ∀ ws ∈ (ascii "threshold" :: t.opening.words) :: t.lines.map ThresholdLine.words, Goes ws := by
  intro ws hws
  rcases List.mem_cons.mp hws with rfl | hws
  · rintro _ ⟨⟩
    decide
  · obtain ⟨l, -, rfl⟩ := List.mem_map.mp hws
    cases l with
    | level level remark => rintro _ ⟨⟩; decide
    | path path remark => rintro _ ⟨⟩; decide
    | fade fade remark => rintro _ ⟨⟩; decide
    | remark remark => exact remark.goes

/-- A state without thresholds. -/
theorem parseState_items {items : List StateItem} (hnone : ∀ item ∈ items, item.threshold? = none)
    (h : List.Forall₂ IsRead raws (items.flatMap StateItem.words)) (state : StateData)
    (left : List CString) :
    parseState state (raws ++ left) = parseState { state with
      name := (items.filterMap StateItem.name?).foldl (fun _ w => some w) state.name } left := by
  have hgoes : ∀ ws ∈ items.flatMap StateItem.words, Goes ws := by
    intro ws hws
    obtain ⟨item, hitem, hws⟩ := List.mem_flatMap.mp hws
    exact StateItem.goes (hnone item hitem) ws hws
  have hnames : (items.flatMap StateItem.words).filterMap nameIn
      = items.filterMap StateItem.name? := by
    clear h hgoes
    induction items with
    | nil => rfl
    | cons item items ih =>
      rw [List.flatMap_cons, List.filterMap_append, ih fun item hitem =>
        hnone item (List.mem_cons_of_mem _ hitem),
        StateItem.filterMap_nameIn (hnone item List.mem_cons_self), List.filterMap_cons]
      cases item.name? <;> rfl
  rw [parseState_lines h hgoes, hnames]

/-- The first threshold of a state. -/
theorem exists_first_threshold {items : List StateItem}
    (h : items.filterMap StateItem.threshold? ≠ []) :
    ∃ before t after, items = before ++ .threshold t :: after ∧
      ∀ item ∈ before, item.threshold? = none := by
  induction items with
  | nil => exact absurd rfl h
  | cons item items ih =>
    cases hitem : item.threshold? with
    | none =>
      rw [List.filterMap_cons, hitem] at h
      obtain ⟨before, t, after, rfl, hbefore⟩ := ih h
      exact ⟨item :: before, t, after, rfl, List.forall_mem_cons.mpr ⟨hitem, hbefore⟩⟩
    | some t =>
      cases item with
      | threshold t' => exact ⟨[], t', items, rfl, fun _ h => nomatch h⟩
      | _ => cases hitem

/-! ## A name that is taken for a threshold -/

section Taken

variable {n k : ℕ} {sys : System} {last : CString} {more : List CString} {s t : Loader n k}
  {soundPath : CString}

/-- The line with the name, if that is `threshold`. -/
theorem parseStateLoop_name_threshold (h : Holds (some line) (keyLine "name" w remark))
    (hw : strcaseeq w (ascii "threshold") = true) (turns : ℕ) (lines : List CString)
    (name : Option CString) (tCount : ℕ) :
    (parseStateLoop sys (turns + 1) (line :: lines) name tCount : Program (Loader n k) _)
      = parserParseThreshold sys tCount lines .start >>= fun parsed =>
          if parsed.1 then parseStateLoop sys turns parsed.2 (some w) (tCount + 1)
          else pure (false, parsed.2) := by
  obtain ⟨tok, htok, hkeyword, next, hnext, htoken, hremark⟩ := Holds.keyLine h
  have hcomment : tok.isComment = false := Tok.isComment_of_eq hkeyword (by decide)
  have hname : tok.is "name" = true := Tok.is_self hkeyword
  have hthreshold : next.is "threshold" = true := by rw [Tok.is, htoken, hw]
  simp only [parseStateLoop, tokenize_of_some htok, pure_bind_apply, hcomment, Bool.false_eq_true,
    if_false, parseName, hname, if_true, tokenize_of_some hnext, parseThreshold, hthreshold,
    bind_assoc, isEndOf_of_remark hremark (show isKeyword "state" = true by decide), htoken]
  congr 1
  funext parsed
  rcases parsed with ⟨- | -, left⟩ <;> rfl

/-- In a threshold, the end of the state is no end. -/
theorem parserParseThreshold_endState {remarks : List Remark}
    (hlines : Spelled raws (remarks.map Remark.words))
    (hlast : words isspace last = endLine "state" more) (hs : s.soundPath = some soundPath)
    (v : ThresholdVars) :
    parserParseThreshold sys 0 (raws ++ [last]) v s = (some (true, []), s) := by
  have hwords : Spelled raws ((remarks.map ThresholdLine.remark).map ThresholdLine.words) := by
    rwa [List.map_map]
  have hpaths : ∀ w ∈ (remarks.map ThresholdLine.remark).filterMap ThresholdLine.path?,
      strcaseeq w (ascii "fade") = false := by
    intro w hw
    obtain ⟨l, hl, hw⟩ := List.mem_filterMap.mp hw
    obtain ⟨remark, -, rfl⟩ := List.mem_map.mp hl
    cases hw
  have hlower : lowerBound 0 s = (some 0, s) := rfl
  obtain ⟨tok, htok, hend, next, hnext, hstate⟩ := parserTokenize_endLine hlast
  have hcomment : tok.isComment = false := Tok.isComment_of_eq hend (by decide)
  have hlevelNot : tok.is "level" = false := (Tok.is_of_eq hend _).trans (by decide)
  have hpathNot : tok.is "path" = false := (Tok.is_of_eq hend _).trans (by decide)
  have hfadeNot : tok.is "fade" = false := (Tok.is_of_eq hend _).trans (by decide)
  have hendIs : tok.is "end" = true := Tok.is_self hend
  have hstateNot : next.is "threshold" = false := (Tok.is_of_eq hstate _).trans (by decide)
  rw [parserParseThreshold_lines hwords hpaths hs hlower]
  simp only [parserParseThreshold, tokenize_of_some htok, pure_bind_apply, hcomment,
    Bool.false_eq_true, if_false, parseLevel, hlevelNot, parsePath, hpathNot, parseFade, hfadeNot,
    isEndOf, hendIs, if_true, tokenize_of_some hnext, hstateNot, pure_apply]

/-- Items that declare nothing are remarks. -/
theorem exists_remarks {items : List StateItem}
    (hthreshold : ∀ item ∈ items, item.threshold? = none)
    (hname : ∀ item ∈ items, item.name? = none) :
    ∃ remarks : List Remark, items.flatMap StateItem.words = remarks.map Remark.words := by
  induction items with
  | nil => exact ⟨[], rfl⟩
  | cons item items ih =>
    obtain ⟨remarks, hremarks⟩ := ih
      (fun item hitem => hthreshold item (List.mem_cons_of_mem _ hitem))
      fun item hitem => hname item (List.mem_cons_of_mem _ hitem)
    cases item with
    | name w remark => exact absurd (hname _ List.mem_cons_self) (Option.some_ne_none _)
    | threshold t => exact absurd (hthreshold _ List.mem_cons_self) (Option.some_ne_none _)
    | remark remark =>
      refine ⟨remark :: remarks, ?_⟩
      rw [List.flatMap_cons, hremarks]
      rfl

/-- The remarks in front of the name. -/
theorem parseStateLoop_remarks {remarks : List Remark}
    (hlines : Spelled raws (remarks.map Remark.words)) (left : List CString) {turns : ℕ}
    (hturns : (raws ++ left).length ≤ turns) (name : Option CString) (tCount : ℕ) :
    ∃ turns', left.length ≤ turns' ∧
      (parseStateLoop sys turns (raws ++ left) name tCount : Program (Loader n k) _)
        = parseStateLoop sys turns' left name tCount := by
  induction remarks generalizing raws turns with
  | nil =>
    obtain rfl := List.forall₂_nil_right_iff.mp hlines
    exact ⟨turns, hturns, rfl⟩
  | cons remark remarks ih =>
    obtain ⟨raw, raws, hraw, hraws, rfl⟩ := List.forall₂_cons_right_iff.mp hlines
    obtain ⟨turns, rfl⟩ := Nat.exists_eq_add_one_of_ne_zero (Nat.ne_zero_of_lt hturns)
    rw [List.cons_append, parseStateLoop_remark hraw]
    exact ih hraws (Nat.le_of_succ_le_succ hturns)

/-- **A state without thresholds whose name is `threshold`**, at the end of a file. -/
theorem parserParseState_taken (x : StateSection) (hnone : x.thresholds = [])
    (hname : strcaseeq x.name (ascii "threshold") = true)
    (hlines : Spelled raws (x.items.flatMap StateItem.words))
    (hlast : words isspace last = endLine "state" more) (hs : s.soundPath = some soundPath)
    {status : MixerStatus}
    (halloc : callMixer s.stateCnt (fun m => m.mixerAllocNewState s.stateCnt 0) s
      = (some status, t)) :
    parserParseState sys (raws ++ [last]) s = (some (false, []), t) := by
  have hitems : ∀ item ∈ x.items, item.threshold? = none := List.filterMap_eq_nil_iff.mp hnone
  have hstays : ∀ ws ∈ x.items.flatMap StateItem.words, StaysInState ws := by
    intro ws hws
    obtain ⟨item, -, hws⟩ := List.mem_flatMap.mp hws
    exact item.staysInState ws hws
  have hlook : lookAhead (raws ++ [last]) 0 = some (0, true) := by
    have hzero : x.items.filterMap StateItem.threshold? = [] := hnone
    rw [lookAhead_eq hlines hstays hlast, countP_flatMap_words, hzero]
    rfl
  have hpath : t.soundPath = some soundPath := by
    have hleads := carries_callMixer_hasSettings s.settings s.stateCnt
      (fun m : Mixer n k => m.mixerAllocNewState s.stateCnt 0) s rfl
    rw [halloc] at hleads
    exact (congrArg Settings.soundPath hleads).trans hs
  obtain ⟨before, item, after, hsplit, hbefore, hitem, hafter⟩ :=
    List.filterMap_eq_cons_iff.mp x.names_eq
  rw [hsplit] at hlines hitems
  obtain ⟨remarks, hremarks⟩ := exists_remarks
    (fun item hitem => hitems item (List.mem_append_left _ hitem)) hbefore
  obtain ⟨remarks', hremarks'⟩ := exists_remarks
    (fun item hitem => hitems item (List.mem_append_right _ (List.mem_cons_of_mem _ hitem)))
    (List.filterMap_eq_nil_iff.mp hafter)
  cases item with
  | threshold t => cases hitem
  | remark remark => cases hitem
  | name w remark =>
    obtain rfl := Option.some.inj hitem
    rw [List.flatMap_append, List.flatMap_cons, hremarks, hremarks'] at hlines
    obtain ⟨front, back, rfl, hfront, hback⟩ := hlines.append
    obtain ⟨raw, mid, hraw, hmid, rfl⟩ := List.forall₂_cons_right_iff.mp hback
    rw [parserParseState, hlook]
    show (callMixer s.stateCnt _ >>= fun _ => parseStateLoop sys
      (front ++ raw :: mid ++ [last]).length (front ++ raw :: mid ++ [last]) none 0) s = _
    rw [bind_of_some halloc, List.append_assoc]
    obtain ⟨turns, hturns, hloop⟩ := parseStateLoop_remarks (n := n) (k := k) hfront
      (raw :: mid ++ [last]) le_rfl none 0
    obtain ⟨turns, rfl⟩ := Nat.exists_eq_add_one_of_ne_zero (Nat.ne_zero_of_lt hturns)
    rw [hloop, List.cons_append, parseStateLoop_name_threshold hraw hname,
      bind_of_some (parserParseThreshold_endState hmid hlast hpath .start), if_pos rfl]
    cases turns <;> rfl

end Taken

/-! ## Blocks -/

/-- A state section as it is in a file, from the line behind `state` on. -/
structure StateBlock where
  /-- The section. -/
  state : StateSection
  /-- The lines. -/
  lines : List CString
  /-- The line that ends it. -/
  closing : CString
  /-- No line has a zero or a newline. -/
  isText : ∀ line ∈ closing :: lines, 0 ∉ line ∧ 10 ∉ line
  /-- They have the words of the section. -/
  words_eq : (lines ++ [closing]).map (words isspace) = state.body

namespace StateBlock

variable {b : StateBlock} {tail : List UInt8}

/-- The text. The newline behind the last line is not part of it. -/
def text (b : StateBlock) : List UInt8 := b.lines.flatMap (· ++ [10]) ++ b.closing

/-- The server and the client make the same of the section, whatever stands behind it: they record
the same name and the same thresholds, and both go on behind its last line. -/
def Agree (b : StateBlock) : Prop :=
  ∀ tail : List UInt8, (∀ c ∈ tail.head?, c = 10) → ∃ name ts,
    parseState .new (allLines 10 (b.text ++ tail))
        = some (⟨some name, ts.map fun t => (t.level, t.fade)⟩, allLines 10 tail.tail) ∧
      ∀ n k (sys : System) soundPath (s : Loader n k), s.soundPath = some soundPath →
        Parses s (parserParseState sys (fgetsAll (b.text ++ tail))) (fgetsAll tail.tail)
          (loadState sys soundPath name ts)

/-- The words of the lines. -/
theorem words_eq_and (b : StateBlock) :
    b.lines.map (words isspace) = b.state.items.flatMap StateItem.words ∧
      words isspace b.closing = endLine "state" b.state.closing := by
  have h := b.words_eq
  rw [List.map_append, StateSection.body] at h
  obtain ⟨hlines, hclosing⟩ := List.append_inj' h rfl
  exact ⟨hlines, List.singleton_inj.mp hclosing⟩

/-- The last line, as it is read. -/
def lastRead (b : StateBlock) (tail : List UInt8) : CString := b.closing ++ tail.take 1

theorem words_lastRead (b : StateBlock) (htail : ∀ c ∈ tail.head?, c = 10) :
    words isspace (b.lastRead tail) = endLine "state" b.state.closing := by
  rw [← b.words_eq_and.2, lastRead]
  rcases tail with - | ⟨c, rest⟩
  · rw [List.take_nil, List.append_nil]
  · obtain rfl := htail c rfl
    exact words_append_blank b.closing (by decide)

theorem closing_ne_nil (b : StateBlock) : b.closing ≠ [] := by
  intro hnil
  have hwords := b.words_eq_and.2
  rw [hnil] at hwords
  cases hwords

/-- What the client reads. -/
theorem allLines_text (htail : ∀ c ∈ tail.head?, c = 10) :
    allLines 10 (b.text ++ tail)
      = b.lines.map (· ++ [10]) ++ b.lastRead tail :: allLines 10 tail.tail := by
  have hlines : ∀ line ∈ b.lines, 10 ∉ line := fun line hline =>
    (b.isText line (List.mem_cons_of_mem _ hline)).2
  have hclosing := (b.isText b.closing List.mem_cons_self).2
  rw [text, List.append_assoc, allLines_flatMap_append hlines, lastRead]
  rcases tail with - | ⟨c, rest⟩
  · rw [List.append_nil, allLines_of_not_mem hclosing b.closing_ne_nil]
    simp [allLines]
  · obtain rfl := htail c rfl
    rw [allLines_append hclosing]
    rfl

/-- What the server reads, if the lines fit into its buffer. -/
theorem fgetsAll_text (htail : ∀ c ∈ tail.head?, c = 10)
    (hlength : ∀ line ∈ b.closing :: b.lines, line.length < 1023) :
    fgetsAll (b.text ++ tail)
      = b.lines.map (· ++ [10]) ++ b.lastRead tail :: fgetsAll tail.tail := by
  have hlines : ∀ line ∈ b.lines, 10 ∉ line ∧ line.length < 1023 := fun line hline =>
    ⟨(b.isText line (List.mem_cons_of_mem _ hline)).2,
      hlength line (List.mem_cons_of_mem _ hline)⟩
  have hzero : ∀ line ∈ b.lines, 0 ∉ line := fun line hline =>
    (b.isText line (List.mem_cons_of_mem _ hline)).1
  obtain ⟨hclosingZero, hclosing⟩ := b.isText b.closing List.mem_cons_self
  have hm := hlength b.closing List.mem_cons_self
  rw [text, List.append_assoc, fgetsAll, readLines_flatMap_append hlines, List.map_append,
    map_untilZero hzero, lastRead]
  rcases tail with - | ⟨c, rest⟩
  · have hread : readLines 10 1023 b.closing = [b.closing] := by
      have h : readLines 10 1023 (([] : List CString).flatMap (· ++ [10]) ++ b.closing) = _ :=
        readLines_flatMap (fun _ h => nomatch h) ⟨hclosing, hm.le⟩
      rw [if_neg b.closing_ne_nil] at h
      exact h
    rw [List.append_nil, hread, List.map_singleton, untilZero_eq_self hclosingZero]
    simp [fgetsAll, readLines, readLinesLoop]
  · obtain rfl := htail c rfl
    have hzeroRead : 0 ∉ b.closing ++ [10] := fun h0 =>
      (List.mem_append.mp h0).elim hclosingZero (by simp)
    rw [readLines_append hclosing hm, List.map_cons, untilZero_eq_self hzeroRead]
    rfl

/-- The lines as they are read. -/
theorem isRead_lines (b : StateBlock) :
    List.Forall₂ IsRead (b.lines.map (· ++ [10])) (b.state.items.flatMap StateItem.words) := by
  rw [← b.words_eq_and.1, List.forall₂_map_left_iff, List.forall₂_map_right_iff]
  exact List.forall₂_same.mpr fun line _ =>
    ⟨words_append_blank line (by decide), List.getLast?_concat⟩

theorem spelled_lines (b : StateBlock) :
    Spelled (b.lines.map (· ++ [10])) (b.state.items.flatMap StateItem.words) := by
  refine List.Forall₂.imp (fun raw ws h => ?_) b.isRead_lines
  refine ⟨raw, rfl, fun c hc => ?_, h.1⟩
  obtain rfl := Option.some.inj (h.2.symm.trans hc)
  decide

/-- **With a threshold, the client stops too early.** -/
theorem not_agree (h : b.state.thresholds ≠ []) : ¬ b.Agree := by
  intro hagree
  obtain ⟨name, ts, hclient, -⟩ := hagree [] fun _ h => nomatch h
  obtain ⟨before, t, after, hitems, hbefore⟩ := exists_first_threshold h
  have hread := b.isRead_lines
  have hwords : b.state.items.flatMap StateItem.words
      = (before.flatMap StateItem.words ++
          (ascii "threshold" :: t.opening.words) :: t.lines.map ThresholdLine.words) ++
        endLine "threshold" t.closing :: after.flatMap StateItem.words := by
    rw [hitems]
    simp [StateItem.words, ThresholdBlock.words]
  rw [hwords] at hread
  obtain ⟨front, back, hlines, hfront, hback⟩ := exists_append_of_forall₂ hread
  obtain ⟨fin, rest, hfin, -, rfl⟩ := List.forall₂_cons_right_iff.mp hback
  have hgoes : ∀ ws ∈ before.flatMap StateItem.words ++
      (ascii "threshold" :: t.opening.words) :: t.lines.map ThresholdLine.words, Goes ws := by
    intro ws hws
    rcases List.mem_append.mp hws with hws | hws
    · obtain ⟨item, hitem, hws⟩ := List.mem_flatMap.mp hws
      exact StateItem.goes (hbefore item hitem) ws hws
    · exact t.goes ws hws
  have hnil : ∀ c ∈ ([] : List UInt8).head?, c = 10 := fun _ h => nomatch h
  rw [allLines_text hnil, hlines, List.append_assoc, List.cons_append,
    parseState_lines hfront hgoes, parseState_end hfin.1] at hclient
  obtain ⟨-, hleft⟩ := Prod.mk.inj (Option.some.inj hclient)
  exact absurd hleft (by simp [allLines])

/-- Without, it reads the section up to its end. -/
theorem parseState_text (b : StateBlock) (hnone : b.state.thresholds = [])
    (htail : ∀ c ∈ tail.head?, c = 10) :
    parseState .new (allLines 10 (b.text ++ tail))
      = some (⟨some b.state.name, []⟩, allLines 10 tail.tail) := by
  rw [allLines_text htail, parseState_items (List.filterMap_eq_nil_iff.mp hnone) b.isRead_lines,
    parseState_end (b.words_lastRead htail), b.state.names_eq]
  rfl

/-- **Then both make the same of it**, if the name is not taken for a threshold. -/
theorem agree (hlength : ∀ line ∈ b.closing :: b.lines, line.length < 1023)
    (hnone : b.state.thresholds = [])
    (hname : strcaseeq b.state.name (ascii "threshold") = false) : b.Agree := by
  intro tail htail
  refine ⟨b.state.name, [], b.parseState_text hnone htail, fun n k sys soundPath s _ => ?_⟩
  have hparse : Parses s _ _ (loadState sys soundPath b.state.name b.state.thresholds) :=
    parserParseState_parses b.state b.spelled_lines (b.words_lastRead htail) hname
      (by rw [hnone]; exact fun _ h => nomatch h) (fun hne => absurd hnone hne)
      (fgetsAll tail.tail)
  rw [fgetsAll_text htail hlength]
  rwa [hnone] at hparse

/-- A state without thresholds is loaded, or the server crashes. -/
theorem loadState_nil_ne {n k : ℕ} {sys : System} {soundPath name : CString} {s t : Loader n k} :
    loadState sys soundPath name [] s ≠ (some false, t) := by
  intro h
  obtain ⟨_, _, -, h⟩ := bind_eq_some_iff.mp h
  obtain ⟨_, _, -, h⟩ := bind_eq_some_iff.mp h
  obtain ⟨loaded, _, hloaded, h⟩ := bind_eq_some_iff.mp h
  obtain rfl := Option.some.inj (Prod.mk.inj hloaded).1
  obtain ⟨_, _, -, h⟩ := bind_eq_some_iff.mp h
  obtain ⟨_, _, -, h⟩ := bind_eq_some_iff.mp h
  obtain ⟨_, _, -, h⟩ := bind_eq_some_iff.mp h
  cases h

/-- A name that is taken for a threshold is not recorded by the server. -/
theorem not_agree_of_name (hlength : ∀ line ∈ b.closing :: b.lines, line.length < 1023)
    (hnone : b.state.thresholds = [])
    (hname : strcaseeq b.state.name (ascii "threshold") = true) : ¬ b.Agree := by
  intro hagree
  have hnil : ∀ c ∈ ([] : List UInt8).head?, c = 10 := fun _ h => nomatch h
  obtain ⟨name, ts, hclient, hserver⟩ := hagree [] hnil
  rw [b.parseState_text hnone hnil] at hclient
  obtain ⟨hstate, -⟩ := Prod.mk.inj (Option.some.inj hclient)
  obtain rfl : ts = [] := List.map_eq_nil_iff.mp (StateData.mk.inj hstate).2.symm
  let start : Loader 12 4 := { Loader.start 12 4 2000 with soundPath := some [] }
  obtain ⟨left, hleft⟩ := hserver 12 4 (oneFile []) [] start rfl
  rcases halloc : callMixer start.stateCnt
    (fun m => m.mixerAllocNewState start.stateCnt 0) start with ⟨- | status, t⟩
  · have hsome : (callMixer start.stateCnt
        (fun m => m.mixerAllocNewState start.stateCnt 0) start).1 = some .success := rfl
    rw [halloc] at hsome
    cases hsome
  · have htaken : parserParseState (oneFile []) (b.lines.map (· ++ [10]) ++ [b.lastRead []]) start
        = (some (false, []), t) :=
      parserParseState_taken b.state hnone hname b.spelled_lines (b.words_lastRead hnil) rfl halloc
    rw [fgetsAll_text hnil hlength] at hleft
    obtain ⟨ok, t', hload, hpure⟩ := bind_eq_some_iff.mp (hleft.symm.trans htaken)
    obtain ⟨hok, -⟩ := Prod.mk.inj (Option.some.inj (Prod.mk.inj hpure).1)
    exact loadState_nil_ne (hok ▸ hload)

/-- **The states of which the server and the client make the same**: those without thresholds,
unless the server takes the name for one. With thresholds, they never do, however long the lines
are. -/
theorem agree_iff_no_thresholds (b : StateBlock) : (b.state.thresholds ≠ [] → ¬ b.Agree) ∧
    ((∀ line ∈ b.closing :: b.lines, line.length < 1023) →
      (b.Agree ↔ b.state.thresholds = [] ∧
        strcaseeq b.state.name (ascii "threshold") = false)) := by
  refine ⟨not_agree, fun hlength => ⟨fun hagree => ?_, fun h => agree hlength h.1 h.2⟩⟩
  have hnone : b.state.thresholds = [] := by_contra fun hne => not_agree hne hagree
  refine ⟨hnone, ?_⟩
  by_contra hname
  rw [Bool.not_eq_false] at hname
  exact not_agree_of_name hlength hnone hname hagree

/-- The first threshold of the example in the documentation. -/
def playHalf : ThresholdBlock where
  opening := ⟨[], fun _ h => nomatch h⟩
  lines := [
    .level ⟨ascii "0.5", by decide⟩
      ⟨["#", "Play", "for", "measurments", "between", "0", "-", "0.5"].map ascii, by decide⟩,
    .remark ⟨["#", "of", "the", "maximum"].map ascii, by decide⟩,
    .path (ascii "wetlands/states/water-02") ⟨[], fun _ h => nomatch h⟩,
    .fade ⟨ascii "0.25", by decide⟩ ⟨[], fun _ h => nomatch h⟩]
  closing := []
  level := ascii "0.5"
  levels_eq := rfl
  path := ascii "wetlands/states/water-02"
  paths_eq := rfl
  fade := ascii "0.25"
  fades_eq := rfl

/-- The second one. -/
def playFull : ThresholdBlock where
  opening := ⟨[], fun _ h => nomatch h⟩
  lines := [
    .level ⟨ascii "1.00", by decide⟩
      ⟨["#", "Play", "between", "0.5-1.00", "of", "maximum"].map ascii, by decide⟩,
    .path (ascii "wetlands/states/water-01")
      ⟨["#", "This", "sound", "is", "more", "dramatic", "than", "the"].map ascii, by decide⟩,
    .remark ⟨["#", "first", "one"].map ascii, by decide⟩,
    .fade ⟨ascii "0.1", by decide⟩ ⟨[], fun _ h => nomatch h⟩]
  closing := []
  level := ascii "1.00"
  levels_eq := rfl
  path := ascii "wetlands/states/water-01"
  paths_eq := rfl
  fade := ascii "0.1"
  fades_eq := rfl

/-- The example. -/
def generalFeel : StateBlock where
  state :=
    { opening := ⟨[], fun _ h => nomatch h⟩
      items := [.name (ascii "general-feel") ⟨[], fun _ h => nomatch h⟩, .threshold playHalf,
        .threshold playFull]
      closing := []
      name := ascii "general-feel"
      names_eq := rfl }
  lines := ["  name general-feel", "  threshold",
    "    level 0.5                      # Play for measurments between 0 - 0.5",
    "                                   # of the maximum",
    "    path wetlands/states/water-02", "    fade 0.25", "  end threshold", "  threshold",
    "    level 1.00                      # Play between 0.5-1.00 of maximum",
    "    path wetlands/states/water-01   # This sound is more dramatic than the",
    "                                    # first one",
    "    fade 0.1", "  end threshold"].map ascii
  closing := ascii "end state"
  isText := by decide +kernel
  words_eq := by decide +kernel

/-- The client records none of the thresholds of the example, and goes on inside it. -/
theorem not_forall_agree : ¬ ∀ b : StateBlock, b.Agree := by
  intro h
  have hthresholds : generalFeel.state.thresholds ≠ [] := List.cons_ne_nil playHalf [playFull]
  exact not_agree hthresholds (h generalFeel)

end StateBlock

end Peep
