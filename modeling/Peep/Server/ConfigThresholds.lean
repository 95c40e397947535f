import Peep.Server.ConfigSections

/-!
# Parsing states

A state is parsed twice: a look-ahead counts the lines that begin with `threshold`, and the second
loop has its thresholds parsed by `parserParseThreshold`, which reads the lines up to its own end.

## Main results

* `lookAhead_eq` — the look-ahead counts the thresholds
* `parserParseThreshold_parses` — a threshold
* `parserParseState_parses` — a state
-/

namespace Peep

open Bytes Decimal Program Text

variable {n k : ℕ} {sys : System} {line last : CString} {r : Option CString} {tok : Tok}
  {w : CString} {ws more : List CString} {keyword : String} {rest raws : List CString}
  {s : Loader n k} {soundPath : CString}

/-! ## The look-ahead -/

/-- A line that the look-ahead counts. -/
def opensThreshold (ws : List CString) : Bool :=
  ws.head?.any fun w => strcaseeq w (ascii "threshold")

/-- A line that does not end a state. -/
def StaysInState (ws : List CString) : Prop :=
  ∀ w more, ws = w :: more → strcaseeq w (ascii "end") = true →
    ∀ kind ∈ more.head?, strcaseeq kind (ascii "state") = false

/-- **A line that does not end the state.** -/
theorem lookAhead_cons (h : Holds (some line) ws) (hws : StaysInState ws) (lines : List CString)
    (threshCnt : ℕ) :
    lookAhead (line :: lines) threshCnt
      = lookAhead lines (if opensThreshold ws then threshCnt + 1 else threshCnt) := by
  rcases ws with - | ⟨w, more⟩
  · rw [lookAhead, h.nil]
    rfl
  · obtain ⟨tok, htok, hw, hrest⟩ := h.cons
    have hopens : opensThreshold (w :: more) = tok.is "threshold" := by rw [Tok.is, hw]; rfl
    rw [lookAhead, htok, hopens]
    rcases hend : tok.is "end" with - | -
    · rw [Option.bind_eq_bind, Option.bind_some, if_neg (by rw [hend]; decide)]
    · rw [Option.bind_eq_bind, Option.bind_some, if_pos hend]
      rw [Tok.is, hw] at hend
      rcases more with - | ⟨kind, more⟩
      · rw [hrest.nil]
        rfl
      · obtain ⟨next, hnext, hkind, -⟩ := hrest.cons
        have hstate : next.is "state" = false := by
          rw [Tok.is, hkind]
          exact hws w (kind :: more) rfl hend kind rfl
        rw [hnext, Option.bind_some, if_neg (by rw [hstate]; decide)]

/-- **The look-ahead counts the thresholds.** -/
theorem lookAhead_eq {lines : List (List CString)} (hlines : Spelled raws lines)
    (hstays : ∀ ws ∈ lines, StaysInState ws) (hlast : words isspace last = endLine "state" more)
    (rest : List CString) (threshCnt : ℕ) :
    lookAhead (raws ++ last :: rest) threshCnt
      = some (threshCnt + lines.countP opensThreshold, true) := by
  induction lines generalizing raws threshCnt with
  | nil =>
    obtain rfl := List.forall₂_nil_right_iff.mp hlines
    obtain ⟨tok, htok, hend, next, hnext, hstate⟩ := parserTokenize_endLine hlast
    have hthreshold : tok.is "threshold" = false := (Tok.is_of_eq hend _).trans (by decide)
    have hendIs : tok.is "end" = true := Tok.is_self hend
    have hstateIs : next.is "state" = true := Tok.is_self hstate
    simp [lookAhead, htok, hthreshold, hendIs, hnext, hstateIs]
  | cons ws lines ih =>
    obtain ⟨raw, raws, hraw, hraws, rfl⟩ := List.forall₂_cons_right_iff.mp hlines
    rw [List.cons_append, lookAhead_cons hraw (hstays ws List.mem_cons_self),
      ih hraws (fun ws hws => hstays ws (List.mem_cons_of_mem _ hws)), List.countP_cons]
    split_ifs with hopens
    · rw [Nat.add_assoc, Nat.add_comm 1]
    · rfl

theorem staysInState_of_head (h : ∀ w ∈ ws.head?, strcaseeq w (ascii "end") = false) :
    StaysInState ws := by
  rintro w more rfl hend
  rw [h w rfl] at hend
  cases hend

/-- A word that is no keyword, as the first of a line. -/
theorem strcaseeq_of_isPlain (h : isPlain w = true) (hkeyword : isKeyword keyword = true) :
    strcaseeq w (ascii keyword) = false := by
  show Tok.is ⟨w, none⟩ keyword = false
  exact Tok.is_eq_false h hkeyword

theorem Remark.strcaseeq_head (remark : Remark) (hkeyword : isKeyword keyword = true) :
    ∀ w ∈ remark.words.head?, strcaseeq w (ascii keyword) = false :=
  fun _ hw => strcaseeq_of_isPlain (remark.isPlain hw) hkeyword

theorem ThresholdLine.strcaseeq_head (l : ThresholdLine) (hkeyword : isKeyword keyword = true)
    (h : ∀ own ∈ ["level", "path", "fade"], strcaseeq (ascii own) (ascii keyword) = false) :
    ∀ w ∈ l.words.head?, strcaseeq w (ascii keyword) = false := by
  cases l with
  | level level remark =>
    rintro _ ⟨⟩
    exact h "level" (by simp)
  | path path remark =>
    rintro _ ⟨⟩
    exact h "path" (by simp)
  | fade fade remark =>
    rintro _ ⟨⟩
    exact h "fade" (by simp)
  | remark remark => exact remark.strcaseeq_head hkeyword

/-- A line whose first word is no `threshold` is not counted. -/
theorem opensThreshold_of_head (h : ∀ w ∈ ws.head?, strcaseeq w (ascii "threshold") = false) :
    opensThreshold ws = false := by
  rw [opensThreshold]
  cases hws : ws.head? with
  | none => rfl
  | some w => exact h w hws

/-- A threshold does not end the state. -/
theorem ThresholdBlock.staysInState (t : ThresholdBlock) : ∀ ws ∈ t.words, StaysInState ws := by
  intro ws hws
  rcases List.mem_cons.mp hws with rfl | hws
  · exact staysInState_of_head (by rintro _ ⟨⟩; decide)
  · rcases List.mem_append.mp hws with hws | hws
    · obtain ⟨l, -, rfl⟩ := List.mem_map.mp hws
      exact staysInState_of_head (l.strcaseeq_head (by decide) (by decide))
    · obtain rfl := List.mem_singleton.mp hws
      rintro _ _ ⟨⟩ - _ ⟨⟩
      decide

/-- It is counted once. -/
theorem ThresholdBlock.countP_words (t : ThresholdBlock) :
    t.words.countP opensThreshold = 1 := by
  have hlines : (t.lines.map ThresholdLine.words).countP opensThreshold = 0 := by
    rw [List.countP_eq_zero]
    rintro ws hws
    obtain ⟨l, -, rfl⟩ := List.mem_map.mp hws
    rw [opensThreshold_of_head (l.strcaseeq_head (by decide) (by decide))]
    exact Bool.false_ne_true
  rw [words, List.countP_cons, List.countP_append, hlines]
  rfl

/-- Nothing that a state consists of ends it. -/
theorem StateItem.staysInState (item : StateItem) : ∀ ws ∈ item.words, StaysInState ws := by
  cases item with
  | name w remark =>
    intro ws hws
    obtain rfl := List.mem_singleton.mp hws
    exact staysInState_of_head (by rintro _ ⟨⟩; decide)
  | threshold t => exact t.staysInState
  | remark remark =>
    intro ws hws
    obtain rfl := List.mem_singleton.mp hws
    exact staysInState_of_head (remark.strcaseeq_head (by decide))

theorem StateItem.countP_words (item : StateItem) :
    item.words.countP opensThreshold = item.threshold?.toList.length := by
  cases item with
  | name w remark => rfl
  | threshold t => exact t.countP_words
  | remark remark =>
    have hremark : opensThreshold remark.words = false :=
      opensThreshold_of_head (remark.strcaseeq_head (by decide))
    rw [StateItem.words, List.countP_singleton, hremark]
    rfl

/-- The number of thresholds. -/
theorem countP_flatMap_words (items : List StateItem) :
    (items.flatMap StateItem.words).countP opensThreshold
      = (items.filterMap StateItem.threshold?).length := by
  induction items with
  | nil => rfl
  | cons item items ih =>
    rw [List.flatMap_cons, List.countP_append, ih, item.countP_words, List.filterMap_cons]
    cases item.threshold? with
    | none => exact Nat.zero_add _
    | some t => exact Nat.add_comm _ _

/-! ## Thresholds -/

/-- What a line of a threshold sets, if the lower bound is known. -/
def ThresholdLine.set (sys : System) (soundPath : CString) (lBound : ℚ) (v : ThresholdVars) :
    ThresholdLine → ThresholdVars
  | .level w _ => { v with lBound := lBound, hBound := sys.strtod w.text }
  | .path w _ => { v with path := some (soundPath ++ w) }
  | .fade w _ => { v with fade := sys.strtod w.text }
  | .remark _ => v

/-- **A line of a threshold.** -/
theorem parserParseThreshold_cons {l : ThresholdLine} {lBound : ℚ} {threshCnt : ℕ}
    (h : Holds (some line) l.words) (hl : ∀ w ∈ l.path?, strcaseeq w (ascii "fade") = false)
    (hs : s.soundPath = some soundPath)
    (hlower : ∀ level ∈ l.level?, lowerBound threshCnt s = (some lBound, s))
    (lines : List CString) (v : ThresholdVars) :
    parserParseThreshold sys threshCnt (line :: lines) v s
      = parserParseThreshold sys threshCnt lines (l.set sys soundPath lBound v) s := by
  rw [parserParseThreshold]
  cases l with
  | level level remark =>
    obtain ⟨tok, htok, hkeyword, next, hnext, hw, hremark⟩ := Holds.keyLine h
    have hcomment : tok.isComment = false := Tok.isComment_of_eq hkeyword (by decide)
    have hplain : isPlain next.token = true := hw ▸ isPlain_of_isNumeric level.isNumeric
    have hlevel : parseLevel sys threshCnt tok v s
        = (some (next, { v with lBound := lBound, hBound := sys.strtod next.token }), s) := by
      rw [parseLevel, if_pos (Tok.is_self hkeyword), tokenize_of_some hnext,
        pure_bind_apply, bind_of_some (hlower _ rfl)]
      rfl
    have hkeyword (keyword : String) (hkeyword : isKeyword keyword = true) :
        next.is keyword = false := Tok.is_eq_false hplain hkeyword
    simp only [tokenize_of_some htok, pure_bind_apply, hcomment, Bool.false_eq_true, if_false,
      bind_of_some hlevel, parsePath, hkeyword "path" (by decide), parseFade,
      hkeyword "fade" (by decide), isEndOf_of_not (hkeyword "end" (by decide)), hw,
      ThresholdLine.set]
  | path w remark =>
    obtain ⟨tok, htok, hkeyword, next, hnext, hw, hremark⟩ := Holds.keyLine h
    have hcomment : tok.isComment = false := Tok.isComment_of_eq hkeyword (by decide)
    have hlevel : tok.is "level" = false := (Tok.is_of_eq hkeyword _).trans (by decide)
    have hpath : parsePath tok v.path s = (some (next, some (soundPath ++ w)), s) := by
      rw [parsePath, if_pos (Tok.is_self hkeyword), tokenize_of_some hnext,
        pure_bind_apply, get_bind, hs, hw]
      rfl
    have hfade : next.is "fade" = false := by rw [Tok.is, hw]; exact hl w rfl
    simp only [tokenize_of_some htok, pure_bind_apply, hcomment, Bool.false_eq_true, if_false,
      parseLevel, hlevel, bind_of_some hpath, parseFade, hfade,
      isEndOf_of_remark hremark (show isKeyword "threshold" = true by decide), ThresholdLine.set]
  | fade fade remark =>
    obtain ⟨tok, htok, hkeyword, next, hnext, hw, hremark⟩ := Holds.keyLine h
    have hcomment : tok.isComment = false := Tok.isComment_of_eq hkeyword (by decide)
    have hlevel : tok.is "level" = false := (Tok.is_of_eq hkeyword _).trans (by decide)
    have hpath : tok.is "path" = false := (Tok.is_of_eq hkeyword _).trans (by decide)
    have hfade : tok.is "fade" = true := Tok.is_self hkeyword
    simp only [tokenize_of_some htok, pure_bind_apply, hcomment, Bool.false_eq_true, if_false,
      parseLevel, hlevel, parsePath, hpath, parseFade, hfade, if_true, tokenize_of_some hnext,
      isEndOf_of_remark hremark (show isKeyword "threshold" = true by decide), hw,
      ThresholdLine.set]
  | remark remark =>
    obtain ⟨tok, htok, hplain⟩ := h.remarkLine
    have hkeyword (keyword : String) (hkeyword : isKeyword keyword = true) :
        tok.is keyword = false := Tok.is_eq_false hplain hkeyword
    simp only [tokenize_of_some htok, pure_bind_apply, parseLevel, hkeyword "level" (by decide),
      Bool.false_eq_true, if_false, parsePath, hkeyword "path" (by decide), parseFade,
      hkeyword "fade" (by decide), isEndOf_of_not (hkeyword "end" (by decide)), ite_self,
      ThresholdLine.set]

/-- A level without a lower bound. -/
theorem parserParseThreshold_cons_level {level : NumericWord} {remark : Remark} {threshCnt : ℕ}
    (h : Holds (some line) (ThresholdLine.level level remark).words)
    (hlower : lowerBound threshCnt s = (none, s)) (lines : List CString) (v : ThresholdVars) :
    parserParseThreshold sys threshCnt (line :: lines) v s = (none, s) := by
  obtain ⟨tok, htok, hkeyword, next, hnext, -⟩ := Holds.keyLine h
  have hcomment : tok.isComment = false := Tok.isComment_of_eq hkeyword (by decide)
  have hlevel : parseLevel sys threshCnt tok v s = (none, s) := by
    rw [parseLevel, if_pos (Tok.is_self hkeyword), tokenize_of_some hnext,
      pure_bind_apply, bind_of_none hlower]
  rw [parserParseThreshold, tokenize_of_some htok, pure_bind_apply, hcomment,
    if_neg Bool.false_ne_true, bind_of_none hlevel]

/-- The lines of a threshold, if the lower bound is known. -/
theorem parserParseThreshold_lines {lines : List ThresholdLine} {lBound : ℚ} {threshCnt : ℕ}
    (hlines : Spelled raws (lines.map ThresholdLine.words))
    (hpaths : ∀ w ∈ lines.filterMap ThresholdLine.path?, strcaseeq w (ascii "fade") = false)
    (hs : s.soundPath = some soundPath) (hlower : lowerBound threshCnt s = (some lBound, s))
    (left : List CString) (v : ThresholdVars) :
    parserParseThreshold sys threshCnt (raws ++ left) v s
      = parserParseThreshold sys threshCnt left
          (lines.foldl (ThresholdLine.set sys soundPath lBound) v) s := by
  induction lines generalizing raws v with
  | nil =>
    obtain rfl := List.forall₂_nil_right_iff.mp hlines
    rfl
  | cons l lines ih =>
    obtain ⟨raw, raws, hraw, hraws, rfl⟩ := List.forall₂_cons_right_iff.mp hlines
    have hl : ∀ w ∈ l.path?, strcaseeq w (ascii "fade") = false := fun w hw =>
      hpaths w (List.mem_filterMap.mpr ⟨l, List.mem_cons_self, hw⟩)
    rw [List.cons_append, parserParseThreshold_cons hraw hl hs fun _ _ => hlower]
    refine ih hraws (fun w hw => hpaths w ?_) _
    obtain ⟨l', hl', hw⟩ := List.mem_filterMap.mp hw
    exact List.mem_filterMap.mpr ⟨l', List.mem_cons_of_mem _ hl', hw⟩

/-- The lines of a threshold without a lower bound. -/
theorem parserParseThreshold_lines_none {lines : List ThresholdLine} {threshCnt : ℕ}
    (hlines : Spelled raws (lines.map ThresholdLine.words))
    (hpaths : ∀ w ∈ lines.filterMap ThresholdLine.path?, strcaseeq w (ascii "fade") = false)
    (hs : s.soundPath = some soundPath) (hlower : lowerBound threshCnt s = (none, s))
    (hlevels : lines.filterMap ThresholdLine.level? ≠ []) (left : List CString)
    (v : ThresholdVars) :
    parserParseThreshold sys threshCnt (raws ++ left) v s = (none, s) := by
  induction lines generalizing raws v with
  | nil => exact absurd rfl hlevels
  | cons l lines ih =>
    obtain ⟨raw, raws, hraw, hraws, rfl⟩ := List.forall₂_cons_right_iff.mp hlines
    have hl : ∀ w ∈ l.path?, strcaseeq w (ascii "fade") = false := fun w hw =>
      hpaths w (List.mem_filterMap.mpr ⟨l, List.mem_cons_self, hw⟩)
    have hpaths' : ∀ w ∈ lines.filterMap ThresholdLine.path?,
        strcaseeq w (ascii "fade") = false := by
      intro w hw
      obtain ⟨l', hl', hw⟩ := List.mem_filterMap.mp hw
      exact hpaths w (List.mem_filterMap.mpr ⟨l', List.mem_cons_of_mem _ hl', hw⟩)
    rw [List.cons_append]
    cases hlevel : l.level? with
    | some level =>
      cases l with
      | level level remark => exact parserParseThreshold_cons_level hraw hlower _ v
      | _ => cases hlevel
    | none =>
      have hnone : ∀ level ∈ l.level?, lowerBound threshCnt s = (some 0, s) := by
        rw [hlevel]
        exact fun _ h => nomatch h
      rw [parserParseThreshold_cons hraw hl hs hnone]
      rw [List.filterMap_cons, hlevel] at hlevels
      exact ih hraws hpaths' hlevels _

/-- What the lines of a threshold set. -/
theorem ThresholdLine.foldl_set (sys : System) (soundPath : CString) (lBound : ℚ)
    (lines : List ThresholdLine) (v : ThresholdVars) :
    lines.foldl (ThresholdLine.set sys soundPath lBound) v
      = ⟨(lines.filterMap ThresholdLine.level?).foldl (fun _ _ => lBound) v.lBound,
          (lines.filterMap ThresholdLine.level?).foldl (fun _ w => sys.strtod w) v.hBound,
          (lines.filterMap ThresholdLine.fade?).foldl (fun _ w => sys.strtod w) v.fade,
          (lines.filterMap ThresholdLine.path?).foldl (fun _ w => some (soundPath ++ w))
            v.path⟩ := by
  induction lines generalizing v with
  | nil => rfl
  | cons l lines ih => cases l <;> exact ih _

/-- The lower bound is there, or not. -/
theorem lowerBound_cases (threshCnt : ℕ) (s : Loader n k) :
    lowerBound threshCnt s = (none, s) ∨ ∃ lBound, lowerBound threshCnt s = (some lBound, s) := by
  rw [lowerBound, get_bind]
  split_ifs with hcnt
  · cases getHBound s.mixer s.stateCnt (threshCnt - 1) with
    | none => exact .inl rfl
    | some lBound => exact .inr ⟨lBound, rfl⟩
  · exact .inr ⟨0, rfl⟩

/-- **A threshold.** -/
theorem parserParseThreshold_parses (t : ThresholdBlock) (threshCnt : ℕ)
    (hlines : Spelled raws (t.lines.map ThresholdLine.words))
    (hlast : words isspace last = endLine "threshold" more)
    (hpath : strcaseeq t.path (ascii "fade") = false) (hs : s.soundPath = some soundPath)
    (rest : List CString) :
    Parses s (parserParseThreshold sys threshCnt (raws ++ last :: rest) .start) rest
      (loadThreshold sys soundPath threshCnt t) := by
  have hpaths : ∀ w ∈ t.lines.filterMap ThresholdLine.path?,
      strcaseeq w (ascii "fade") = false := by
    rw [t.paths_eq]
    exact fun w hw => List.mem_singleton.mp hw ▸ hpath
  refine ⟨rest, ?_⟩
  rw [loadThreshold, bind_assoc]
  rcases lowerBound_cases threshCnt s with hlower | ⟨lBound, hlower⟩
  · rw [parserParseThreshold_lines_none hlines hpaths hs hlower (by rw [t.levels_eq]; simp),
      bind_of_none hlower]
  · obtain ⟨tok, htok, hend, hends⟩ := isEndOf_endLine (n := n) (k := k) hlast
    have hcomment : tok.isComment = false := Tok.isComment_of_eq hend (by decide)
    have hlevelNot : tok.is "level" = false := (Tok.is_of_eq hend _).trans (by decide)
    have hpathNot : tok.is "path" = false := (Tok.is_of_eq hend _).trans (by decide)
    have hfadeNot : tok.is "fade" = false := (Tok.is_of_eq hend _).trans (by decide)
    rw [parserParseThreshold_lines hlines hpaths hs hlower, bind_of_some hlower,
      ThresholdLine.foldl_set, t.levels_eq, t.fades_eq, t.paths_eq]
    simp only [parserParseThreshold, tokenize_of_some htok, pure_bind_apply, hcomment,
      Bool.false_eq_true, if_false, parseLevel, hlevelNot, parsePath, hpathNot, parseFade, hfadeNot,
      hends, if_true, List.foldl_cons, List.foldl_nil]
    by_cases hzero : sys.strtod t.level = 0
    · rw [if_neg fun h => h.2 hzero, if_pos hzero]
      rfl
    · rw [if_pos ⟨Option.some_ne_none _, hzero⟩, if_neg hzero]
      simp only [ite_self]

/-! ## States -/

/-- The line with the name. -/
theorem parseStateLoop_name {remark : Remark} (h : Holds (some line) (keyLine "name" w remark))
    (hw : strcaseeq w (ascii "threshold") = false) (turns : ℕ) (lines : List CString)
    (name : Option CString) (tCount : ℕ) :
    (parseStateLoop sys (turns + 1) (line :: lines) name tCount : Program (Loader n k) _)
      = parseStateLoop sys turns lines (some w) tCount := by
  obtain ⟨tok, htok, hkeyword, next, hnext, htoken, hremark⟩ := Holds.keyLine h
  have hcomment : tok.isComment = false := Tok.isComment_of_eq hkeyword (by decide)
  have hname : tok.is "name" = true := Tok.is_self hkeyword
  have hthreshold : next.is "threshold" = false := by rw [Tok.is, htoken, hw]
  simp only [parseStateLoop, tokenize_of_some htok, pure_bind_apply, hcomment, Bool.false_eq_true,
    if_false, parseName, hname, if_true, tokenize_of_some hnext, parseThreshold, hthreshold,
    Bool.not_true, isEndOf_of_remark hremark (show isKeyword "state" = true by decide), htoken]

/-- A remark. -/
theorem parseStateLoop_remark {remark : Remark} (h : Holds (some line) remark.words) (turns : ℕ)
    (lines : List CString) (name : Option CString) (tCount : ℕ) :
    (parseStateLoop sys (turns + 1) (line :: lines) name tCount : Program (Loader n k) _)
      = parseStateLoop sys turns lines name tCount := by
  obtain ⟨tok, htok, hplain⟩ := h.remarkLine
  have hkeyword (keyword : String) (hkeyword : isKeyword keyword = true) :
      tok.is keyword = false := Tok.is_eq_false hplain hkeyword
  simp only [parseStateLoop, tokenize_of_some htok, pure_bind_apply, parseName,
    hkeyword "name" (by decide), Bool.false_eq_true, if_false, parseThreshold,
    hkeyword "threshold" (by decide), Bool.not_true, isEndOf_of_not (hkeyword "end" (by decide)),
    ite_self]

/-- The line that opens a threshold. -/
theorem parseStateLoop_threshold (h : Holds (some line) (ascii "threshold" :: more)) (turns : ℕ)
    (lines : List CString) (name : Option CString) (tCount : ℕ) :
    (parseStateLoop sys (turns + 1) (line :: lines) name tCount : Program (Loader n k) _)
      = parserParseThreshold sys tCount lines .start >>= fun parsed =>
          if parsed.1 then parseStateLoop sys turns parsed.2 name (tCount + 1)
          else pure (false, parsed.2) := by
  obtain ⟨tok, htok, hkeyword, -⟩ := h.cons
  have hcomment : tok.isComment = false := Tok.isComment_of_eq hkeyword (by decide)
  have hname : tok.is "name" = false := (Tok.is_of_eq hkeyword _).trans (by decide)
  have hthreshold : tok.is "threshold" = true := Tok.is_self hkeyword
  have hend : tok.is "end" = false := (Tok.is_of_eq hkeyword _).trans (by decide)
  simp only [parseStateLoop, tokenize_of_some htok, pure_bind_apply, hcomment, Bool.false_eq_true,
    if_false, parseName, hname, parseThreshold, hthreshold, if_true, bind_assoc,
    isEndOf_of_not hend]
  congr 1
  funext parsed
  rcases parsed with ⟨- | -, left⟩ <;> rfl

/-- What the sections set that load no sounds. -/
structure Settings where
  /-- `sound_path`. -/
  soundPath : Option CString
  /-- `broadcast_list`. -/
  ports : List Int32
  /-- `identifier`. -/
  identifier : Option CString
  /-- `port`. -/
  port : Int32

/-- The settings of the server. -/
def Loader.settings (s : Loader n k) : Settings := ⟨s.soundPath, s.ports, s.identifier, s.port⟩

/-- The settings are these. -/
def HasSettings (c : Settings) (s : Loader n k) : Prop := s.settings = c

/-- Loading sounds does not change the settings. -/
theorem stable_hasSettings (c : Settings) : Loader.Stable (HasSettings (n := n) (k := k) c) where
  mixer _ _ h _ := h
  skip _ h _ := h
  event _ _ _ _ _ h _ := h
  trans _ _ h := h
  count _ _ h := h

theorem carries_loadThreshold {P : Loader n k → Prop} (hP : Loader.Stable P) (threshCnt : ℕ)
    (t : ThresholdBlock) : Carries P P (loadThreshold sys soundPath threshCnt t) := by
  refine Carries.next (carries_get_bind fun s hs => ?_) fun lBound => ?_
  · exact carries_ite (fun _ => carries_ofOption (fun _ h => h) _)
      (fun _ => carries_pure (fun _ h => h) _) s hs
  · exact carries_ite (fun _ => carries_crash fun _ h => h)
      fun _ => hP.carries_parserLoadStateSndDir sys _ _ _ _ _

/-- The first threshold, and what comes behind it. -/
theorem loadThresholds_cons_bind (threshCnt : ℕ) (t : ThresholdBlock) (ts : List ThresholdBlock)
    (q : Program (Loader n k) Bool) :
    (loadThresholds sys soundPath threshCnt (t :: ts) >>= fun loaded =>
        if loaded then q else pure false)
      = loadThreshold sys soundPath threshCnt t >>= fun loaded =>
          if loaded then
            loadThresholds sys soundPath (threshCnt + 1) ts >>= fun loaded =>
              if loaded then q else pure false
          else pure false := by
  rw [loadThresholds, bind_assoc]
  refine congrArg _ (funext fun loaded => ?_)
  cases loaded <;> rfl

/-- The line that ends a state. -/
theorem parseStateLoop_end (hlast : words isspace last = endLine "state" more)
    (rest : List CString) (turns : ℕ) (name : Option CString) (tCount : ℕ) :
    Parses s (parseStateLoop sys (turns + 1) (last :: rest) name tCount) rest
      (registerState name) := by
  obtain ⟨tok, htok, hend, hends⟩ := isEndOf_endLine (n := n) (k := k) hlast
  have hcomment : tok.isComment = false := Tok.isComment_of_eq hend (by decide)
  have hnameNot : tok.is "name" = false := (Tok.is_of_eq hend _).trans (by decide)
  have hthreshold : tok.is "threshold" = false := (Tok.is_of_eq hend _).trans (by decide)
  simp only [parseStateLoop, tokenize_of_some htok, pure_bind_apply, hcomment,
    Bool.false_eq_true, if_false, parseName, hnameNot, parseThreshold, hthreshold, Bool.not_true,
    hends, if_true]
  exact .returns s rest _

/-- **The lines of a state.** -/
theorem parseStateLoop_parses {items : List StateItem}
    (hlines : Spelled raws (items.flatMap StateItem.words))
    (hnames : ∀ w ∈ items.filterMap StateItem.name?, strcaseeq w (ascii "threshold") = false)
    (hpaths : ∀ t ∈ items.filterMap StateItem.threshold?, strcaseeq t.path (ascii "fade") = false)
    (hs : items.filterMap StateItem.threshold? ≠ [] → s.soundPath = some soundPath)
    (hlast : words isspace last = endLine "state" more) (rest : List CString) {turns : ℕ}
    (hturns : (raws ++ last :: rest).length ≤ turns) (name : Option CString) (tCount : ℕ) :
    Parses s (parseStateLoop sys turns (raws ++ last :: rest) name tCount) rest
      (loadThresholds sys soundPath tCount (items.filterMap StateItem.threshold?) >>= fun loaded =>
        if loaded then
          registerState ((items.filterMap StateItem.name?).foldl (fun _ w => some w) name)
        else pure false) := by
  induction items generalizing raws s turns name tCount with
  | nil =>
    obtain rfl := List.forall₂_nil_right_iff.mp hlines
    obtain ⟨turns, rfl⟩ := Nat.exists_eq_add_one_of_ne_zero (Nat.ne_zero_of_lt hturns)
    exact parseStateLoop_end hlast rest turns name tCount
  | cons item items ih =>
    obtain ⟨front, back, rfl, hfront, hback⟩ := hlines.append
    cases item with
    | name w remark =>
      obtain ⟨raw, rfl, hraw⟩ := Spelled.singleton hfront
      obtain ⟨turns, rfl⟩ := Nat.exists_eq_add_one_of_ne_zero (Nat.ne_zero_of_lt hturns)
      rw [List.cons_append, List.cons_append, List.nil_append,
        parseStateLoop_name hraw (hnames w List.mem_cons_self)]
      exact ih hback (fun w hw => hnames w (List.mem_cons_of_mem _ hw)) hpaths hs
        (Nat.le_of_succ_le_succ hturns) _ _
    | remark remark =>
      obtain ⟨raw, rfl, hraw⟩ := Spelled.singleton hfront
      obtain ⟨turns, rfl⟩ := Nat.exists_eq_add_one_of_ne_zero (Nat.ne_zero_of_lt hturns)
      rw [List.cons_append, List.cons_append, List.nil_append, parseStateLoop_remark hraw]
      exact ih hback hnames hpaths hs (Nat.le_of_succ_le_succ hturns) _ _
    | threshold t =>
      obtain ⟨raw, block, hraw, hblock, rfl⟩ := List.forall₂_cons_right_iff.mp hfront
      obtain ⟨mid, closing, rfl, hmid, hclosing⟩ := Spelled.append hblock
      obtain ⟨fin, rfl, _, ⟨⟩, -, hfin⟩ := Spelled.singleton hclosing
      obtain ⟨turns, rfl⟩ := Nat.exists_eq_add_one_of_ne_zero (Nat.ne_zero_of_lt hturns)
      have hpath := hs (List.cons_ne_nil _ _)
      have hparse : Parses s _ _ (loadThreshold sys soundPath tCount t) :=
        parserParseThreshold_parses t tCount hmid hfin (hpaths t List.mem_cons_self) hpath
          (back ++ last :: rest)
      have hlength : (back ++ last :: rest).length ≤ turns := by
        simp only [List.cons_append, List.append_assoc, List.length_cons, List.length_append]
          at hturns ⊢
        omega
      have hlines : (raw :: (mid ++ [fin]) ++ back) ++ last :: rest
          = raw :: (mid ++ fin :: (back ++ last :: rest)) := by simp
      show Parses s _ rest (loadThresholds sys soundPath tCount
        (t :: items.filterMap StateItem.threshold?) >>= _)
      rw [hlines, parseStateLoop_threshold hraw, loadThresholds_cons_bind]
      refine hparse.nested
        (f := fun lines => parseStateLoop sys turns lines name (tCount + 1)) fun s' hs' => ?_
      refine ih hback hnames (fun t ht => hpaths t (List.mem_cons_of_mem _ ht)) (fun _ => ?_)
        hlength name (tCount + 1)
      have hleads : HasSettings s.settings (loadThreshold sys soundPath tCount t s).2 :=
        carries_loadThreshold (stable_hasSettings s.settings) tCount t s rfl
      rw [hs'] at hleads
      exact (congrArg Settings.soundPath hleads).trans hpath

theorem carries_callMixer_hasSettings (c : Settings) (state : ℕ)
    (f : Mixer n k → Option (MixerStatus × Mixer n k)) :
    Carries (HasSettings c) (HasSettings c) (callMixer state f) := fun s hs =>
  callMixer_leads (P := HasSettings c) (s := s) fun _ => hs

/-- **A state.** -/
theorem parserParseState_parses (x : StateSection)
    (hlines : Spelled raws (x.items.flatMap StateItem.words))
    (hlast : words isspace last = endLine "state" more)
    (hname : strcaseeq x.name (ascii "threshold") = false)
    (hpaths : ∀ t ∈ x.thresholds, strcaseeq t.path (ascii "fade") = false)
    (hs : x.thresholds ≠ [] → s.soundPath = some soundPath) (rest : List CString) :
    Parses s (parserParseState sys (raws ++ last :: rest)) rest
      (loadState sys soundPath x.name x.thresholds) := by
  have hstays : ∀ ws ∈ x.items.flatMap StateItem.words, StaysInState ws := by
    intro ws hws
    obtain ⟨item, -, hws⟩ := List.mem_flatMap.mp hws
    exact item.staysInState ws hws
  have hlook : lookAhead (raws ++ last :: rest) 0 = some (x.thresholds.length, true) := by
    rw [lookAhead_eq hlines hstays hlast, countP_flatMap_words, Nat.zero_add]
    rfl
  have hnames : ∀ w ∈ x.items.filterMap StateItem.name?,
      strcaseeq w (ascii "threshold") = false := by
    rw [x.names_eq]
    exact fun w hw => List.mem_singleton.mp hw ▸ hname
  have hregister : some x.name
      = (x.items.filterMap StateItem.name?).foldl (fun _ w => some w) none := by
    rw [x.names_eq]
    rfl
  rw [parserParseState, hlook, loadState, hregister, ofOption_some, pure_bind_apply]
  refine Parses.get (Parses.bind fun status t ht => ?_)
  have hpath : x.thresholds ≠ [] → t.soundPath = some soundPath := by
    intro hne
    have hleads := carries_callMixer_hasSettings s.settings s.stateCnt
      (fun m : Mixer n k => m.mixerAllocNewState s.stateCnt x.thresholds.length) s rfl
    rw [ht] at hleads
    exact (congrArg Settings.soundPath hleads).trans (hs hne)
  exact parseStateLoop_parses hlines hnames hpaths hpath hlast rest le_rfl none 0

end Peep
