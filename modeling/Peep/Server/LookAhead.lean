import Peep.Server.ConfigThresholds

/-!
# The thresholds of a state

`parserParseState` (`parser.c`) reads a state twice: once to count its thresholds, for which it has
the mixer allocate memory, and once to load them. The two passes do not ask the same. The first one
looks at the first word of each line only, up to the first line `end state`. The second one takes
the word behind `name` for a keyword too, and leaves the lines of a threshold to
`parserParseThreshold`, which goes on until `end threshold`, past the end of the state if need be.

So a threshold may be begun where none was counted, and its index is then one behind the memory.

## Choices

The second pass is repeated here with a log for the indices that are passed, which can be erased.
Where thresholds are begun is a matter of the text and of `strtod`, as long as sounds can be loaded:
a threshold with the level zero ends the program. Lines are counted from the end of the file.
Where the look-ahead finds the end of the state is a condition on the lines, too (`HasEnd`).

## Main results

* `erases_parserParseStateLogged` — the program is the one in `Config` but for the log
* `lookAhead_eq_counted`, `mem_counted_iff` — what the first pass counts, and at which lines
* `hasEnd_iff` — for which lines it finds the end of the state
* `mem_begun_iff` — at which lines the second pass begins a threshold
* `parseStateLoopLogged_log` — indices are passed at most where thresholds are begun in the text
* `indicesAgree_iff` — for which texts the two passes agree
-/

namespace Peep

open Bytes Decimal Program

/-! ## The second pass with a log -/

section Logged

variable {n k : ℕ}

/-- `threshold` in a state, where the index is logged. -/
def parseThresholdLogged (sys : System) (tok : Tok) (lines : List CString) (tCount : ℕ) :
    Program (Loader n k × List ℕ) (Bool × List CString × ℕ) :=
  if tok.is "threshold" then do
    log tCount
    let (loaded, lines) ← quiet (parserParseThreshold sys tCount lines .start)
    pure (loaded, lines, tCount + 1)
  else pure (true, lines, tCount)

/-- The second loop of `parserParseState`, with a log. -/
def parseStateLoopLogged (sys : System) : ℕ → List CString → Option CString → ℕ →
    Program (Loader n k × List ℕ) (Bool × List CString)
  | _, [], _, _ => pure (false, [])
  | 0, _ :: _, _, _ => crash
  | turns + 1, line :: lines, name, tCount => do
    let tok ← quiet (tokenize (some line))
    if tok.isComment then parseStateLoopLogged sys turns lines name tCount
    else
      let (tok, name) ← quiet (parseName tok name)
      let (loaded, lines, tCount) ← parseThresholdLogged sys tok lines tCount
      if !loaded then pure (false, lines)
      else if ← quiet (isEndOf tok "state") then
        let registered ← quiet (registerState name)
        pure (registered, lines)
      else parseStateLoopLogged sys turns lines name tCount

/-- `parserParseState`, with a log. -/
def parserParseStateLogged (sys : System) (lines : List CString) :
    Program (Loader n k × List ℕ) (Bool × List CString) := do
  let (threshCnt, reset) ← ofOption (lookAhead lines 0)
  let s ← quiet get
  let _ ← quiet (callMixer s.stateCnt fun m => m.mixerAllocNewState s.stateCnt threshCnt)
  let lines := if reset then lines else []
  parseStateLoopLogged sys lines.length lines none 0

/-- The indices that `parserParseState` passes to `parserParseThreshold`. -/
def passedIndices (sys : System) (lines : List CString) (s : Loader n k) : List ℕ :=
  (parserParseStateLogged sys lines (s, [])).2.2

end Logged

/-! ## The text -/

/-- A keyword makes the next word the token. -/
def behindKeyword (keyword : String) (tok : Tok) : Option Tok :=
  if tok.is keyword then parserTokenize tok.remainder else some tok

/-- The test for `end` and the name of a section. -/
def endsSection (keyword : String) (tok : Tok) : Option Bool :=
  if tok.is "end" then (parserTokenize tok.remainder).map fun tok => tok.is keyword
  else some false

/-- What a line of a threshold makes of the level and of whether there is a path, and whether it
ends the threshold. -/
def thresholdLine (strtod : CString → ℚ) (line : CString) (v : ℚ × Bool) :
    Option (Bool × ℚ × Bool) := do
  let tok ← parserTokenize (some line)
  if tok.isComment then some (false, v)
  else
    let level ← behindKeyword "level" tok
    let path ← behindKeyword "path" level
    let fade ← behindKeyword "fade" path
    let ended ← endsSection "threshold" fade
    some (ended, if tok.is "level" then strtod level.token else v.1, v.2 || level.is "path")

/-- The lines behind a threshold. None are left at the end of the file, and if the program ends. -/
def behindThreshold (strtod : CString → ℚ) : List CString → ℚ × Bool → List CString
  | [], _ => []
  | line :: lines, v =>
    match thresholdLine strtod line v with
    | none => []
    | some (false, v) => behindThreshold strtod lines v
    | some (true, v) => if v.2 = true ∧ v.1 ≠ 0 then lines else []

/-- What the second pass does at a line. -/
inductive StateStep
  | crash
  | next
  | threshold
  | ended

/-- What it does is a matter of the line. -/
def stateStep (line : CString) : StateStep :=
  match parserTokenize (some line) with
  | none => .crash
  | some tok =>
    if tok.isComment then .next
    else
      match behindKeyword "name" tok with
      | none => .crash
      | some tok =>
        if tok.is "threshold" then .threshold
        else
          match endsSection "state" tok with
          | none => .crash
          | some true => .ended
          | some false => .next

/-- Where thresholds are begun: how many lines come behind each of these lines. -/
def begun (strtod : CString → ℚ) : ℕ → List CString → List ℕ
  | _, [] => []
  | 0, _ :: _ => []
  | turns + 1, line :: lines =>
    match stateStep line with
    | .next => begun strtod turns lines
    | .threshold => lines.length :: begun strtod turns (behindThreshold strtod lines (0, false))
    | .crash | .ended => []

/-- Where thresholds are counted: how many lines come behind each line in front of the first
`end state` whose first word is `threshold`. -/
def counted : List CString → List ℕ
  | [] => []
  | line :: lines =>
    match parserTokenize (some line) with
    | none => []
    | some tok =>
      if tok.is "threshold" then lines.length :: counted lines
      else
        match endsSection "state" tok with
        | some false => counted lines
        | _ => []

/-- The first word of a line is `threshold`. -/
def OpensThreshold (line : CString) : Prop :=
  ∃ tok, parserTokenize (some line) = some tok ∧ tok.is "threshold" = true

/-- A line can be read and does not end the state. -/
def GoesOn (line : CString) : Prop :=
  ∃ tok, parserTokenize (some line) = some tok ∧ endsSection "state" tok = some false

/-- A line can be read and ends the state. -/
def EndsState (line : CString) : Prop :=
  ∃ tok, parserTokenize (some line) = some tok ∧ endsSection "state" tok = some true

/-- The end of the state can be found: some line ends it, and every line in front of that line can
be read and does not. -/
def HasEnd (lines : List CString) : Prop :=
  ∃ front line back, lines = front ++ line :: back ∧ EndsState line ∧ ∀ line ∈ front, GoesOn line

/-- The second pass begins a threshold at a line: the first word that is not `name` is
`threshold`. -/
def BeginsThreshold (line : CString) : Prop :=
  ∃ tok next, parserTokenize (some line) = some tok ∧ tok.isComment = false ∧
    behindKeyword "name" tok = some next ∧ next.is "threshold" = true

/-- The lines from the one behind the beginning of a threshold to the one that ends it, where the
level is not zero and there is a path. -/
inductive Body (strtod : CString → ℚ) : ℚ × Bool → List CString → Prop
  /-- The line ends the threshold. -/
  | ended {v v' : ℚ × Bool} {line : CString} (h : thresholdLine strtod line v = some (true, v'))
      (hpath : v'.2 = true) (hlevel : v'.1 ≠ 0) : Body strtod v [line]
  /-- The line does not. -/
  | next {v v' : ℚ × Bool} {line : CString} {body : List CString}
      (h : thresholdLine strtod line v = some (false, v')) (hbody : Body strtod v' body) :
      Body strtod v (line :: body)

/-- Lines behind which the second pass is still in the state: lines outside of thresholds, none of
which ends the state, and thresholds from their beginning to their end. -/
inductive Passed (strtod : CString → ℚ) : List CString → Prop
  /-- No line. -/
  | nil : Passed strtod []
  /-- A line outside of thresholds. -/
  | next {line : CString} {front : List CString} (h : stateStep line = .next)
      (hfront : Passed strtod front) : Passed strtod (line :: front)
  /-- A threshold. -/
  | threshold {line : CString} {body front : List CString} (h : stateStep line = .threshold)
      (hbody : Body strtod (0, false) body) (hfront : Passed strtod front) :
      Passed strtod (line :: (body ++ front))

/-- The lines at which a threshold is begun and not counted. -/
def uncountedLines (strtod : CString → ℚ) (lines : List CString) : Finset ℕ :=
  (begun strtod lines.length lines).toFinset \ (counted lines).toFinset

/-- The lines at which a threshold is counted and not begun. -/
def idleLines (strtod : CString → ℚ) (lines : List CString) : Finset ℕ :=
  (counted lines).toFinset \ (begun strtod lines.length lines).toFinset

/-- The two passes agree, whatever is in the files and in the loader: each index that is passed is
below the number of thresholds that were counted. -/
def IndicesAgree (strtod : CString → ℚ) (lines : List CString) : Prop :=
  ∀ (n k : ℕ) (sys : System) (s : Loader n k) (threshCnt : ℕ) (reset : Bool),
    sys.strtod = strtod → lookAhead lines 0 = some (threshCnt, reset) →
      ∀ i ∈ passedIndices sys lines s, i < threshCnt

variable {n k turns tCount threshCnt : ℕ} {sys : System} {s s' : Loader n k} {line : CString}
  {lines left : List CString} {tok tok' : Tok} {name name' : Option CString} {keyword : String}
  {strtod : CString → ℚ} {v v' : ThresholdVars} {l : List ℕ}

/-! ## Erasing the log -/

theorem erases_parseThresholdLogged (sys : System) (tok : Tok) (lines : List CString)
    (tCount : ℕ) : Erases (parseThresholdLogged sys tok lines tCount : Program (Loader n k × _) _)
      (parseThreshold sys tok lines tCount) := by
  refine erases_ite (fun _ => ?_) fun _ => erases_pure _
  exact .log_bind ((erases_quiet _).bind fun _ => erases_pure _) _

theorem erases_parseStateLoopLogged (sys : System) (turns : ℕ) (lines : List CString)
    (name : Option CString) (tCount : ℕ) :
    Erases (parseStateLoopLogged sys turns lines name tCount : Program (Loader n k × _) _)
      (parseStateLoop sys turns lines name tCount) := by
  induction turns generalizing lines name tCount with
  | zero =>
    rcases lines with - | ⟨line, lines⟩
    · exact erases_pure _
    · exact erases_crash
  | succ turns ih =>
    rcases lines with - | ⟨line, lines⟩
    · exact erases_pure _
    · rw [parseStateLoopLogged, parseStateLoop]
      refine (erases_quiet _).bind fun tok => erases_ite (fun _ => ih _ _ _) fun _ => ?_
      refine (erases_quiet _).bind fun named => ?_
      refine (erases_parseThresholdLogged sys _ _ _).bind fun parsed => ?_
      refine erases_ite (fun _ => erases_pure _) fun _ => ?_
      refine (erases_quiet _).bind fun ended => erases_ite (fun _ => ?_) fun _ => ih _ _ _
      exact (erases_quiet _).bind fun _ => erases_pure _

/-- **The program is the same** but for the log. -/
theorem erases_parserParseStateLogged (sys : System) (lines : List CString) :
    Erases (parserParseStateLogged sys lines : Program (Loader n k × _) _)
      (parserParseState sys lines) := by
  refine (erases_ofOption _).bind fun counted => (erases_quiet _).bind fun s => ?_
  exact (erases_quiet _).bind fun _ => erases_parseStateLoopLogged sys _ _ _ _

/-! ## Steps of the second pass -/

section Steps

variable (s : Loader n k)

theorem tokenize_apply (r : Option CString) : tokenize r s = (parserTokenize r, s) := by
  rw [tokenize]
  cases parserTokenize r <;> rfl

/-- The test for `end` is that of the text. -/
theorem isEndOf_apply (tok : Tok) (keyword : String) :
    isEndOf tok keyword s = (endsSection keyword tok, s) := by
  rw [isEndOf, endsSection]
  split_ifs
  · rw [tokenize]
    cases parserTokenize tok.remainder <;> rfl
  · rfl

/-- The word behind `name` is that of the text. -/
theorem parseName_apply (tok : Tok) (name : Option CString) :
    parseName tok name s = ((behindKeyword "name" tok).map fun next =>
      (next, if tok.is "name" then some next.token else name), s) := by
  rw [parseName, behindKeyword]
  split_ifs
  · rw [tokenize]
    cases parserTokenize tok.remainder <;> rfl
  · rfl

/-- `level` needs a lower bound. -/
theorem parseLevel_apply (tok : Tok) (v : ThresholdVars) :
    parseLevel sys threshCnt tok v s = ((behindKeyword "level" tok).bind fun next =>
      if tok.is "level" then (lowerBound threshCnt s).1.map fun lBound =>
        (next, { v with lBound := lBound, hBound := sys.strtod next.token })
      else some (next, v), s) := by
  rw [parseLevel, behindKeyword]
  split_ifs
  · rw [tokenize]
    rcases parserTokenize tok.remainder with - | next
    · rfl
    · rcases lowerBound_cases threshCnt s with hnone | ⟨lBound, hsome⟩
      · rw [ofOption_some, pure_bind_apply, bind_of_none hnone, hnone]
        rfl
      · rw [ofOption_some, pure_bind_apply, bind_of_some hsome, hsome]
        rfl
  · rfl

/-- `path` needs the path of the sounds. -/
theorem parsePath_apply (tok : Tok) (path : Option CString) :
    parsePath tok path s = ((behindKeyword "path" tok).bind fun next =>
      if tok.is "path" then s.soundPath.map fun soundPath => (next, some (soundPath ++ next.token))
      else some (next, path), s) := by
  rw [parsePath, behindKeyword]
  split_ifs
  · rw [tokenize]
    rcases parserTokenize tok.remainder with - | next
    · rfl
    · rw [ofOption_some, pure_bind_apply, get_bind]
      cases s.soundPath <;> rfl
  · rfl

theorem parseFade_apply (tok : Tok) (v : ThresholdVars) :
    parseFade sys tok v s = ((behindKeyword "fade" tok).map fun next =>
      (next, if tok.is "fade" then { v with fade := sys.strtod next.token } else v), s) := by
  rw [parseFade, behindKeyword]
  split_ifs
  · rw [tokenize]
    cases parserTokenize tok.remainder <;> rfl
  · rfl

end Steps

/-- What `parserParseThreshold` sees of its variables in the text. -/
def ThresholdVars.seen (v : ThresholdVars) : ℚ × Bool := (v.hBound, v.path.isSome)

@[simp] theorem seen_start : ThresholdVars.start.seen = (0, false) := rfl

/-- What a line of a threshold does: whether it ends the threshold, and the variables. -/
def thresholdStep (sys : System) (threshCnt : ℕ) (s : Loader n k) (line : CString)
    (v : ThresholdVars) : Option (Bool × ThresholdVars) := do
  let tok ← parserTokenize (some line)
  if tok.isComment then some (false, v)
  else
    let (level, v) ← (parseLevel sys threshCnt tok v s).1
    let (path, path') ← (parsePath level v.path s).1
    let (fade, v) ← (parseFade sys path { v with path := path' } s).1
    let ended ← endsSection "threshold" fade
    some (ended, v)

/-- **A line of a threshold.** -/
theorem parserParseThreshold_step (line : CString) (lines : List CString) (v : ThresholdVars)
    (s : Loader n k) :
    parserParseThreshold sys threshCnt (line :: lines) v s
      = match thresholdStep sys threshCnt s line v with
        | none => (none, s)
        | some (false, v) => parserParseThreshold sys threshCnt lines v s
        | some (true, v) =>
          if v.path ≠ none ∧ v.hBound ≠ 0 then
            (parserLoadStateSndDir sys threshCnt v.lBound v.hBound v.path v.fade >>= fun loaded =>
              pure (loaded, lines)) s
          else (none, s) := by
  have hlevel (tok : Tok) (v : ThresholdVars) : parseLevel sys threshCnt tok v s
      = ((parseLevel sys threshCnt tok v s).1, s) := by rw [parseLevel_apply]
  have hpath (tok : Tok) (path : Option CString) : parsePath tok path s
      = ((parsePath tok path s).1, s) := by rw [parsePath_apply]
  have hfade (tok : Tok) (v : ThresholdVars) : parseFade sys tok v s
      = ((parseFade sys tok v s).1, s) := by rw [parseFade_apply]
  rw [parserParseThreshold, bind_of_stays (tokenize_apply s _), thresholdStep]
  rcases htok : parserTokenize (some line) with - | tok
  · rfl
  simp only [Option.bind_eq_bind, Option.elim_some, Option.bind_some]
  by_cases hcomment : tok.isComment = true
  · rw [if_pos hcomment, if_pos hcomment]
  rw [if_neg hcomment, if_neg hcomment, bind_of_stays (hlevel tok v)]
  rcases (parseLevel sys threshCnt tok v s).1 with - | ⟨level, v₁⟩
  · rfl
  simp only [Option.elim_some, Option.bind_some]
  rw [bind_of_stays (hpath level v₁.path)]
  rcases (parsePath level v₁.path s).1 with - | ⟨path, path'⟩
  · rfl
  simp only [Option.elim_some, Option.bind_some]
  rw [bind_of_stays (hfade path { v₁ with path := path' })]
  rcases (parseFade sys path { v₁ with path := path' } s).1 with - | ⟨fade, v₂⟩
  · rfl
  simp only [Option.elim_some, Option.bind_some]
  rw [bind_of_stays (isEndOf_apply s fade "threshold")]
  rcases endsSection "threshold" fade with - | - | -
  · rfl
  · rfl
  · simp only [Option.elim_some, Option.bind_some, if_true]
    split_ifs
    · rfl
    · rfl

/-! ## Thresholds in the text -/

theorem parseLevel_seen (h : (parseLevel sys threshCnt tok v s).1 = some (tok', v')) :
    behindKeyword "level" tok = some tok' ∧
      v'.seen = (if tok.is "level" then sys.strtod tok'.token else v.hBound, v.path.isSome) := by
  rw [parseLevel_apply] at h
  obtain ⟨next, hnext, h⟩ := Option.bind_eq_some_iff.mp h
  split_ifs at h ⊢
  · obtain ⟨lBound, -, h⟩ := Option.map_eq_some_iff.mp h
    obtain ⟨rfl, rfl⟩ := Prod.mk.inj h
    exact ⟨hnext, rfl⟩
  · obtain ⟨rfl, rfl⟩ := Prod.mk.inj (Option.some.inj h)
    exact ⟨hnext, rfl⟩

theorem parsePath_seen {path path' : Option CString}
    (h : (parsePath tok path s).1 = some (tok', path')) :
    behindKeyword "path" tok = some tok' ∧ path'.isSome = (path.isSome || tok.is "path") := by
  rw [parsePath_apply] at h
  obtain ⟨next, hnext, h⟩ := Option.bind_eq_some_iff.mp h
  split_ifs at h with hpath
  · obtain ⟨soundPath, -, h⟩ := Option.map_eq_some_iff.mp h
    obtain ⟨rfl, rfl⟩ := Prod.mk.inj h
    exact ⟨hnext, by rw [hpath, Bool.or_true]; rfl⟩
  · obtain ⟨rfl, rfl⟩ := Prod.mk.inj (Option.some.inj h)
    exact ⟨hnext, by rw [Bool.eq_false_iff.mpr hpath, Bool.or_false]⟩

theorem parseFade_seen (h : (parseFade sys tok v s).1 = some (tok', v')) :
    behindKeyword "fade" tok = some tok' ∧ v'.seen = v.seen := by
  rw [parseFade_apply] at h
  obtain ⟨next, hnext, h⟩ := Option.map_eq_some_iff.mp h
  obtain ⟨rfl, rfl⟩ := Prod.mk.inj h
  refine ⟨hnext, ?_⟩
  split_ifs <;> rfl

/-- **A line that does not crash** does what it does in the text. -/
theorem thresholdStep_seen {ended : Bool}
    (h : thresholdStep sys threshCnt s line v = some (ended, v')) :
    thresholdLine sys.strtod line v.seen = some (ended, v'.seen) := by
  rw [thresholdStep] at h
  rw [thresholdLine]
  rcases htok : parserTokenize (some line) with - | tok
  · rw [htok] at h
    cases h
  rw [htok] at h
  simp only [Option.bind_eq_bind, Option.bind_some] at h ⊢
  by_cases hcomment : tok.isComment = true
  · rw [if_pos hcomment] at h ⊢
    cases h
    rfl
  rw [if_neg hcomment] at h ⊢
  obtain ⟨⟨level, v₁⟩, hlevel, h⟩ := Option.bind_eq_some_iff.mp h
  obtain ⟨⟨path, path'⟩, hpath, h⟩ := Option.bind_eq_some_iff.mp h
  obtain ⟨⟨fade, v₂⟩, hfade, h⟩ := Option.bind_eq_some_iff.mp h
  obtain ⟨ended', hended, h⟩ := Option.bind_eq_some_iff.mp h
  obtain ⟨rfl, rfl⟩ := Prod.mk.inj (Option.some.inj h)
  obtain ⟨hlevel, hseen₁⟩ := parseLevel_seen hlevel
  obtain ⟨hpath, hpath'⟩ := parsePath_seen hpath
  obtain ⟨hfade, hseen₂⟩ := parseFade_seen hfade
  obtain ⟨hbound, hsome⟩ := Prod.mk.inj hseen₁
  rw [hlevel, Option.bind_some, hpath, Option.bind_some, hfade, Option.bind_some, hended,
    Option.bind_some, hseen₂]
  show some (ended', if tok.is "level" then sys.strtod level.token else v.hBound,
    v.path.isSome || level.is "path") = some (ended', v₁.hBound, path'.isSome)
  rw [hpath', hbound, hsome]

/-- The lower bound and the path of the sounds are there. -/
def HasBounds (threshCnt : ℕ) (s : Loader n k) : Prop :=
  (lowerBound threshCnt s).1 ≠ none ∧ s.soundPath ≠ none

/-- **A line crashes** only where it crashes in the text, if the bounds are there. -/
theorem thresholdLine_eq_none (hs : HasBounds threshCnt s) {strtod : CString → ℚ} {x : ℚ × Bool}
    (h : thresholdStep sys threshCnt s line v = none) : thresholdLine strtod line x = none := by
  obtain ⟨lBound, hlower⟩ := Option.ne_none_iff_exists'.mp hs.1
  obtain ⟨soundPath, hsound⟩ := Option.ne_none_iff_exists'.mp hs.2
  have hlevel (tok : Tok) (v : ThresholdVars) : ((parseLevel sys threshCnt tok v s).1).map Prod.fst
      = behindKeyword "level" tok := by
    rw [parseLevel_apply, hlower]
    rcases behindKeyword "level" tok with - | next
    · rfl
    · rw [Option.bind_some]
      split_ifs <;> rfl
  have hpath (tok : Tok) (path : Option CString) : ((parsePath tok path s).1).map Prod.fst
      = behindKeyword "path" tok := by
    rw [parsePath_apply, hsound]
    rcases behindKeyword "path" tok with - | next
    · rfl
    · rw [Option.bind_some]
      split_ifs <;> rfl
  have hfade (tok : Tok) (v : ThresholdVars) : ((parseFade sys tok v s).1).map Prod.fst
      = behindKeyword "fade" tok := by
    rw [parseFade_apply, Option.map_map]
    cases behindKeyword "fade" tok <;> rfl
  rw [thresholdStep] at h
  rw [thresholdLine]
  rcases htok : parserTokenize (some line) with - | tok
  · rfl
  rw [htok] at h
  simp only [Option.bind_eq_bind, Option.bind_some] at h ⊢
  by_cases hcomment : tok.isComment = true
  · rw [if_pos hcomment] at h
    cases h
  rw [if_neg hcomment] at h ⊢
  rw [← hlevel tok v]
  rcases hlevel₁ : (parseLevel sys threshCnt tok v s).1 with - | ⟨level, v₁⟩
  · rfl
  rw [hlevel₁] at h
  simp only [Option.map_some, Option.bind_some] at h ⊢
  rw [← hpath level v₁.path]
  rcases hpath₁ : (parsePath level v₁.path s).1 with - | ⟨path, path'⟩
  · rfl
  rw [hpath₁] at h
  simp only [Option.map_some, Option.bind_some] at h ⊢
  rw [← hfade path { v₁ with path := path' }]
  rcases hfade₁ : (parseFade sys path { v₁ with path := path' } s).1 with - | ⟨fade, v₂⟩
  · rfl
  rw [hfade₁] at h
  simp only [Option.map_some, Option.bind_some] at h ⊢
  rcases hended : endsSection "threshold" fade with - | ended
  · rfl
  · rw [hended] at h
    cases h

/-- **A threshold**: the lines that it leaves are those behind it in the text. -/
theorem parserParseThreshold_left {loaded : Bool}
    (h : parserParseThreshold sys threshCnt lines v s = (some (loaded, left), s')) :
    left = behindThreshold sys.strtod lines v.seen := by
  induction lines generalizing v with
  | nil =>
    rw [parserParseThreshold] at h
    exact (Prod.mk.inj (Option.some.inj (Prod.mk.inj h).1)).2.symm
  | cons line lines ih =>
    rw [parserParseThreshold_step] at h
    rcases hstep : thresholdStep sys threshCnt s line v with - | ⟨- | -, v'⟩
    · rw [hstep] at h
      cases h
    · rw [hstep] at h
      rw [behindThreshold, thresholdStep_seen hstep]
      exact ih h
    · rw [hstep] at h
      rw [behindThreshold, thresholdStep_seen hstep]
      have hcond : (v'.seen.2 = true ∧ v'.seen.1 ≠ 0) ↔ (v'.path ≠ none ∧ v'.hBound ≠ 0) :=
        and_congr_left' Option.isSome_iff_ne_none
      simp only [hcond]
      simp only at h
      split_ifs at h ⊢
      · obtain ⟨loaded', t, -, h⟩ := bind_eq_some_iff.mp h
        exact (Prod.mk.inj (Option.some.inj (Prod.mk.inj h).1)).2.symm
      · cases h

/-! ## The second pass -/

theorem not_end_of_threshold (h : tok.is "threshold" = true) : ¬ tok.is "end" = true := by
  rw [Tok.is, strcaseeq, decide_eq_true_iff] at h ⊢
  rw [h]
  decide

theorem endsSection_of_threshold (h : tok.is "threshold" = true) (keyword : String) :
    endsSection keyword tok = some false := by
  rw [endsSection, if_neg (not_end_of_threshold h)]

theorem quiet_stays {α : Type} {p : Program (Loader n k) α} {o : Option α} (h : p s = (o, s))
    (l : List ℕ) : quiet p (s, l) = (o, (s, l)) := by
  rw [quiet_apply, h]

/-- **A line of the second pass.** -/
theorem parseStateLoopLogged_step (sys : System) (turns : ℕ) (line : CString)
    (lines : List CString) (name : Option CString) (tCount : ℕ) (s : Loader n k) (l : List ℕ) :
    ∃ name', parseStateLoopLogged sys (turns + 1) (line :: lines) name tCount (s, l)
      = match stateStep line with
        | .crash => (none, s, l)
        | .next => parseStateLoopLogged sys turns lines name' tCount (s, l)
        | .threshold => (quiet (parserParseThreshold sys tCount lines .start) >>= fun parsed =>
            if !parsed.1 then pure (false, parsed.2)
            else parseStateLoopLogged sys turns parsed.2 name' (tCount + 1)) (s, l ++ [tCount])
        | .ended => (quiet (registerState name') >>= fun registered =>
            pure (registered, lines)) (s, l) := by
  rw [parseStateLoopLogged, bind_of_stays (quiet_stays (tokenize_apply s _) l), stateStep]
  rcases parserTokenize (some line) with - | tok
  · exact ⟨name, rfl⟩
  simp only [Option.elim_some]
  by_cases hcomment : tok.isComment = true
  · rw [if_pos hcomment, if_pos hcomment]
    exact ⟨name, rfl⟩
  rw [if_neg hcomment, if_neg hcomment, bind_of_stays (quiet_stays (parseName_apply s tok name) l)]
  rcases behindKeyword "name" tok with - | tok'
  · exact ⟨name, rfl⟩
  refine ⟨if tok.is "name" then some tok'.token else name, ?_⟩
  simp only [Option.map_some, Option.elim_some]
  by_cases hthreshold : tok'.is "threshold" = true
  · have hended (t : Loader n k) : isEndOf tok' "state" t = (some false, t) := by
      rw [isEndOf_apply, endsSection_of_threshold hthreshold]
    rw [if_pos hthreshold, parseThresholdLogged, if_pos hthreshold]
    simp only [bind_assoc, log, change_bind]
    rcases hparsed : parserParseThreshold sys tCount lines .start s with ⟨- | ⟨loaded, left⟩, t⟩
    · rw [bind_of_none (quiet_of_none hparsed), bind_of_none (quiet_of_none hparsed)]
    · rw [bind_of_some (quiet_of_some hparsed), bind_of_some (quiet_of_some hparsed)]
      cases loaded with
      | false => rfl
      | true =>
        simp only [pure_bind_apply, Bool.not_true, Bool.false_eq_true, if_false]
        rw [bind_of_stays (quiet_stays (hended t) _)]
        rfl
  · rw [if_neg hthreshold, parseThresholdLogged, if_neg hthreshold]
    simp only [pure_bind_apply, Bool.not_true, Bool.false_eq_true, if_false]
    rw [bind_of_stays (quiet_stays (isEndOf_apply s tok' "state") l)]
    rcases endsSection "state" tok' with - | - | -
    · rfl
    · rfl
    · rfl

/-- **Indices are passed** one after the other, at most as often as thresholds are begun in the
text. -/
theorem parseStateLoopLogged_log (sys : System) (turns : ℕ) (lines : List CString)
    (name : Option CString) (tCount : ℕ) (s : Loader n k) (l : List ℕ) :
    ∃ m ≤ (begun sys.strtod turns lines).length,
      (parseStateLoopLogged sys turns lines name tCount (s, l)).2.2
        = l ++ List.range' tCount m := by
  induction turns generalizing lines name tCount s l with
  | zero =>
    refine ⟨0, Nat.zero_le _, ?_⟩
    rcases lines with - | ⟨line, lines⟩
    · exact (List.append_nil l).symm
    · exact (List.append_nil l).symm
  | succ turns ih =>
    rcases lines with - | ⟨line, lines⟩
    · exact ⟨0, Nat.zero_le _, (List.append_nil l).symm⟩
    obtain ⟨name', hstep⟩ := parseStateLoopLogged_step sys turns line lines name tCount s l
    rw [hstep, begun]
    rcases stateStep line with - | - | - | -
    · exact ⟨0, Nat.zero_le _, (List.append_nil l).symm⟩
    · exact ih lines name' tCount s l
    · simp only [List.length_cons]
      rcases hparsed : parserParseThreshold sys tCount lines .start s with
        ⟨- | ⟨- | -, left⟩, t⟩
      · rw [bind_of_none (quiet_of_none hparsed)]
        exact ⟨1, Nat.le_add_left 1 _, rfl⟩
      · rw [bind_of_some (quiet_of_some hparsed)]
        exact ⟨1, Nat.le_add_left 1 _, rfl⟩
      · rw [bind_of_some (quiet_of_some hparsed)]
        have hleft : left = behindThreshold sys.strtod lines (0, false) :=
          parserParseThreshold_left hparsed
        obtain ⟨m, hm, hlog⟩ := ih left name' (tCount + 1) t (l ++ [tCount])
        rw [List.append_assoc, List.singleton_append, ← List.range'_succ] at hlog
        rw [hleft] at hm
        exact ⟨m + 1, Nat.succ_le_succ hm, hlog⟩
    · refine ⟨0, Nat.zero_le _, ?_⟩
      rcases hregistered : registerState name' s with ⟨- | registered, t⟩
      · rw [bind_of_none (quiet_of_none hregistered)]
        exact (List.append_nil l).symm
      · rw [bind_of_some (quiet_of_some hregistered)]
        exact (List.append_nil l).symm

/-! ## The first pass -/

/-- A line of the look-ahead. -/
theorem lookAhead_line (line : CString) (lines : List CString) (threshCnt : ℕ) :
    lookAhead (line :: lines) threshCnt = (parserTokenize (some line)).bind fun tok =>
      (endsSection "state" tok).bind fun ended =>
        if ended then some (if tok.is "threshold" then threshCnt + 1 else threshCnt, true)
        else lookAhead lines (if tok.is "threshold" then threshCnt + 1 else threshCnt) := by
  rw [lookAhead]
  rcases parserTokenize (some line) with - | tok
  · rfl
  simp only [Option.bind_eq_bind, Option.bind_some, endsSection]
  by_cases hend : tok.is "end" = true
  · rw [if_pos hend, if_pos hend]
    cases parserTokenize tok.remainder <;> rfl
  · rw [if_neg hend, if_neg hend]
    rfl

/-- **What is counted.** -/
theorem lookAhead_eq_counted {cnt : ℕ} {reset : Bool}
    (h : lookAhead lines threshCnt = some (cnt, reset)) :
    cnt = threshCnt + (counted lines).length := by
  induction lines generalizing threshCnt with
  | nil => exact (Prod.mk.inj (Option.some.inj h)).1.symm
  | cons line lines ih =>
    rw [lookAhead_line] at h
    obtain ⟨tok, htok, h⟩ := Option.bind_eq_some_iff.mp h
    obtain ⟨ended, hends, h⟩ := Option.bind_eq_some_iff.mp h
    simp only [counted, htok]
    by_cases hthreshold : tok.is "threshold" = true
    · obtain rfl : false = ended :=
        Option.some.inj ((endsSection_of_threshold hthreshold "state").symm.trans hends)
      rw [if_pos hthreshold] at h ⊢
      rw [List.length_cons, ← Nat.add_assoc, Nat.add_right_comm]
      exact ih h
    · rw [if_neg hthreshold] at h ⊢
      rw [hends]
      cases ended with
      | false => exact ih h
      | true => exact (Prod.mk.inj (Option.some.inj h)).1.symm

/-- **Where the look-ahead finds the end of the state** is a matter of the lines. -/
theorem hasEnd_iff (lines : List CString) (threshCnt : ℕ) :
    HasEnd lines ↔ ∃ cnt, lookAhead lines threshCnt = some (cnt, true) := by
  induction lines generalizing threshCnt with
  | nil =>
    constructor
    · rintro ⟨front, line, back, h, -⟩
      exact absurd h.symm (List.append_ne_nil_of_right_ne_nil _ (List.cons_ne_nil _ _))
    · rintro ⟨cnt, h⟩
      cases h
  | cons line lines ih =>
    rw [lookAhead_line]
    constructor
    · rintro ⟨front, last, back, heq, hlast, hfront⟩
      rcases front with - | ⟨first, front⟩
      · obtain ⟨rfl, rfl⟩ := List.cons.inj heq
        obtain ⟨tok, htok, hends⟩ := hlast
        rw [htok, Option.bind_some, hends]
        exact ⟨_, rfl⟩
      · obtain ⟨rfl, rfl⟩ := List.cons.inj heq
        obtain ⟨⟨tok, htok, hends⟩, hfront⟩ := List.forall_mem_cons.mp hfront
        rw [htok, Option.bind_some, hends]
        exact (ih _).mp ⟨front, last, back, rfl, hlast, hfront⟩
    · rintro ⟨cnt, h⟩
      obtain ⟨tok, htok, h⟩ := Option.bind_eq_some_iff.mp h
      obtain ⟨ended, hends, h⟩ := Option.bind_eq_some_iff.mp h
      cases ended with
      | false =>
        obtain ⟨front, last, back, rfl, hlast, hfront⟩ := (ih _).mpr ⟨cnt, h⟩
        refine ⟨line :: front, last, back, rfl, hlast, ?_⟩
        exact List.forall_mem_cons.mpr ⟨⟨tok, htok, hends⟩, hfront⟩
      | true => exact ⟨[], line, lines, rfl, ⟨tok, htok, hends⟩, List.forall_mem_nil _⟩

/-! ## Counting lines -/

theorem length_behindThreshold_le (strtod : CString → ℚ) (lines : List CString) (x : ℚ × Bool) :
    (behindThreshold strtod lines x).length ≤ lines.length := by
  induction lines generalizing x with
  | nil => exact le_rfl
  | cons line lines ih =>
    rw [behindThreshold]
    rcases thresholdLine strtod line x with - | ⟨- | -, y⟩
    · exact Nat.zero_le _
    · exact (ih y).trans (Nat.le_succ _)
    · simp only
      split_ifs
      · exact Nat.le_succ _
      · exact Nat.zero_le _

@[simp] theorem begun_nil (strtod : CString → ℚ) (turns : ℕ) : begun strtod turns [] = [] := by
  cases turns <;> rfl

theorem lt_of_mem_begun {j : ℕ} (h : j ∈ begun strtod turns lines) : j < lines.length := by
  induction turns generalizing lines with
  | zero => rcases lines with - | ⟨line, lines⟩ <;> cases h
  | succ turns ih =>
    rcases lines with - | ⟨line, lines⟩
    · cases h
    rw [begun] at h
    rcases hstep : stateStep line with - | - | - | -
    · rw [hstep] at h
      cases h
    · rw [hstep] at h
      exact (ih h).trans (Nat.lt_succ_self _)
    · rw [hstep] at h
      rcases List.mem_cons.mp h with rfl | h
      · exact Nat.lt_succ_self _
      · exact ((ih h).trans_le (length_behindThreshold_le _ _ _)).trans (Nat.lt_succ_self _)
    · rw [hstep] at h
      cases h

theorem nodup_begun (strtod : CString → ℚ) (turns : ℕ) (lines : List CString) :
    (begun strtod turns lines).Nodup := by
  induction turns generalizing lines with
  | zero => rcases lines with - | ⟨line, lines⟩ <;> exact List.nodup_nil
  | succ turns ih =>
    rcases lines with - | ⟨line, lines⟩
    · exact List.nodup_nil
    rw [begun]
    rcases stateStep line with - | - | - | -
    · exact List.nodup_nil
    · exact ih lines
    · refine List.nodup_cons.mpr ⟨fun h => ?_, ih _⟩
      exact (lt_of_mem_begun h).not_ge (length_behindThreshold_le _ _ _)
    · exact List.nodup_nil

/-- Where the second pass begins a threshold is a matter of the line. -/
theorem stateStep_eq_threshold_iff : stateStep line = .threshold ↔ BeginsThreshold line := by
  rw [stateStep, BeginsThreshold]
  rcases parserTokenize (some line) with - | tok
  · simp
  rcases hcomment : tok.isComment with - | -
  · rcases hname : behindKeyword "name" tok with - | next
    · simp [hcomment, hname]
    · by_cases hthreshold : next.is "threshold" = true
      · simp [hcomment, hname, hthreshold]
      · rcases hends : endsSection "state" next with - | - | - <;>
          simp [hcomment, hname, hthreshold, hends]
  · simp [hcomment]

/-- Behind the body of a threshold. -/
theorem Body.behindThreshold_append {x : ℚ × Bool} {body : List CString} (h : Body strtod x body)
    (rest : List CString) : behindThreshold strtod (body ++ rest) x = rest := by
  induction h with
  | ended h hpath hlevel =>
    rw [List.singleton_append, behindThreshold, h]
    exact if_pos ⟨hpath, hlevel⟩
  | next h _ ih =>
    rw [List.cons_append, behindThreshold, h]
    exact ih

/-- If there are lines behind a threshold, it has a body. -/
theorem exists_body {x : ℚ × Bool} (h : behindThreshold strtod lines x ≠ []) :
    ∃ body, Body strtod x body ∧ lines = body ++ behindThreshold strtod lines x := by
  induction lines generalizing x with
  | nil => exact absurd rfl h
  | cons line lines ih =>
    rw [behindThreshold] at h ⊢
    rcases hline : thresholdLine strtod line x with - | ⟨- | -, y⟩
    · rw [hline] at h
      exact absurd rfl h
    · rw [hline] at h
      obtain ⟨body, hbody, heq⟩ := ih h
      exact ⟨line :: body, .next hline hbody, congrArg (List.cons line) heq⟩
    · rw [hline] at h
      simp only at h ⊢
      split_ifs at h ⊢ with hready
      · exact ⟨[line], .ended hline hready.1 hready.2, rfl⟩
      · exact absurd rfl h

/-- **Where a threshold is begun**: the first word of the line, or the one behind `name`, is
`threshold`, and in front of it are lines outside of thresholds and whole thresholds. -/
theorem mem_begun_iff {j : ℕ} (h : lines.length ≤ turns) :
    j ∈ begun strtod turns lines ↔ ∃ front line back, lines = front ++ line :: back ∧
      back.length = j ∧ BeginsThreshold line ∧ Passed strtod front := by
  induction turns generalizing lines with
  | zero =>
    obtain rfl := List.length_eq_zero_iff.mp (Nat.le_zero.mp h)
    constructor
    · intro h
      cases h
    · rintro ⟨front, line, back, heq, -⟩
      exact absurd heq.symm (List.append_ne_nil_of_right_ne_nil _ (List.cons_ne_nil _ _))
  | succ turns ih =>
    constructor
    · intro hmem
      rcases lines with - | ⟨line, lines⟩
      · cases hmem
      rw [List.length_cons, Nat.succ_le_succ_iff] at h
      rw [begun] at hmem
      rcases hstep : stateStep line with - | - | - | -
      · rw [hstep] at hmem
        cases hmem
      · rw [hstep] at hmem
        obtain ⟨front, line', back, rfl, hback, hbegins, hfront⟩ := (ih h).mp hmem
        exact ⟨line :: front, line', back, rfl, hback, hbegins, .next hstep hfront⟩
      · rw [hstep] at hmem
        rcases List.mem_cons.mp hmem with rfl | hmem
        · exact ⟨[], line, lines, rfl, rfl, stateStep_eq_threshold_iff.mp hstep, .nil⟩
        have hle := (length_behindThreshold_le strtod lines (0, false)).trans h
        obtain ⟨front, line', back, heq, hback, hbegins, hfront⟩ := (ih hle).mp hmem
        have hne : behindThreshold strtod lines (0, false) ≠ [] := by
          rw [heq]
          exact List.append_ne_nil_of_right_ne_nil _ (List.cons_ne_nil _ _)
        obtain ⟨body, hbody, hlines⟩ := exists_body hne
        refine ⟨line :: (body ++ front), line', back, ?_, hback, hbegins,
          .threshold hstep hbody hfront⟩
        rw [hlines, heq, List.cons_append, List.append_assoc]
      · rw [hstep] at hmem
        cases hmem
    · rintro ⟨front, line, back, rfl, rfl, hbegins, hfront⟩
      cases hfront with
      | nil =>
        rw [List.nil_append, begun, stateStep_eq_threshold_iff.mpr hbegins]
        exact List.mem_cons_self
      | next hstep hfront =>
        rw [List.cons_append, List.length_cons, Nat.succ_le_succ_iff] at h
        rw [List.cons_append, begun, hstep]
        exact (ih h).mpr ⟨_, line, back, rfl, rfl, hbegins, hfront⟩
      | @threshold first body front hstep hbody hfront =>
        rw [List.cons_append, List.length_cons, Nat.succ_le_succ_iff, List.append_assoc] at h
        rw [List.cons_append, List.append_assoc, begun, hstep, hbody.behindThreshold_append]
        refine List.mem_cons_of_mem _ ((ih ?_).mpr ⟨front, line, back, rfl, rfl, hbegins, hfront⟩)
        rw [List.length_append] at h
        omega

/-- **Where a threshold is counted**: the first word of the line is `threshold`, and no line in
front of it ends the state or cannot be read. -/
theorem mem_counted_iff {j : ℕ} :
    j ∈ counted lines ↔ ∃ front line back, lines = front ++ line :: back ∧ back.length = j ∧
      OpensThreshold line ∧ ∀ line ∈ front, GoesOn line := by
  induction lines with
  | nil =>
    constructor
    · intro h
      cases h
    · rintro ⟨front, line, back, h, -⟩
      exact absurd h.symm (List.append_ne_nil_of_right_ne_nil _ (List.cons_ne_nil _ _))
  | cons line lines ih =>
    rw [counted]
    constructor
    · intro h
      rcases htok : parserTokenize (some line) with - | tok
      · rw [htok] at h
        cases h
      rw [htok] at h
      have hbehind (hends : endsSection "state" tok = some false) (h : j ∈ counted lines) :
          ∃ front line' back, line :: lines = front ++ line' :: back ∧ back.length = j ∧
            OpensThreshold line' ∧ ∀ line ∈ front, GoesOn line := by
        obtain ⟨front, line', back, rfl, hback, hopens, hfront⟩ := ih.mp h
        refine ⟨line :: front, line', back, rfl, hback, hopens, ?_⟩
        exact List.forall_mem_cons.mpr ⟨⟨tok, htok, hends⟩, hfront⟩
      simp only at h
      split_ifs at h with hthreshold
      · rcases List.mem_cons.mp h with rfl | h
        · exact ⟨[], line, lines, rfl, rfl, ⟨tok, htok, hthreshold⟩, List.forall_mem_nil _⟩
        · exact hbehind (endsSection_of_threshold hthreshold "state") h
      · rcases hends : endsSection "state" tok with - | - | -
        · rw [hends] at h
          cases h
        · rw [hends] at h
          exact hbehind hends h
        · rw [hends] at h
          cases h
    · rintro ⟨front, line', back, heq, rfl, hopens, hfront⟩
      rcases front with - | ⟨first, front⟩
      · obtain ⟨rfl, rfl⟩ := List.cons.inj heq
        obtain ⟨tok, htok, hthreshold⟩ := hopens
        simp only [htok, hthreshold, if_true]
        exact List.mem_cons_self
      · obtain ⟨rfl, rfl⟩ := List.cons.inj heq
        obtain ⟨⟨tok, htok, hends⟩, hfront⟩ := List.forall_mem_cons.mp hfront
        have hmem := ih.mpr ⟨front, line', back, rfl, rfl, hopens, hfront⟩
        simp only [htok, hends]
        split_ifs
        · exact List.mem_cons_of_mem _ hmem
        · exact hmem

theorem lt_of_mem_counted {j : ℕ} (h : j ∈ counted lines) : j < lines.length := by
  obtain ⟨front, line, back, rfl, rfl, -, -⟩ := mem_counted_iff.mp h
  rw [List.length_append, List.length_cons]
  omega

theorem nodup_counted (lines : List CString) : (counted lines).Nodup := by
  induction lines with
  | nil => exact List.nodup_nil
  | cons line lines ih =>
    rw [counted]
    rcases parserTokenize (some line) with - | tok
    · exact List.nodup_nil
    simp only
    split_ifs
    · exact List.nodup_cons.mpr ⟨fun h => (lt_of_mem_counted h).false, ih⟩
    · rcases endsSection "state" tok with - | - | -
      · exact List.nodup_nil
      · exact ih
      · exact List.nodup_nil

/-- The lines at which only one of the two passes sees a threshold tell which one sees more. -/
theorem card_uncountedLines_le_iff (strtod : CString → ℚ) (lines : List CString) :
    (uncountedLines strtod lines).card ≤ (idleLines strtod lines).card ↔
      (begun strtod lines.length lines).length ≤ (counted lines).length := by
  rw [uncountedLines, idleLines, Finset.card_sdiff_le_card_sdiff_iff,
    List.toFinset_card_of_nodup (nodup_begun strtod lines.length lines),
    List.toFinset_card_of_nodup (nodup_counted lines)]

/-! ## Thresholds that can be loaded -/

/-- A system whose directories are all empty. -/
def soundless (strtod : CString → ℚ) : System where
  readdir := fun _ => some ⟨[ascii ".", ascii ".."], by decide, by decide⟩
  contents := fun _ => none
  strtod := strtod
  expat := fun _ => ([], true)
  hostent := none
  inetAton := fun _ => none
  packageVersion := []

@[simp] theorem strtod_soundless (strtod : CString → ℚ) : (soundless strtod).strtod = strtod := rfl

theorem directorySounds_soundless (strtod : CString → ℚ) (path : CString) :
    directorySounds (soundless strtod) path = some [] := by
  rw [directorySounds, parserScanDir]
  simp only [soundless, Option.map_some, Option.bind_eq_bind, Option.bind_some]
  rw [List.filter_eq_nil_iff.mpr, List.mapM_nil]
  · rfl
  · intro name hname
    rw [List.mem_reverse, List.mem_mergeSort] at hname
    have hdots : isDots name = true := by
      rcases List.mem_pair.mp hname with rfl | rfl
      · exact isDots_iff.mpr (.inr rfl)
      · exact isDots_iff.mpr (.inl rfl)
    simp [hdots]

/-- A state with memory for this many thresholds, whose sounds can be found. -/
structure HasThresholds (i : Fin k) (cnt : ℕ) (s : Loader n k) : Prop where
  /-- The number of the state. -/
  stateCnt_eq : s.stateCnt = i
  /-- The memory. -/
  thresh : ∃ ts, (s.mixer.states i).buf.thresh = some ts ∧ ts.size = cnt
  /-- The path of the sounds. -/
  soundPath_ne : s.soundPath ≠ none

section HasThresholds

variable {i : Fin k} {cnt t : ℕ}

/-- The bound of the threshold in front is there. -/
theorem HasThresholds.hasBounds (hs : HasThresholds i cnt s) (ht : t < cnt) : HasBounds t s := by
  obtain ⟨ts, hts, hsize⟩ := hs.thresh
  refine ⟨?_, hs.soundPath_ne⟩
  rw [lowerBound, get_bind]
  split_ifs with hpos
  · have hlt : t - 1 < ts.size := by omega
    have hbound : getHBound s.mixer s.stateCnt (t - 1) = some ts[t - 1].hBound := by
      rw [hs.stateCnt_eq, getHBound_eq hts, Array.getElem?_eq_getElem hlt, Option.map_some]
    rw [hbound]
    exact Option.some_ne_none _
  · exact Option.some_ne_none _

/-- The sounds of a threshold are loaded. -/
theorem HasThresholds.load (hs : HasThresholds i cnt s) (ht : t < cnt) (strtod : CString → ℚ)
    (lBound hBound fade : ℚ) (path : CString) :
    ∃ s', HasThresholds i cnt s' ∧
      parserLoadStateSndDir (soundless strtod) t lBound hBound (some path) fade s
        = (some true, s') := by
  obtain ⟨ts, hts, hsize⟩ := hs.thresh
  have hload : parserLoadStateSndDir (soundless strtod) t lBound hBound (some path) fade s = _ :=
    parserLoadStateSndDir_of_some hs.stateCnt_eq hts (hsize ▸ ht)
      (directorySounds_soundless strtod path)
  refine ⟨_, ?_, hload⟩
  have hthresh : ((s.mixer.withState i (putThreshold ts t (thresholdOf lBound hBound []))
      fade).states i).buf.thresh = some (putThreshold ts t (thresholdOf lBound hBound [])) :=
    Mixer.thresh_withState ..
  exact ⟨hs.stateCnt_eq, ⟨_, hthresh, (size_putThreshold ..).trans hsize⟩, hs.soundPath_ne⟩

/-- **A threshold is loaded**, or there is nothing left to read. -/
theorem parserParseThreshold_of_hasThresholds (hs : HasThresholds i cnt s) (ht : t < cnt)
    (lines : List CString) (v : ThresholdVars) :
    behindThreshold strtod lines v.seen = [] ∨
      ∃ s', HasThresholds i cnt s' ∧ parserParseThreshold (soundless strtod) t lines v s
        = (some (true, behindThreshold strtod lines v.seen), s') := by
  induction lines generalizing v with
  | nil => exact .inl rfl
  | cons line lines ih =>
    rw [parserParseThreshold_step, behindThreshold]
    rcases hstep : thresholdStep (soundless strtod) t s line v with - | ⟨- | -, v'⟩
    · rw [thresholdLine_eq_none (hs.hasBounds ht) hstep]
      exact .inl rfl
    · have hseen := thresholdStep_seen hstep
      rw [strtod_soundless] at hseen
      rw [hseen]
      exact ih v'
    · have hseen := thresholdStep_seen hstep
      rw [strtod_soundless] at hseen
      rw [hseen]
      have hcond : (v'.seen.2 = true ∧ v'.seen.1 ≠ 0) ↔ (v'.path ≠ none ∧ v'.hBound ≠ 0) :=
        and_congr_left' Option.isSome_iff_ne_none
      simp only [hcond]
      split_ifs with hready
      · obtain ⟨path, hpath⟩ := Option.ne_none_iff_exists'.mp hready.1
        obtain ⟨s', hs', hload⟩ := hs.load ht strtod v'.lBound v'.hBound v'.fade path
        rw [hpath]
        exact .inr ⟨s', hs', bind_of_some hload⟩
      · exact .inl rfl

/-- **An index behind the memory is passed** if enough thresholds are begun in the text. -/
theorem mem_parseStateLoopLogged (hs : HasThresholds i cnt s) (hle : tCount ≤ cnt)
    (h : cnt < tCount + (begun strtod turns lines).length) (name : Option CString) (l : List ℕ) :
    cnt ∈ (parseStateLoopLogged (soundless strtod) turns lines name tCount (s, l)).2.2 := by
  induction turns generalizing lines name tCount s l with
  | zero => rcases lines with - | ⟨line, lines⟩ <;> exact absurd h hle.not_gt
  | succ turns ih =>
    rcases lines with - | ⟨line, lines⟩
    · exact absurd h hle.not_gt
    obtain ⟨name', hstep⟩ :=
      parseStateLoopLogged_step (soundless strtod) turns line lines name tCount s l
    rw [hstep]
    rw [begun] at h
    rcases hline : stateStep line with - | - | - | -
    · rw [hline] at h
      exact absurd h hle.not_gt
    · rw [hline] at h
      exact ih hs hle h name' l
    · rw [hline] at h
      simp only [List.length_cons] at h ⊢
      rcases hle.eq_or_lt with rfl | hlt
      · rcases hparsed : parserParseThreshold (soundless strtod) tCount lines .start s with
          ⟨- | ⟨- | -, left⟩, t⟩
        · rw [bind_of_none (quiet_of_none hparsed)]
          exact List.mem_append_right l List.mem_cons_self
        · rw [bind_of_some (quiet_of_some hparsed)]
          exact List.mem_append_right l List.mem_cons_self
        · rw [bind_of_some (quiet_of_some hparsed)]
          obtain ⟨m, -, hlog⟩ := parseStateLoopLogged_log (soundless strtod) turns left name'
            (tCount + 1) t (l ++ [tCount])
          have hmem : tCount ∈ (l ++ [tCount]) ++ List.range' (tCount + 1) m :=
            List.mem_append_left _ (List.mem_append_right l List.mem_cons_self)
          exact hlog ▸ hmem
      · rw [← seen_start] at h
        rcases parserParseThreshold_of_hasThresholds hs hlt lines .start with
          hleft | ⟨s', hs', hparsed⟩
        · rw [hleft, begun_nil, List.length_nil] at h
          omega
        · have hrest : cnt < tCount + 1
              + (begun strtod turns
                  (behindThreshold strtod lines ThresholdVars.start.seen)).length := by
            omega
          rw [bind_of_some (quiet_of_some hparsed)]
          exact ih hs' hlt hrest name' _
    · rw [hline] at h
      exact absurd h hle.not_gt

end HasThresholds

/-! ## The two passes -/

/-- The second pass comes behind the call of the mixer. -/
theorem passedIndices_eq {status : MixerStatus} {reset : Bool}
    (hcall : callMixer s.stateCnt (fun m => m.mixerAllocNewState s.stateCnt threshCnt) s
      = (some status, s')) (hlook : lookAhead lines 0 = some (threshCnt, reset)) :
    passedIndices sys lines s = (parseStateLoopLogged sys (if reset then lines else []).length
      (if reset then lines else []) none 0 (s', [])).2.2 := by
  rw [passedIndices, parserParseStateLogged, hlook, ofOption_some, pure_bind_apply]
  simp only [quiet_get_bind]
  rw [bind_of_some (quiet_of_some hcall)]

/-- **The indices that are passed** are below the number of thresholds that are begun in the text,
and there are none if the end of the state is not found. -/
theorem lt_of_mem_passedIndices {i : ℕ} {reset : Bool}
    (hlook : lookAhead lines 0 = some (threshCnt, reset)) (h : i ∈ passedIndices sys lines s) :
    reset = true ∧ i < (begun sys.strtod lines.length lines).length := by
  rcases hcall : callMixer s.stateCnt (fun m => m.mixerAllocNewState s.stateCnt threshCnt) s with
    ⟨- | status, s'⟩
  · rw [passedIndices, parserParseStateLogged, hlook, ofOption_some, pure_bind_apply] at h
    simp only [quiet_get_bind] at h
    rw [bind_of_none (quiet_of_none hcall)] at h
    cases h
  · rw [passedIndices_eq hcall hlook] at h
    cases reset with
    | false => cases h
    | true =>
      obtain ⟨m, hm, hlog⟩ := parseStateLoopLogged_log sys lines.length lines none 0 s' []
      rw [if_pos rfl, hlog, List.nil_append, List.mem_range'_1] at h
      exact ⟨rfl, by omega⟩

/-- An index behind the memory is passed if more thresholds are begun in the text than counted, and
their sounds can be loaded. -/
theorem mem_passedIndices {i : Fin k} (hcnt : s.stateCnt = i)
    (hfree : (s.mixer.states i).buf.thresh = none) (hpath : s.soundPath ≠ none)
    (hlook : lookAhead lines 0 = some (threshCnt, true))
    (h : threshCnt < (begun strtod lines.length lines).length) :
    threshCnt ∈ passedIndices (soundless strtod) lines s := by
  obtain ⟨mixer, halloc, hthresh⟩ := mixerAllocNewState_eq hfree threshCnt
  have hcall : callMixer s.stateCnt (fun m => m.mixerAllocNewState s.stateCnt threshCnt) s
      = (some .success, { s with mixer := mixer, called := s.called ++ [s.stateCnt] }) := by
    refine callMixer_of_some ?_
    rw [hcnt]
    exact halloc
  have hs : HasThresholds i threshCnt
      { s with mixer := mixer, called := s.called ++ [s.stateCnt] } :=
    ⟨hcnt, ⟨_, hthresh, by rw [size_partly, List.length_nil, Nat.zero_add]⟩, hpath⟩
  rw [passedIndices_eq hcall hlook, if_pos rfl]
  exact mem_parseStateLoopLogged hs (Nat.zero_le threshCnt) (by omega) none []

/-- **Where the two passes agree**: a text in which the end of the state is found must not have more
lines at which a threshold is begun and not counted than lines at which one is counted and not
begun. -/
theorem indicesAgree_iff (strtod : CString → ℚ) (lines : List CString) :
    IndicesAgree strtod lines ↔
      (HasEnd lines → (uncountedLines strtod lines).card ≤ (idleLines strtod lines).card) := by
  rw [card_uncountedLines_le_iff, hasEnd_iff lines 0]
  constructor
  · rintro h ⟨cnt, hlook⟩
    have hcnt := lookAhead_eq_counted hlook
    by_contra hlt
    have hpassed : cnt ∈ passedIndices (soundless strtod) lines
        { Loader.start 0 1 0 with soundPath := some [] } :=
      mem_passedIndices (i := 0) rfl rfl (Option.some_ne_none _) hlook (by omega)
    exact (h 0 1 _ _ cnt true rfl hlook cnt hpassed).false
  · intro h n k sys s threshCnt reset hsys hlook i hi
    obtain ⟨rfl, hlt⟩ := lt_of_mem_passedIndices hlook hi
    have hle := h ⟨threshCnt, hlook⟩
    have hcnt := lookAhead_eq_counted hlook
    rw [hsys] at hlt
    omega

/-- The lines of a state with the name `threshold`. -/
def namedThreshold : List CString :=
  fgetsAll (ascii "name threshold\nlevel 1.0\npath hum\nend threshold\nend state\n")

/-- For that name no threshold is counted, and one is begun. -/
theorem not_indicesAgree_namedThreshold : ¬ IndicesAgree (fun _ => 1) namedThreshold := by
  intro h
  have hlook : lookAhead namedThreshold 0 = some (0, true) := by decide
  have hbegun : 0 < (begun (fun _ => 1) namedThreshold.length namedThreshold).length := by
    decide
  have hpassed : 0 ∈ passedIndices (soundless fun _ => 1) namedThreshold
      { Loader.start 12 4 2000 with soundPath := some (ascii "/sounds/") } :=
    mem_passedIndices (i := 0) rfl rfl (Option.some_ne_none _) hlook hbegun
  exact (h 12 4 _ _ 0 true rfl hlook 0 hpassed).false

/-- The lines of a state in which a threshold has no end, and of the next state. -/
def openThreshold : List CString :=
  fgetsAll (ascii "threshold\nlevel 1.0\npath hum\nend state\nstate\nend threshold\nthreshold\n")

/-- The threshold goes on behind the end of the state. -/
example : counted openThreshold = [6] ∧
    begun (fun _ => 1) openThreshold.length openThreshold = [6, 0] := by
  decide

end Peep
