import Peep.Library.StepSystem
import Peep.Server.Config

/-!
# Runs of the configuration parser

`parserParseConfigFile` reads a file line by line, and tests the first token of a line for the
keyword of each section, in turn. The tests for `class`, `client`, `import` and `theme` read another
token, and the tests behind them are made with it.

An imported file is parsed by a recursive call, and a theme by the passes of `xmlParseTheme`. So a
run has a stack: of each call it says where it has come to. A step reads a line, makes a test and
parses the section, or calls a handler of a pass.

## Main results

* `reaches_xmlParseTheme` — the steps of a theme are `xmlParseTheme`
-/

namespace Peep

open Bytes Decimal Program StepSystem

variable {n k : ℕ}

/-! ## Files -/

/-- `parserDirname`: what stands in front of the last `/`. -/
def parserDirname (path : CString) : Option CString :=
  if (47 : UInt8) ∈ path then some ((path.reverse.dropWhile fun c => c ≠ 47).tail.reverse) else none

/-- `parserImportStackAdd`. -/
def parserImportStackAdd (dir : CString) : Program (Loader n k) Unit :=
  change fun s =>
    if s.importStack.any fun other => strcaseeq dir other then s
    else { s with importStack := s.importStack ++ [dir] }

/-- `parserImportConfig`, with the lines of the file. -/
def parserImportConfig (sys : System) (importStack : List CString) (file : CString) :
    Option (List CString) :=
  importStack.findSome? fun dir => (sys.contents (inDir dir file)).map fgetsAll

/-- The beginning of `parserParseConfigFile`: the lines of the file. -/
def openConfigFile (sys : System) (file : CString) : Program (Loader n k) (Option (List CString)) :=
  match parserDirname file with
  | some dir => do
    parserImportStackAdd dir
    pure ((sys.contents file).map fgetsAll)
  | none => do
    let s ← get
    pure (parserImportConfig sys s.importStack file)

/-! ## Runs -/

/-- The values that `parserParseConfigFile` returns. -/
inductive ParserStatus
  /-- `PARSER_SUCCESS`. -/
  | success
  /-- `PARSER_FAILURE`. -/
  | failure
  /-- `PARSER_GENERAL_ERROR`. -/
  | generalError
  /-- `PARSER_CLASS_ERROR`. -/
  | classError
  /-- `PARSER_EVENT_ERROR`. -/
  | eventError
  /-- `PARSER_STATE_ERROR`. -/
  | stateError
  /-- `PARSER_IMPORT_ERROR`. -/
  | importError
  /-- `PARSER_THEME_ERROR`. -/
  | themeError
  deriving DecidableEq

/-- The tests of a line, in their order. -/
inductive ConfigTest
  /-- `PARSER_GENERAL_TOKEN`. -/
  | general
  /-- `PARSER_CLASS_TOKEN`. -/
  | cls
  /-- `PARSER_CLIENT_TOKEN`. -/
  | client
  /-- `PARSER_EVENT_TOKEN`. -/
  | event
  /-- `PARSER_STATE_TOKEN`. -/
  | state
  /-- `PARSER_IMPORT_TOKEN`. -/
  | import
  /-- `PARSER_THEME_TOKEN`. -/
  | theme
  deriving DecidableEq

/-- Where a call has come to. -/
inductive ConfigFrame
  /-- `parserParseConfigFile`, at the next line. -/
  | line (lines : List CString)
  /-- `parserParseConfigFile`, at a test, with the token and the lines behind it. -/
  | test (test : ConfigTest) (tok : Tok) (lines : List CString)
  /-- The first pass of `xmlParseTheme`, with the calls that are left. -/
  | firstPass (info : FirstPassInfo) (left calls : List XmlCall) (parsed : Bool)
  /-- The second pass. -/
  | secondPass (info : SecondPassInfo) (left : List XmlCall)

/-- The call is one of `parserParseConfigFile`. -/
def ConfigFrame.isFile : ConfigFrame → Bool
  | .line _ | .test .. => true
  | _ => false

/-- What becomes of a call in a step. -/
inductive ConfigOutcome
  /-- These calls take its place. -/
  | goesOn (frames : List ConfigFrame)
  /-- The parser fails. -/
  | fails (status : ParserStatus)

/-- A section that was parsed. -/
def afterSection (parsed : Bool × List CString) (status : ParserStatus) (test : ConfigTest)
    (tok : Tok) : ConfigOutcome :=
  if parsed.1 then .goesOn [.test test tok parsed.2] else .fails status

/-- A test of a line, and what parses the section. -/
def stepTest (sys : System) (tok : Tok) (lines : List CString) :
    ConfigTest → Program (Loader n k) ConfigOutcome
  | .general =>
    if tok.is "general" then do
      let parsed ← parserParseGeneral sys lines
      pure (afterSection parsed .generalError .cls tok)
    else pure (.goesOn [.test .cls tok lines])
  | .cls =>
    if tok.is "class" then do
      let tok ← tokenize tok.remainder
      let parsed ← parserParseClass sys tok.token lines
      pure (afterSection parsed .classError .client tok)
    else pure (.goesOn [.test .client tok lines])
  | .client =>
    if tok.is "client" then do
      let tok ← tokenize tok.remainder
      let (tok, lines) ← skipClient tok lines
      pure (.goesOn [.test .event tok lines])
    else pure (.goesOn [.test .event tok lines])
  | .event =>
    if tok.is "event" then do
      let parsed ← parserParseEvent sys lines none none
      pure (afterSection parsed .eventError .state tok)
    else pure (.goesOn [.test .state tok lines])
  | .state =>
    if tok.is "state" then do
      let parsed ← parserParseState sys lines
      pure (afterSection parsed .stateError .import tok)
    else pure (.goesOn [.test .import tok lines])
  | .import =>
    if tok.is "import" then do
      let tok ← tokenize tok.remainder
      match ← openConfigFile sys tok.token with
      | none => pure (.fails .importError)
      | some imported => pure (.goesOn [.line imported, .test .theme tok lines])
    else pure (.goesOn [.test .theme tok lines])
  | .theme =>
    if tok.is "theme" then do
      let tok ← tokenize tok.remainder
      match sys.contents tok.token with
      | none => pure (.fails .themeError)
      | some contents =>
        -- the buffer that is copied first has not been written if the file is empty
        if contents = [] then crash
        else
          let s ← get
          let (calls, parsed) := sys.expat (fgetsAll contents).flatten
          pure (.goesOn [.firstPass (FirstPassInfo.start s.soundPath) calls calls parsed,
            .line lines])
    else pure (.goesOn [.line lines])

/-- A step of a call. -/
def stepFrame (sys : System) : ConfigFrame → Program (Loader n k) ConfigOutcome
  | .line [] => pure (.goesOn [])
  | .line (line :: lines) => do
    let tok ← tokenize (some line)
    if line.head? = some 35 ∨ line.head? = some 10 then pure (.goesOn [.line lines])
    else pure (.goesOn [.test .general tok lines])
  | .test test tok lines => stepTest sys tok lines test
  | .firstPass info (call :: left) calls parsed => do
    let info ← firstPassHandlers.call info call
    pure (.goesOn [.firstPass info left calls parsed])
  | .firstPass info [] calls parsed =>
    pure (if parsed then .goesOn [.secondPass (SecondPassInfo.start info.thresholds) calls]
      else .fails .themeError)
  | .secondPass info (call :: left) => do
    let info ← (secondPassHandlers sys).call info call
    pure (.goesOn [.secondPass info left])
  | .secondPass _ [] => do
    freeTransTable
    pure (.goesOn [])

/-- A run of the parser: the calls, the innermost first, and what has been loaded. When there are no
calls any more, the parser has returned a status, or it has crashed. -/
structure ConfigRun (n k : ℕ) where
  /-- The calls. -/
  frames : List ConfigFrame
  /-- What has been returned. -/
  status : Option ParserStatus
  /-- What has been loaded. -/
  loader : Loader n k

/-- What the outermost call returns if one of the calls fails. -/
def failed (frames : List ConfigFrame) (status : ParserStatus) : ParserStatus :=
  if 1 < frames.countP ConfigFrame.isFile then .importError else status

/-- A step of a run. -/
def configStep (sys : System) (r : ConfigRun n k) (_ : Unit) : Option (ConfigRun n k) :=
  match r.frames with
  | [] => none
  | frame :: below =>
    match stepFrame sys frame r.loader with
    | (none, s) => some ⟨[], none, s⟩
    | (some (.goesOn frames), s) =>
      some ⟨frames ++ below, if frames ++ below = [] then some .success else none, s⟩
    | (some (.fails status), s) => some ⟨[], some (failed (frame :: below) status), s⟩

/-- The run of a call of `parserParseConfigFile`. -/
def parserParseConfigFile (sys : System) (file : CString) (s : Loader n k) : ConfigRun n k :=
  match openConfigFile sys file s with
  | (none, s) => ⟨[], none, s⟩
  | (some none, s) => ⟨[], some .failure, s⟩
  | (some (some lines), s) => ⟨[.line lines], none, s⟩

/-- A run can come to this point. -/
def Reaches (sys : System) (r r' : ConfigRun n k) : Prop :=
  ∃ run, exec (configStep sys) r run = some r'

variable {sys : System} {r r' r'' : ConfigRun n k} {s s' : Loader n k} {frame : ConfigFrame}
  {frames below : List ConfigFrame} {status : Option ParserStatus} {calls left : List XmlCall}

theorem Reaches.refl (sys : System) (r : ConfigRun n k) : Reaches sys r r := ⟨[], rfl⟩

theorem Reaches.trans (h : Reaches sys r r') (h' : Reaches sys r' r'') : Reaches sys r r'' := by
  obtain ⟨run, hrun⟩ := h
  obtain ⟨run', hrun'⟩ := h'
  exact ⟨run ++ run', exec_append_eq_some.mpr ⟨r', hrun, hrun'⟩⟩

theorem Reaches.of_step (h : configStep sys r () = some r') : Reaches sys r r' :=
  ⟨[()], exec_cons_eq_some.mpr ⟨r', h, rfl⟩⟩

/-- A step that goes on. -/
theorem configStep_of_goesOn (h : stepFrame sys frame s = (some (.goesOn frames), s')) :
    configStep sys ⟨frame :: below, status, s⟩ ()
      = some ⟨frames ++ below, if frames ++ below = [] then some .success else none, s'⟩ := by
  simp only [configStep, h]

/-- A step that fails. -/
theorem configStep_of_fails {error : ParserStatus}
    (h : stepFrame sys frame s = (some (.fails error), s')) :
    configStep sys ⟨frame :: below, status, s⟩ ()
      = some ⟨[], some (failed (frame :: below) error), s'⟩ := by
  simp only [configStep, h]

/-- A step that crashes. -/
theorem configStep_of_none (h : stepFrame sys frame s = (none, s')) :
    configStep sys ⟨frame :: below, status, s⟩ () = some ⟨[], none, s'⟩ := by
  simp only [configStep, h]

/-- A step to another point of the same call. -/
theorem Reaches.goesOn {frame' : ConfigFrame}
    (h : stepFrame sys frame s = (some (.goesOn (frame' :: frames)), s')) :
    Reaches sys ⟨frame :: below, status, s⟩ ⟨frame' :: (frames ++ below), none, s'⟩ :=
  .of_step (configStep_of_goesOn h)

/-- A step to the next point of the same call. -/
theorem Reaches.next {frame' : ConfigFrame}
    (h : stepFrame sys frame s = (some (.goesOn [frame']), s')) :
    Reaches sys ⟨frame :: below, status, s⟩ ⟨frame' :: below, none, s'⟩ := .goesOn h

theorem configStep_of_nil (h : r.frames = []) (u : Unit) : configStep sys r u = none := by
  rw [configStep, h]

/-- **A run ends in one way.** -/
theorem Reaches.eq_of_nil (h : Reaches sys r r') (h' : Reaches sys r r'') (hr : r'.frames = [])
    (hr' : r''.frames = []) : r' = r'' := by
  obtain ⟨run, hrun⟩ := h
  obtain ⟨run', hrun'⟩ := h'
  induction run generalizing r run' with
  | nil =>
    obtain rfl := Option.some.inj hrun
    cases run' with
    | nil => exact Option.some.inj hrun'
    | cons u run' => rw [exec_cons, configStep_of_nil hr] at hrun'; cases hrun'
  | cons u run ih =>
    obtain ⟨next, hnext, hrun⟩ := exec_cons_eq_some.mp hrun
    cases run' with
    | nil =>
      obtain rfl := Option.some.inj hrun'
      rw [configStep_of_nil hr'] at hnext
      cases hnext
    | cons u' run' =>
      obtain ⟨next', hnext', hrun'⟩ := exec_cons_eq_some.mp hrun'
      obtain rfl := Option.some.inj (hnext.symm.trans hnext')
      exact ih hrun run' hrun'

/-! ## Themes -/

/-- **The steps of the first pass.** -/
theorem reaches_firstPass (info : FirstPassInfo) (left : List XmlCall) (parsed : Bool)
    (s : Loader n k) :
    Reaches sys ⟨.firstPass info left calls parsed :: below, none, s⟩
      (match firstPassHandlers.parse info left s with
        | (none, s) => ⟨[], none, s⟩
        | (some info, s) => ⟨.firstPass info [] calls parsed :: below, none, s⟩) := by
  induction left generalizing info s with
  | nil => exact .refl sys _
  | cons call left ih =>
    show Reaches sys _ (match (firstPassHandlers.call info call >>= fun info =>
      firstPassHandlers.parse info left) s with
        | (none, s) => ⟨[], none, s⟩
        | (some info, s) => ⟨.firstPass info [] calls parsed :: below, none, s⟩)
    rcases hcall : firstPassHandlers.call info call s with ⟨- | info', s'⟩
    · rw [bind_of_none hcall]
      exact .of_step (configStep_of_none (bind_of_none hcall))
    · rw [bind_of_some hcall]
      exact (Reaches.goesOn (bind_of_some hcall)).trans (ih info' s')

/-- **The steps of the second pass.** -/
theorem reaches_secondPass (info : SecondPassInfo) (left : List XmlCall) (s : Loader n k) :
    Reaches sys ⟨.secondPass info left :: below, none, s⟩
      (match (secondPassHandlers sys).parse info left s with
        | (none, s) => ⟨[], none, s⟩
        | (some info, s) => ⟨.secondPass info [] :: below, none, s⟩) := by
  induction left generalizing info s with
  | nil => exact .refl sys _
  | cons call left ih =>
    show Reaches sys _ (match ((secondPassHandlers sys).call info call >>= fun info =>
      (secondPassHandlers sys).parse info left) s with
        | (none, s) => ⟨[], none, s⟩
        | (some info, s) => ⟨.secondPass info [] :: below, none, s⟩)
    rcases hcall : (secondPassHandlers sys).call info call s with ⟨- | info', s'⟩
    · rw [bind_of_none hcall]
      exact .of_step (configStep_of_none (bind_of_none hcall))
    · rw [bind_of_some hcall]
      exact (Reaches.goesOn (bind_of_some hcall)).trans (ih info' s')

/-- Where a run goes on behind a theme. -/
def afterTheme (lines : List CString) (below : List ConfigFrame) :
    Option Bool × Loader n k → ConfigRun n k
  | (none, s) => ⟨[], none, s⟩
  | (some false, s) => ⟨[], some (failed (.line lines :: below) .themeError), s⟩
  | (some true, s) => ⟨.line lines :: below, none, s⟩

/-- **The steps of a theme are `xmlParseTheme`.** -/
theorem reaches_xmlParseTheme (xml : CString) (soundPath : Option CString) (lines : List CString)
    (s : Loader n k) :
    Reaches sys ⟨.firstPass (FirstPassInfo.start soundPath) (sys.expat xml).1 (sys.expat xml).1
        (sys.expat xml).2 :: .line lines :: below, none, s⟩
      (afterTheme lines below (xmlParseTheme sys xml soundPath s)) := by
  rw [xmlParseTheme]
  obtain ⟨calls, parsed⟩ := sys.expat xml
  refine (reaches_firstPass _ calls parsed s).trans ?_
  show Reaches sys _ (afterTheme lines below ((xmlFirstPass soundPath calls >>= fun first =>
    if !parsed then pure false
    else xmlSecondPass sys first.thresholds calls >>= fun _ =>
      if !parsed then pure false else freeTransTable >>= fun _ => pure true) s))
  rcases hfirst : xmlFirstPass soundPath calls s with ⟨- | first, s₁⟩
  · rw [bind_of_none hfirst]
    rw [xmlFirstPass] at hfirst
    rw [hfirst]
    exact .refl sys _
  · rw [bind_of_some hfirst]
    rw [xmlFirstPass] at hfirst
    rw [hfirst]
    cases parsed with
    | false => exact .of_step (configStep_of_fails rfl)
    | true =>
      refine (Reaches.goesOn rfl).trans ((reaches_secondPass _ calls s₁).trans ?_)
      show Reaches sys _ (afterTheme lines below ((xmlSecondPass sys first.thresholds calls >>=
        fun _ => freeTransTable >>= fun _ => pure true) s₁))
      rcases hsecond : xmlSecondPass sys first.thresholds calls s₁ with ⟨- | second, s₂⟩
      · rw [bind_of_none hsecond]
        rw [xmlSecondPass] at hsecond
        rw [hsecond]
        exact .refl sys _
      · rw [bind_of_some hsecond]
        rw [xmlSecondPass] at hsecond
        rw [hsecond]
        rcases hfree : freeTransTable s₂ with ⟨- | u, s₃⟩
        · rw [bind_of_none hfree]
          exact .of_step (configStep_of_none (bind_of_none hfree))
        · rw [bind_of_some hfree]
          have hstep : stepFrame sys (.secondPass second []) s₂ = (some (.goesOn []), s₃) :=
            bind_of_some hfree
          exact .of_step (configStep_of_goesOn hstep)

end Peep
