import Peep.Server.ConfigImports

/-!
# The end of a configuration file

Whatever is in the files, `parserParseConfigFile` comes to an end, if no file leads back to itself.
A section takes lines from the file that it begins in, and from no other one. So a call gets through
the last lines of its file, then through one line more, and an import is no obstacle if the call for
the file that it opens comes to an end.

## Choices

A line can open a file even if it does not begin with `import`: the token that is tested may be one
of a section that ended before, as in `class import`. So a line leads to a file if the word
`import` stands somewhere on it in front of the name.

## Main results

* `parserParseConfigFile_ends` — the parser returns, or it crashes
-/

namespace Peep

open Bytes Decimal Program Text Imports

variable {n k : ℕ} {sys : System} {tok tok' : Tok} {line : CString} {lines left : List CString}

/-! ## What a section leaves -/

/-- The general section. -/
theorem yields_parserParseGeneral (lines : List CString) :
    Yields (fun parsed => parsed.2 <:+ lines)
      (parserParseGeneral sys lines : Program (Loader n k) _) := by
  induction lines with
  | nil => exact yields_pure List.suffix_rfl
  | cons line lines ih =>
    have htail := List.suffix_cons line lines
    refine yields_bind _ fun tok => yields_bind _ fun version => ?_
    cases version with
    | none => exact yields_pure htail
    | some tok =>
      refine yields_bind _ fun tok => yields_bind _ fun ends => yields_ite (yields_pure htail) ?_
      exact ih.mono fun _ h => h.trans htail

/-- A class. -/
theorem yields_parserParseClass (cls : CString) (lines : List CString) :
    Yields (fun parsed => parsed.2 <:+ lines)
      (parserParseClass sys cls lines : Program (Loader n k) _) := by
  induction lines with
  | nil => exact yields_pure List.suffix_rfl
  | cons line lines ih =>
    have htail := List.suffix_cons line lines
    have hnext : Yields (fun parsed => parsed.2 <:+ line :: lines)
        (parserParseClass sys cls lines : Program (Loader n k) _) :=
      ih.mono fun _ h => h.trans htail
    refine yields_bind _ fun tok => yields_ite hnext (yields_bind _ fun tok => ?_)
    refine yields_bind _ fun tok => yields_bind _ fun ends => ?_
    exact yields_ite (yields_pure htail) hnext

/-- An event. -/
theorem yields_parserParseEvent (lines : List CString) (name path : Option CString) :
    Yields (fun parsed => parsed.2 <:+ lines)
      (parserParseEvent sys lines name path : Program (Loader n k) _) := by
  induction lines generalizing name path with
  | nil => exact yields_pure List.suffix_rfl
  | cons line lines ih =>
    have htail := List.suffix_cons line lines
    have hnext : ∀ name path, Yields (fun parsed => parsed.2 <:+ line :: lines)
        (parserParseEvent sys lines name path : Program (Loader n k) _) := fun name path =>
      (ih name path).mono fun _ h => h.trans htail
    refine yields_bind _ fun tok => yields_ite (hnext name path) ?_
    refine yields_bind _ fun ⟨tok, name⟩ => yields_bind _ fun ⟨tok, path⟩ => ?_
    refine yields_bind _ fun ends => yields_ite ?_ (hnext name path)
    rcases name with - | name
    · exact yields_pure htail
    · rcases path with - | path
      · exact yields_pure htail
      · exact yields_bind _ fun loaded => yields_pure htail

/-- A threshold. -/
theorem yields_parserParseThreshold (threshCnt : ℕ) (lines : List CString) (v : ThresholdVars) :
    Yields (fun parsed => parsed.2 <:+ lines)
      (parserParseThreshold sys threshCnt lines v : Program (Loader n k) _) := by
  induction lines generalizing v with
  | nil => exact yields_pure List.suffix_rfl
  | cons line lines ih =>
    have htail := List.suffix_cons line lines
    have hnext : ∀ v, Yields (fun parsed => parsed.2 <:+ line :: lines)
        (parserParseThreshold sys threshCnt lines v : Program (Loader n k) _) := fun v =>
      (ih v).mono fun _ h => h.trans htail
    refine yields_bind _ fun tok => yields_ite (hnext v) ?_
    refine yields_bind _ fun ⟨tok, v⟩ => yields_bind _ fun ⟨tok, path⟩ => ?_
    refine yields_bind _ fun ⟨tok, v⟩ => yields_bind _ fun ends => yields_ite ?_ (hnext v)
    exact yields_ite (yields_bind _ fun loaded => yields_pure htail) yields_crash

/-- The second loop of a state. -/
theorem yields_parseStateLoop (turns : ℕ) (lines : List CString) (name : Option CString)
    (tCount : ℕ) : Yields (fun parsed => parsed.2 <:+ lines)
      (parseStateLoop sys turns lines name tCount : Program (Loader n k) _) := by
  induction turns generalizing lines name tCount with
  | zero =>
    cases lines with
    | nil => exact yields_pure List.suffix_rfl
    | cons line lines => exact yields_crash
  | succ turns ih =>
    cases lines with
    | nil => exact yields_pure List.suffix_rfl
    | cons line lines =>
      have htail := List.suffix_cons line lines
      refine yields_bind _ fun tok =>
        yields_ite ((ih lines name tCount).mono fun _ h => h.trans htail) ?_
      refine yields_bind _ fun ⟨tok, name⟩ => ?_
      have hthreshold : Yields (fun parsed => parsed.2.1 <:+ lines)
          (parseThreshold sys tok lines tCount : Program (Loader n k) _) :=
        yields_ite ((yields_parserParseThreshold tCount lines .start).bind fun _ h => yields_pure h)
          (yields_pure List.suffix_rfl)
      refine hthreshold.bind fun ⟨loaded, left, tCount⟩ hleft => ?_
      have hleft : left <:+ line :: lines := hleft.trans htail
      refine yields_ite (yields_pure hleft) (yields_bind _ fun ends => yields_ite ?_ ?_)
      · exact yields_bind _ fun registered => yields_pure hleft
      · exact (ih left name tCount).mono fun _ h => h.trans hleft

/-- A state. -/
theorem yields_parserParseState (lines : List CString) :
    Yields (fun parsed => parsed.2 <:+ lines)
      (parserParseState sys lines : Program (Loader n k) _) := by
  refine yields_bind _ fun ⟨threshCnt, reset⟩ => yields_bind _ fun s => yields_bind _ fun _ => ?_
  refine (yields_parseStateLoop _ _ none 0).mono fun parsed hleft => hleft.trans ?_
  cases reset with
  | false => exact List.nil_suffix
  | true => exact List.suffix_rfl

/-! ## Tokens -/

/-- The token is one of those on the lines. -/
def TokenIn (tok : Tok) (lines : List CString) : Prop := ∃ line ∈ lines, tok ∈ tokens (some line)

theorem mem_tokens_of_some {r : Option CString} (h : parserTokenize r = some tok) :
    tok ∈ tokens r := by
  rw [tokens_of_some h]
  exact List.mem_cons_self

/-- What is behind a token. -/
theorem mem_tokens_next {r : Option CString} (h : tok ∈ tokens r)
    (htok' : parserTokenize tok.remainder = some tok') : tok' ∈ tokens r := by
  induction hroom : roomOf r using Nat.strong_induction_on generalizing r with
  | _ room ih =>
    cases hfirst : parserTokenize r with
    | none =>
      obtain rfl : r = none := by
        cases r with
        | none => rfl
        | some line => cases hfirst
      exact absurd h List.not_mem_nil
    | some first =>
      have hlt := roomOf_remainder_lt hfirst
      rw [tokens_of_some hfirst] at h ⊢
      rcases List.mem_cons.mp h with rfl | h
      · exact List.mem_cons_of_mem _ (mem_tokens_of_some htok')
      · exact List.mem_cons_of_mem _ (ih _ (hroom ▸ hlt) h rfl)

theorem TokenIn.next (h : TokenIn tok lines) (htok' : parserTokenize tok.remainder = some tok') :
    TokenIn tok' lines := by
  obtain ⟨line, hline, htok⟩ := h
  exact ⟨line, hline, mem_tokens_next htok htok'⟩

theorem TokenIn.mono {more : List CString} (h : TokenIn tok lines) (hmore : lines ⊆ more) :
    TokenIn tok more := by
  obtain ⟨line, hline, htok⟩ := h
  exact ⟨line, hmore hline, htok⟩

theorem yields_tokenize (remainder : Option CString) :
    Yields (fun tok => parserTokenize remainder = some tok)
      (tokenize remainder : Program (Loader n k) _) := yields_ofOption fun _ h => h

/-- The section of a client, with the token that was read last. -/
theorem yields_skipClient (tok : Tok) (lines : List CString) :
    Yields (fun skipped => skipped.2 <:+ lines ∧ (skipped.1 = tok ∨ TokenIn skipped.1 lines))
      (skipClient tok lines : Program (Loader n k) _) := by
  induction lines generalizing tok with
  | nil => exact yields_pure ⟨List.suffix_rfl, .inl rfl⟩
  | cons line lines ih =>
    have htail := List.suffix_cons line lines
    have hmem : line ∈ line :: lines := List.mem_cons_self
    have hread : ∀ tok, tok ∈ tokens (some line) →
        Yields (fun skipped => skipped.2 <:+ line :: lines ∧ TokenIn skipped.1 (line :: lines))
          (skipClient tok lines : Program (Loader n k) _) := by
      intro tok htok
      refine (ih tok).mono fun _ ⟨hleft, hskipped⟩ => ⟨hleft.trans htail, ?_⟩
      rcases hskipped with rfl | hskipped
      · exact ⟨line, hmem, htok⟩
      · exact hskipped.mono htail.subset
    have hright : Yields (fun skipped => skipped.2 <:+ line :: lines ∧
        TokenIn skipped.1 (line :: lines)) (skipClient tok (line :: lines) :
          Program (Loader n k) _) := by
      refine (yields_tokenize (some line)).bind fun tok htok => ?_
      have htok := mem_tokens_of_some htok
      refine yields_ite ?_ (hread tok htok)
      refine (yields_tokenize tok.remainder).bind fun tok' htok' => ?_
      have htok' := mem_tokens_next htok htok'
      exact yields_ite (yields_pure ⟨htail, line, hmem, htok'⟩) (hread tok' htok')
    exact hright.mono fun _ ⟨hleft, hskipped⟩ => ⟨hleft, .inr hskipped⟩

/-! ## Tests -/

/-- The test behind one that parses a section of the file. -/
def ConfigTest.behind : ConfigTest → Option ConfigTest
  | .general => some .cls
  | .cls => some .client
  | .client => some .event
  | .event => some .state
  | .state => some .import
  | .import | .theme => none

/-- The call comes to this test, with a token of the file, and lines from the end of these. -/
def ComesTo (test : ConfigTest) (raws lines : List CString) (outcome : ConfigOutcome) : Prop :=
  ∀ frames, outcome = .goesOn frames →
    ∃ tok left, frames = [.test test tok left] ∧ TokenIn tok raws ∧ left <:+ lines

/-- **A test that parses a section.** -/
theorem yields_stepTest {test test' : ConfigTest} {raws : List CString}
    (h : test.behind = some test') (hlines : lines ⊆ raws) (htok : TokenIn tok raws) :
    Yields (ComesTo test' raws lines) (stepTest sys tok lines test : Program (Loader n k) _) := by
  have hgoes : ∀ tok left, TokenIn tok raws → left <:+ lines →
      ComesTo test' raws lines (.goesOn [.test test' tok left]) := by
    rintro tok left htok hleft _ ⟨⟩
    exact ⟨tok, left, rfl, htok, hleft⟩
  have hafter : ∀ tok status (parsed : Bool × List CString), TokenIn tok raws →
      parsed.2 <:+ lines → ComesTo test' raws lines (afterSection parsed status test' tok) := by
    intro tok status parsed htok hleft
    rw [afterSection]
    split_ifs
    · exact hgoes tok parsed.2 htok hleft
    · exact fun _ h => nomatch h
  have hskip : Yields (ComesTo test' raws lines)
      (pure (.goesOn [.test test' tok lines]) : Program (Loader n k) _) :=
    yields_pure (hgoes tok lines htok List.suffix_rfl)
  cases test with
  | general =>
    obtain rfl := Option.some.inj h
    exact yields_ite ((yields_parserParseGeneral lines).bind fun parsed hleft =>
      yields_pure (hafter tok _ parsed htok hleft)) hskip
  | cls =>
    obtain rfl := Option.some.inj h
    exact yields_ite ((yields_tokenize tok.remainder).bind fun tok' htok' =>
      (yields_parserParseClass tok'.token lines).bind fun parsed hleft =>
        yields_pure (hafter tok' _ parsed (htok.next htok') hleft)) hskip
  | client =>
    obtain rfl := Option.some.inj h
    refine yields_ite ((yields_tokenize tok.remainder).bind fun tok' htok' => ?_) hskip
    refine (yields_skipClient tok' lines).bind fun ⟨last, left⟩ ⟨hleft, hlast⟩ => ?_
    refine yields_pure (hgoes last left ?_ hleft)
    rcases hlast with rfl | hlast
    · exact htok.next htok'
    · exact hlast.mono hlines
  | event =>
    obtain rfl := Option.some.inj h
    exact yields_ite ((yields_parserParseEvent lines none none).bind fun parsed hleft =>
      yields_pure (hafter tok _ parsed htok hleft)) hskip
  | state =>
    obtain rfl := Option.some.inj h
    exact yields_ite ((yields_parserParseState lines).bind fun parsed hleft =>
      yields_pure (hafter tok _ parsed htok hleft)) hskip
  | «import» => cases h
  | theme => cases h

/-! ## The import stack -/

variable {I : List CString → Prop} {s : Loader n k} {frame : ConfigFrame}

/-- Nothing that loads a sound looks at the import stack. -/
theorem stable_importStack (I : List CString → Prop) :
    Loader.Stable fun s : Loader n k => I s.importStack where
  mixer _ _ h _ := h
  skip _ h _ := h
  event _ _ _ _ _ h _ := h
  trans _ _ h := h
  count _ _ h := h

/-- **Only a test for an import changes the import stack.** -/
theorem keeps_importStack (hs : I s.importStack)
    (himport : ∀ tok lines, frame ≠ .test .import tok lines) :
    I (stepFrame sys frame s).2.importStack := by
  have hP := stable_importStack (n := n) (k := k) I
  have hpure : ∀ outcome : ConfigOutcome, Carries (fun s : Loader n k => I s.importStack)
      (fun s => I s.importStack) (pure outcome) := fun outcome =>
    carries_pure (fun _ h => h) outcome
  refine hP.keeps_stepFrame (fun _ _ h => h) (fun _ _ _ _ h => h) hs
    (fun tok lines h => absurd h (himport tok lines)) ?_ ?_
  · rintro tok lines rfl
    have hparse : Carries (fun s : Loader n k => I s.importStack) (fun s => I s.importStack)
        (parserParseState sys lines) := fun s hs =>
      hP.carries_parserParseState (fun _ h => h)
        (carries_registerState_of (fun _ _ h => h) fun _ _ h => h) (fun _ _ => hs) fun _ => hs
    exact (carries_ite (fun _ => hparse.next fun _ => hpure _) fun _ => hpure _ :
      Carries _ _ _) s hs
  · rintro info ⟨token, behind⟩ left rfl
    have hcall : Carries (fun s : Loader n k => I s.importStack) (fun s => I s.importStack)
        ((secondPassHandlers sys).call info ⟨token, behind⟩) := by
      intro s hs
      cases token with
      | start tag =>
        exact keeps_secondPassStart (P := fun s => I s.importStack) info tag hs fun _ _ _ _ => hs
      | text text =>
        rw [XmlHandlers.call_text]
        cases createXmlNormalizedString (text ++ behind) text.length with
        | none => exact hs
        | some string => exact hP.carries_secondPassChar info string s hs
      | stop tag =>
        show I (xmlParseSecondPassEnd sys info tag s).2.importStack
        by_cases hregisters : info.registers tag
        · obtain ⟨name, -, hend⟩ := secondPassEnd_of_registers hregisters sys s
          rw [hend]
          split
          · exact hs
          · exact hs
        · exact hP.carries_secondPassEnd hregisters s hs
    exact (hcall.next fun _ => hpure _) s hs

/-! ## Runs -/

/-- The parser gets through these calls to those below them, or it stops. -/
def Finishes (n k : ℕ) (sys : System) (I : List CString → Prop) (frames : List ConfigFrame) :
    Prop :=
  ∀ (below : List ConfigFrame) (s : Loader n k), I s.importStack →
    ∃ xs r, ConfigEmits sys ⟨frames ++ below, none, s⟩ xs r ∧
      (r.frames = [] ∨ ∃ t : Loader n k, I t.importStack ∧ r = ⟨below, none, t⟩)

theorem finishes_nil : Finishes n k sys I [] := fun _ s hs => ⟨[], _, .refl _, .inr ⟨s, hs, rfl⟩⟩

/-- One call after the other. -/
theorem Finishes.cons {frames : List ConfigFrame} (h : Finishes n k sys I [frame])
    (hframes : Finishes n k sys I frames) : Finishes n k sys I (frame :: frames) := by
  intro below s hs
  obtain ⟨xs, r, hrun, hr | ⟨t, ht, rfl⟩⟩ := h (frames ++ below) s hs
  · exact ⟨xs, r, hrun, .inl hr⟩
  · obtain ⟨ys, r, hrun', hr⟩ := hframes below t ht
    exact ⟨xs ++ ys, r, hrun.trans hrun', hr⟩

/-- The calls finish that a step goes on with. -/
def ConfigOutcome.Finishes (n k : ℕ) (sys : System) (I : List CString → Prop) :
    ConfigOutcome → Prop
  | .goesOn frames => Peep.Finishes n k sys I frames
  | .fails _ => True

/-- **The rule for a step.** -/
theorem finishes_of_step (h : ∀ s : Loader n k, I s.importStack →
      I (stepFrame sys frame s).2.importStack ∧
      ∀ outcome, (stepFrame sys frame s).1 = some outcome → outcome.Finishes n k sys I) :
    Finishes n k sys I [frame] := by
  intro below s hs
  obtain ⟨ht, houtcome⟩ := h s hs
  rcases hstep : stepFrame sys frame s with ⟨- | ⟨frames | error⟩, t⟩
  · exact ⟨_, _, .of_step (configStep_of_none hstep), .inl rfl⟩
  · rw [hstep] at ht houtcome
    have hnext : configStep sys ⟨frame :: below, none, s⟩ () = some ⟨frames ++ below, _, t⟩ :=
      configStep_of_goesOn hstep
    by_cases hnil : frames ++ below = []
    · exact ⟨_, _, .of_step hnext, .inl hnil⟩
    · rw [if_neg hnil] at hnext
      obtain ⟨xs, r, hrun, hr⟩ := houtcome _ rfl below t ht
      exact ⟨_, r, .head hnext hrun, hr⟩
  · exact ⟨_, _, .of_step (configStep_of_fails hstep), .inl rfl⟩

/-- The rule for a step that does not open a file. -/
theorem finishes_of_yields (himport : ∀ tok lines, frame ≠ .test .import tok lines)
    (h : Yields (ConfigOutcome.Finishes n k sys I)
      (stepFrame sys frame : Program (Loader n k) _)) : Finishes n k sys I [frame] :=
  finishes_of_step fun s hs =>
    ⟨keeps_importStack hs himport, fun outcome houtcome => h s outcome _ (Prod.ext houtcome rfl)⟩

/-- What goes on with calls that finish. -/
theorem yields_goesOn {frames : List ConfigFrame} (h : Finishes n k sys I frames) :
    Yields (ConfigOutcome.Finishes n k sys I)
      (pure (.goesOn frames) : Program (Loader n k) _) := yields_pure h

theorem yields_fails (status : ParserStatus) : Yields (ConfigOutcome.Finishes n k sys I)
    (pure (.fails status) : Program (Loader n k) _) := yields_pure trivial

/-! ## Themes -/

theorem finishes_secondPass (info : SecondPassInfo) (left : List XmlCall) :
    Finishes n k sys I [.secondPass info left] := by
  induction left generalizing info with
  | nil =>
    exact finishes_of_yields (fun _ _ h => nomatch h)
      (yields_bind freeTransTable fun _ => yields_goesOn finishes_nil)
  | cons call left ih =>
    exact finishes_of_yields (fun _ _ h => nomatch h)
      (yields_bind _ fun info => yields_goesOn (ih info))

/-- **A theme.** -/
theorem finishes_firstPass (info : FirstPassInfo) (left calls : List XmlCall) (parsed : Bool) :
    Finishes n k sys I [.firstPass info left calls parsed] := by
  induction left generalizing info with
  | nil =>
    refine finishes_of_yields (fun _ _ h => nomatch h) ?_
    cases parsed with
    | false => exact yields_fails .themeError
    | true => exact yields_goesOn (finishes_secondPass _ calls)
  | cons call left ih =>
    exact finishes_of_yields (fun _ _ h => nomatch h)
      (yields_bind _ fun info => yields_goesOn (ih info))

/-! ## Files -/

/-- The file of this name may be opened because of one of the lines. -/
def LeadsTo (lines : List CString) (name : CString) : Prop :=
  ∃ tok tok', TokenIn tok lines ∧ tok.is "import" = true ∧
    parserTokenize tok.remainder = some tok' ∧ tok'.token = name

/-- The calls for the ends of a file finish. -/
def LinesFinish (n k : ℕ) (sys : System) (I : List CString → Prop) (lines : List CString) : Prop :=
  ∀ left, left <:+ lines → Finishes n k sys I [.line left]

/-- The calls for the files that these lines may open finish. -/
def OpensFinish (n k : ℕ) (sys : System) (I : List CString → Prop) (raws : List CString) : Prop :=
  ∀ name, LeadsTo raws name → ∀ stack, I stack → I (stackWith name stack) ∧
    ∀ imported, opened sys name stack = some imported → Finishes n k sys I [.line imported]

/-- A test for an import. -/
theorem finishes_import {raws : List CString} (hopens : OpensFinish n k sys I raws)
    (htok : TokenIn tok raws)
    (hnext : ∀ tok', TokenIn tok' raws → Finishes n k sys I [.test .theme tok' lines]) :
    Finishes n k sys I [.test .import tok lines] := by
  refine finishes_of_step fun s hs => ?_
  show I (stepTest sys tok lines .import s).2.importStack ∧ ∀ outcome, (stepTest sys tok lines
    .import s).1 = some outcome → outcome.Finishes n k sys I
  rw [stepTest]
  by_cases himport : tok.is "import" = true
  · rw [if_pos himport]
    cases htok' : parserTokenize tok.remainder with
    | none =>
      rw [bind_of_none (show tokenize tok.remainder s = (none, s) by rw [tokenize, htok']; rfl)]
      exact ⟨hs, fun _ h => by cases h⟩
    | some tok' =>
      obtain ⟨hstack, hopened⟩ := hopens tok'.token ⟨tok, tok', htok, himport, htok', rfl⟩ _ hs
      rw [tokenize_of_some htok', pure_bind_apply, bind_of_some (openConfigFile_eq tok'.token s)]
      cases himported : opened sys tok'.token s.importStack with
      | none =>
        refine ⟨hstack, ?_⟩
        rintro _ ⟨⟩
        trivial
      | some imported =>
        refine ⟨hstack, ?_⟩
        rintro _ ⟨⟩
        exact (hopened imported himported).cons (hnext tok' (htok.next htok'))
  · rw [if_neg himport]
    refine ⟨hs, ?_⟩
    rintro _ ⟨⟩
    exact hnext tok htok

/-- A test for a theme. -/
theorem finishes_theme (tok : Tok) (h : Finishes n k sys I [.line lines]) :
    Finishes n k sys I [.test .theme tok lines] := by
  refine finishes_of_yields (fun _ _ h => nomatch h) (yields_ite ?_ (yields_goesOn h))
  refine yields_bind _ fun tok' => ?_
  cases sys.contents tok'.token with
  | none => exact yields_fails .themeError
  | some contents =>
    refine yields_ite yields_crash (yields_bind _ fun s => ?_)
    exact yields_goesOn ((finishes_firstPass _ _ _ _).cons h)

/-- **The tests of a line**, the last one first. -/
theorem finishes_test {raws : List CString} (hopens : OpensFinish n k sys I raws)
    (hlines : lines ⊆ raws) (h : LinesFinish n k sys I lines) (test : ConfigTest)
    (htok : TokenIn tok raws) : Finishes n k sys I [.test test tok lines] := by
  have htheme : ∀ tok left, TokenIn tok raws → left <:+ lines →
      Finishes n k sys I [.test .theme tok left] := fun tok left _ hleft =>
    finishes_theme tok (h left hleft)
  have himport : ∀ tok left, TokenIn tok raws → left <:+ lines →
      Finishes n k sys I [.test .import tok left] := fun tok left htok hleft =>
    finishes_import hopens htok fun tok' htok' => htheme tok' left htok' hleft
  have hsection : ∀ test test', test.behind = some test' → (∀ tok left, TokenIn tok raws →
      left <:+ lines → Finishes n k sys I [.test test' tok left]) → ∀ tok left, TokenIn tok raws →
      left <:+ lines → Finishes n k sys I [.test test tok left] := by
    intro test test' hbehind hnext tok left htok hleft
    have himport : ∀ tok' lines', ConfigFrame.test test tok left ≠ .test .import tok' lines' := by
      rintro _ _ ⟨⟩
      cases hbehind
    refine finishes_of_yields himport ?_
    have hsub : left ⊆ raws := List.Subset.trans hleft.subset hlines
    refine (yields_stepTest hbehind hsub htok).mono fun outcome hto => ?_
    cases outcome with
    | fails status => trivial
    | goesOn frames =>
      obtain ⟨tok', left', rfl, htok', hleft'⟩ := hto frames rfl
      exact hnext tok' left' htok' (hleft'.trans hleft)
  have hstate := hsection .state .import rfl himport
  have hevent := hsection .event .state rfl hstate
  have hclient := hsection .client .event rfl hevent
  have hcls := hsection .cls .client rfl hclient
  have hgeneral := hsection .general .cls rfl hcls
  cases test with
  | general => exact hgeneral tok lines htok List.suffix_rfl
  | cls => exact hcls tok lines htok List.suffix_rfl
  | client => exact hclient tok lines htok List.suffix_rfl
  | event => exact hevent tok lines htok List.suffix_rfl
  | state => exact hstate tok lines htok List.suffix_rfl
  | «import» => exact himport tok lines htok List.suffix_rfl
  | theme => exact htheme tok lines htok List.suffix_rfl

/-- **A file**, the last line first. -/
theorem linesFinish_of_opens {raws : List CString} (hopens : OpensFinish n k sys I raws) :
    LinesFinish n k sys I raws := by
  have hlines : ∀ lines ⊆ raws, LinesFinish n k sys I lines := by
    intro lines hsub
    induction lines with
    | nil =>
      intro left hleft
      obtain rfl := List.suffix_nil.mp hleft
      exact finishes_of_yields (fun _ _ h => nomatch h) (yields_goesOn finishes_nil)
    | cons line lines ih =>
      obtain ⟨hline, hlines⟩ := List.cons_subset.mp hsub
      intro left hleft
      rcases List.suffix_cons_iff.mp hleft with rfl | hleft
      · refine finishes_of_yields (fun _ _ h => nomatch h) ?_
        refine (yields_tokenize (some line)).bind fun tok htok => ?_
        have htok : TokenIn tok raws := ⟨line, hline, mem_tokens_of_some htok⟩
        exact yields_ite (yields_goesOn (ih hlines lines List.suffix_rfl))
          (yields_goesOn (finishes_test hopens hlines (ih hlines) .general htok))
      · exact ih hlines left hleft
  exact hlines raws (List.Subset.refl _)

/-! ## All files -/

variable {ι : Type} {raws : ι → List CString} {stack : List CString}

/-- The stacks that there may be while these files are parsed. -/
inductive StackOf (raws : ι → List CString) (stack : List CString) : List CString → Prop
  | start : StackOf raws stack stack
  | opened {f : ι} {name : CString} {stack' : List CString} (h : StackOf raws stack stack')
      (hname : LeadsTo (raws f) name) : StackOf raws stack (stackWith name stack')

/-- One of the lines of a file may open the other. -/
def MayOpen (sys : System) (raws : ι → List CString) (stack : List CString) (g f : ι) : Prop :=
  ∃ name stack', LeadsTo (raws f) name ∧ StackOf raws stack stack' ∧
    opened sys name stack' = some (raws g)

/-- The files that may be opened are among these, and none of them leads back to itself. -/
structure ServerCloses (sys : System) (raws : ι → List CString) (stack : List CString) : Prop where
  /-- What may be opened is one of the files. -/
  closed : ∀ f name stack' imported, LeadsTo (raws f) name → StackOf raws stack stack' →
    opened sys name stack' = some imported → ∃ g, imported = raws g
  /-- No file leads back to itself. -/
  acyclic : ∀ f, ¬ Relation.TransGen (MayOpen sys raws stack) f f

/-- **Whatever is in the files**, the parser returns or it crashes, if no file leads back to
itself. -/
theorem parserParseConfigFile_ends [Finite ι] {root : ι} {file : CString} {start s : Loader n k}
    (hopen : openConfigFile sys file start = (some (some (raws root)), s))
    (h : ServerCloses sys raws s.importStack) :
    ∃ xs r, ConfigEmits sys (parserParseConfigFile sys file start) xs r ∧ r.frames = [] := by
  have hfiles : ∀ f, LinesFinish n k sys (StackOf raws s.importStack) (raws f) := by
    intro f
    induction f using (wellFounded_of_transGen h.acyclic).induction with
    | _ f ih =>
      refine linesFinish_of_opens fun name hname stack hstack => ?_
      refine ⟨hstack.opened hname, fun imported himported => ?_⟩
      obtain ⟨g, rfl⟩ := h.closed f name stack imported hname hstack himported
      exact ih g ⟨name, stack, hname, hstack, himported⟩ (raws g) List.suffix_rfl
  have hstart : parserParseConfigFile sys file start = ⟨[.line (raws root)], none, s⟩ := by
    rw [parserParseConfigFile, hopen]
  rw [hstart]
  obtain ⟨xs, r, hrun, hr | ⟨t, -, rfl⟩⟩ := hfiles root (raws root) List.suffix_rfl [] s .start
  · exact ⟨xs, r, hrun, hr⟩
  · exact ⟨xs, _, hrun, rfl⟩

end Peep
