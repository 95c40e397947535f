import Peep.Server.Loading

/-!
# Themes

A theme is a document in XML with the sounds, events and states that the server loads
(`xml_theme.c`). It is parsed twice, with different handlers. The first pass fills `trans_table` and
counts the thresholds of each state. The second loads the sounds: the path of an event or threshold
is looked up when its `<sound>` has been read, and its sounds are loaded when its element ends.

A state gets its channel when its element begins, and its entry in the engine when `</states>` is
read, under the name that was read last. `state_cnt` is incremented there and not at `</state>`.

## Choices

`cur_ent` is the entry that was created last, which is the first one of the table. An element of
`thresholds` that `realloc` added is `none` until it is written. To read it before, or one behind the
array, ends the run in the model, where the program goes on with what is in memory. What is only
logged is left out.

## Main results

* `XmlHandlers.parse_filter` — only the text that is not blank counts
* `RunsTo.flatMap` — the rule for elements of one kind that follow each other
-/

namespace Peep

open Bytes Decimal Program

variable {n k : ℕ}

/-! ## Handlers -/

/-- The handlers that are set for a parser, with the data that they pass on. The text that a
character handler gets is normalized first. -/
structure XmlHandlers (σ ι : Type) where
  /-- The first argument of `XML_SetElementHandler`. -/
  start : ι → CString → Program σ ι
  /-- The second argument. -/
  stop : ι → CString → Program σ ι
  /-- The argument of `XML_SetCharacterDataHandler`. -/
  char : ι → CString → Program σ ι

namespace XmlHandlers

variable {σ ι : Type}

/-- A call of a handler. -/
def call (h : XmlHandlers σ ι) (info : ι) (c : XmlCall) : Program σ ι :=
  match c.token with
  | .start tag => h.start info tag
  | .text text =>
    match createXmlNormalizedString (text ++ c.behind) text.length with
    | none => pure info
    | some string => h.char info string
  | .stop tag => h.stop info tag

theorem call_text (h : XmlHandlers σ ι) (info : ι) (text behind : List UInt8) :
    h.call info ⟨.text text, behind⟩
      = (createXmlNormalizedString (text ++ behind) text.length).elim (pure info)
          (h.char info) := by
  dsimp only [call]
  cases createXmlNormalizedString (text ++ behind) text.length <;> rfl

/-- The calls for a document. -/
def parse (h : XmlHandlers σ ι) (info : ι) (calls : List XmlCall) : Program σ ι :=
  calls.foldlM h.call info

end XmlHandlers

/-- The context of a pass. -/
inductive XmlContext
  /-- `NO_CONTEXT`. -/
  | no
  /-- `SOUNDS_CONTEXT`. -/
  | sounds
  /-- `SOUND_CONTEXT`. -/
  | sound
  /-- `EVENT_CONTEXT`. -/
  | event
  /-- `STATE_CONTEXT`. -/
  | state
  /-- `THRESHOLD_CONTEXT`. -/
  | threshold
  deriving DecidableEq

/-! ## The first pass -/

/-- `FIRST_PASS_INFO`. -/
structure FirstPassInfo where
  /-- Path to repository. -/
  soundPath : Option CString
  /-- Context identifier. -/
  context : XmlContext
  /-- Current tag context. -/
  currentTag : Option CString
  /-- Index of threshold numbers per state. -/
  thresholds : List (Option ℕ)
  /-- Count of states in the file. -/
  states : ℕ

/-- `realloc` of an array of integers. -/
def reallocInts (xs : List (Option ℕ)) (size : ℕ) : List (Option ℕ) :=
  xs.take size ++ List.replicate (size - xs.length) none

/-- `xs[i]`. -/
def intAt (xs : List (Option ℕ)) (i : ℕ) : Option ℕ := xs[i]?.join

/-- A change of the entry of `trans_table` that was created last. -/
def changeCurEnt (f : TransEntry → TransEntry) : Program (Loader n k) Unit := do
  let s ← get
  match s.transTable with
  | [] => crash
  | ent :: rest => change fun s => { s with transTable := f ent :: rest }

/-- `xmlParseFirstPassStart`. -/
def xmlParseFirstPassStart (info : FirstPassInfo) (tag : CString) :
    Program (Loader n k) FirstPassInfo :=
  let info := { info with currentTag := some tag }
  if strcaseeq tag (ascii "sounds") then pure { info with context := .sounds }
  else if info.context = .sounds ∧ strcaseeq tag (ascii "sound") then do
    change fun s => { s with transTable := xmlThemeCreateTransEntry s.transTable }
    pure { info with context := .sound }
  else if strcaseeq tag (ascii "states") then pure { info with context := .state }
  else if info.context = .state ∧ strcaseeq tag (ascii "state") then
    pure { info with
      thresholds := (reallocInts info.thresholds (info.states + 1)).set info.states (some 0) }
  else if info.context = .state ∧ strcaseeq tag (ascii "threshold") then do
    let count ← ofOption (intAt info.thresholds info.states)
    pure { info with thresholds := info.thresholds.set info.states (some (count + 1)) }
  else pure info

/-- `xmlParseFirstPassEnd`. -/
def xmlParseFirstPassEnd (info : FirstPassInfo) (tag : CString) : FirstPassInfo :=
  if strcaseeq tag (ascii "sounds") then { info with context := .no }
  else if info.context = .sound ∧ strcaseeq tag (ascii "sound") then
    { info with context := .sounds }
  else if strcaseeq tag (ascii "states") then { info with context := .no }
  else if strcaseeq tag (ascii "state") then { info with states := info.states + 1 }
  else info

/-- `xmlParseFirstPassChar`, with the normalized string. -/
def xmlParseFirstPassChar (info : FirstPassInfo) (string : CString) :
    Program (Loader n k) FirstPassInfo :=
  if info.context = .sound then do
    let tag ← ofOption info.currentTag
    if strcaseeq tag (ascii "name") then
      changeCurEnt fun ent => { ent with name := some string }
      pure info
    else if strcaseeq tag (ascii "path") then
      let soundPath ← ofOption info.soundPath
      changeCurEnt fun ent => { ent with path := some (soundPath ++ string) }
      pure info
    else pure info
  else pure info

/-- The handlers of the first pass. -/
def firstPassHandlers : XmlHandlers (Loader n k) FirstPassInfo where
  start := xmlParseFirstPassStart
  stop info tag := pure (xmlParseFirstPassEnd info tag)
  char := xmlParseFirstPassChar

/-- What `calloc` makes of a `FIRST_PASS_INFO`, and the path. -/
def FirstPassInfo.start (soundPath : Option CString) : FirstPassInfo where
  soundPath := soundPath
  context := .no
  currentTag := none
  thresholds := []
  states := 0

/-! ## The second pass -/

/-- `SECOND_PASS_INFO`. The counters of events and states are those of the loader. -/
structure SecondPassInfo where
  /-- Current tag context. -/
  currentTag : Option CString
  /-- Context identifier. -/
  context : XmlContext
  /-- Name of the sound to be loaded. -/
  name : Option CString
  /-- And its path. -/
  path : Option CString
  /-- Index of threshold numbers per state. -/
  thresholds : List (Option ℕ)
  /-- Count of thresholds processed for current state. -/
  threshCnt : ℕ
  /-- Index into thresholds array. -/
  threshIndex : ℕ
  /-- Lower bound of the threshold. -/
  lBound : ℚ
  /-- Higher bound of the threshold. -/
  hBound : ℚ
  /-- Fade time. -/
  fade : ℚ

/-- `xmlParseSecondPassStart`. -/
def xmlParseSecondPassStart (info : SecondPassInfo) (tag : CString) :
    Program (Loader n k) SecondPassInfo :=
  let info := { info with currentTag := some tag }
  if strcaseeq tag (ascii "theme") then pure info
  else if strcaseeq tag (ascii "events") then pure { info with context := .event }
  else if info.context = .event then pure info
  else if strcaseeq tag (ascii "states") then pure { info with context := .state }
  else if info.context = .state then
    if strcaseeq tag (ascii "state") then do
      let count ← ofOption (intAt info.thresholds info.threshIndex)
      let s ← get
      let _ ← callMixer s.stateCnt fun m => m.mixerAllocNewState s.stateCnt count
      pure { info with threshCnt := 0 }
    else if strcaseeq tag (ascii "threshold") then pure { info with context := .threshold }
    else pure info
  else pure info

/-- `xmlParseSecondPassEnd`. -/
def xmlParseSecondPassEnd (sys : System) (info : SecondPassInfo) (tag : CString) :
    Program (Loader n k) SecondPassInfo :=
  if info.context = .event ∧ strcaseeq tag (ascii "events") then
    pure { info with context := .no }
  else if info.context = .event ∧ strcaseeq tag (ascii "event") then
    match info.path, info.name with
    | some path, some name => do
      let loaded ← parserLoadEventSndDir sys name path
      -- the handler returns here, before the name and the path are freed
      if loaded then pure { info with path := none, name := none } else pure info
    | _, _ => pure { info with path := none, name := none }
  else if info.context = .state ∧ strcaseeq tag (ascii "states") then
    match info.name with
    | none => pure info
    | some name => do
      let s ← get
      let _ ← engineSoundTableInsertState name s.stateCnt
      change fun s => { s with stateCnt := s.stateCnt + 1 }
      pure { info with name := none, context := .no }
  else if info.context = .state ∧ strcaseeq tag (ascii "state") then
    pure { info with threshIndex := info.threshIndex + 1 }
  else if info.context = .threshold ∧ strcaseeq tag (ascii "threshold") then do
    let _ ← parserLoadStateSndDir sys info.threshCnt info.lBound info.hBound info.path info.fade
    pure { info with path := none, threshCnt := info.threshCnt + 1, context := .state }
  else pure info

/-- A call of `xmlThemeLookupTransPath`. -/
def callLookup (name : CString) : Program (Loader n k) (Option CString) := do
  let s ← get
  let (path, table) ← ofOption (xmlThemeLookupTransPath s.transTable name)
  change fun s => { s with transTable := table }
  pure path

/-- The lower bound of a threshold: the higher bound of the one before, which is in the mixer. -/
def lowerBound (threshCnt : ℕ) : Program (Loader n k) ℚ := do
  let s ← get
  if 0 < threshCnt then ofOption (getHBound s.mixer s.stateCnt (threshCnt - 1)) else pure 0

/-- `xmlParseSecondPassChar`, with the normalized string. -/
def xmlParseSecondPassChar (sys : System) (info : SecondPassInfo) (string : CString) :
    Program (Loader n k) SecondPassInfo :=
  match info.context with
  | .event => do
    let tag ← ofOption info.currentTag
    if strcaseeq tag (ascii "name") then pure { info with name := some string }
    else if strcaseeq tag (ascii "sound") then
      let path ← callLookup string
      pure { info with path := path }
    else pure info
  | .state => do
    let tag ← ofOption info.currentTag
    if strcaseeq tag (ascii "name") then pure { info with name := some string } else pure info
  | .threshold => do
    let tag ← ofOption info.currentTag
    if strcaseeq tag (ascii "level") then
      let lBound ← lowerBound info.threshCnt
      pure { info with lBound := lBound, hBound := sys.strtod string }
    else if strcaseeq tag (ascii "fade") then pure { info with fade := sys.strtod string }
    else if strcaseeq tag (ascii "sound") then
      let path ← callLookup string
      pure { info with path := path }
    else pure info
  | _ => pure info

/-- The handlers of the second pass. -/
def secondPassHandlers (sys : System) : XmlHandlers (Loader n k) SecondPassInfo where
  start := xmlParseSecondPassStart
  stop := xmlParseSecondPassEnd sys
  char := xmlParseSecondPassChar sys

/-- What `calloc` makes of a `SECOND_PASS_INFO`, and the counts of the first pass. -/
def SecondPassInfo.start (thresholds : List (Option ℕ)) : SecondPassInfo where
  currentTag := none
  context := .no
  name := none
  path := none
  thresholds := thresholds
  threshCnt := 0
  threshIndex := 0
  lBound := 0
  hBound := 0
  fade := 0

/-! ## Both passes -/

/-- The loop that frees `trans_table`. Its `next = ent->next` follows the `NULL` behind the last
entry. -/
def freeTransTable : Program (Loader n k) Unit := do
  let s ← get
  if s.transTable = [] then pure () else crash

/-- The first pass of `xmlParseTheme`. -/
def xmlFirstPass (soundPath : Option CString) (calls : List XmlCall) :
    Program (Loader n k) FirstPassInfo :=
  firstPassHandlers.parse (FirstPassInfo.start soundPath) calls

/-- The second pass of `xmlParseTheme`. -/
def xmlSecondPass (sys : System) (thresholds : List (Option ℕ)) (calls : List XmlCall) :
    Program (Loader n k) SecondPassInfo :=
  (secondPassHandlers sys).parse (SecondPassInfo.start thresholds) calls

/-- `xmlParseTheme`. -/
def xmlParseTheme (sys : System) (xml : CString) (soundPath : Option CString) :
    Program (Loader n k) Bool := do
  let (calls, parsed) := sys.expat xml
  let first ← xmlFirstPass soundPath calls
  if !parsed then pure false
  else
    let _ ← xmlSecondPass sys first.thresholds calls
    if !parsed then pure false
    else
      freeTransTable
      pure true

/-! ## Runs of handlers -/

/-- An element. -/
def xmlElement (name : String) (content : List Token) : List Token :=
  .start (ascii name) :: (content ++ [.stop (ascii name)])

/-- A text of one word, which the handlers get as it is. -/
structure XmlWord where
  /-- The text. -/
  text : CString
  /-- There is one. -/
  ne_nil : text ≠ []
  /-- It has no blanks and no markup. -/
  isNameChar_of_mem : ∀ c ∈ text, isNameChar c = true

/-- An element with a word in it. -/
def wordElement (tag : String) (w : XmlWord) : List Token := xmlElement tag [.text w.text]

/-- An element with any text in it, which comes in pieces. -/
def textElement (tag : String) (texts : List (List UInt8)) : List Token :=
  xmlElement tag (texts.map Token.text)

section RunsTo

variable {σ ι α : Type} {h : XmlHandlers σ ι} {tokens more : List Token} {info info' : ι}
  {s s' : σ} {Q R : ι → σ → Prop} {tag : CString} {name : String} {calls : List XmlCall}

/-- The handlers get through the calls for some tokens, and `Q` holds afterwards. Texts that are
blank are not called for. -/
def RunsTo (h : XmlHandlers σ ι) (tokens : List Token) (info : ι) (s : σ) (Q : ι → σ → Prop) :
    Prop :=
  ∀ calls : List XmlCall, calls.map XmlCall.token = tokens.filter Token.isKept →
    ∃ info' s', h.parse info calls s = (some info', s') ∧ Q info' s'

theorem XmlHandlers.parse_append (hcalls : h.parse info calls s = (some info', s'))
    (rest : List XmlCall) : h.parse info (calls ++ rest) s = h.parse info' rest s' := by
  induction calls generalizing info s with
  | nil =>
    obtain ⟨⟩ := hcalls
    rfl
  | cons c calls ih =>
    obtain ⟨info₁, s₁, hc, hrest⟩ := bind_eq_some_iff.mp hcalls
    exact (bind_of_some hc).trans (ih hrest)

/-- **One part after the other.** -/
theorem RunsTo.append (hfirst : RunsTo h tokens info s R)
    (hmore : ∀ info s, R info s → RunsTo h more info s Q) :
    RunsTo h (tokens ++ more) info s Q := by
  intro calls hcalls
  rw [List.filter_append] at hcalls
  obtain ⟨first, rest, rfl, hf, hr⟩ := List.map_eq_append_iff.mp hcalls
  obtain ⟨info₁, s₁, hrun, hR⟩ := hfirst first hf
  obtain ⟨info₂, s₂, hrun₂, hQ⟩ := hmore info₁ s₁ hR rest hr
  exact ⟨info₂, s₂, (XmlHandlers.parse_append hrun rest).trans hrun₂, hQ⟩

theorem RunsTo.nil (hQ : Q info s) : RunsTo h [] info s Q := by
  intro calls hcalls
  obtain rfl := List.map_eq_nil_iff.mp hcalls
  exact ⟨info, s, rfl, hQ⟩

theorem RunsTo.mono (hrun : RunsTo h tokens info s R) (hQ : ∀ info s, R info s → Q info s) :
    RunsTo h tokens info s Q := by
  intro calls hcalls
  obtain ⟨info', s', hrun, hR⟩ := hrun calls hcalls
  exact ⟨info', s', hrun, hQ _ _ hR⟩

/-- A first call that does the same whatever is behind its text. -/
theorem RunsTo.cons {token : Token} (hkept : token.isKept = true)
    (hcall : ∀ behind, h.call info ⟨token, behind⟩ s = (some info', s'))
    (hrest : RunsTo h tokens info' s' Q) : RunsTo h (token :: tokens) info s Q := by
  intro calls hcalls
  rw [List.filter_cons_of_pos hkept] at hcalls
  obtain ⟨⟨_, behind⟩, rest, rfl, rfl, hr⟩ := List.map_eq_cons_iff.mp hcalls
  obtain ⟨info₂, s₂, hrun, hQ⟩ := hrest rest hr
  exact ⟨info₂, s₂, (bind_of_some (hcall behind)).trans hrun, hQ⟩

/-- A first call that may depend on what is behind its text, or may not be made. -/
theorem RunsTo.cons_of_forall {token : Token}
    (hskip : token.isKept = false → RunsTo h tokens info s Q)
    (hcall : ∀ behind, ∃ info' s', h.call info ⟨token, behind⟩ s = (some info', s') ∧
      RunsTo h tokens info' s' Q) : RunsTo h (token :: tokens) info s Q := by
  intro calls hcalls
  by_cases hkept : token.isKept = true
  · rw [List.filter_cons_of_pos hkept] at hcalls
    obtain ⟨⟨_, behind⟩, rest, rfl, rfl, hr⟩ := List.map_eq_cons_iff.mp hcalls
    obtain ⟨info₁, s₁, hfirst, hrest⟩ := hcall behind
    obtain ⟨info₂, s₂, hrun, hQ⟩ := hrest rest hr
    exact ⟨info₂, s₂, (bind_of_some hfirst).trans hrun, hQ⟩
  · rw [List.filter_cons_of_neg hkept] at hcalls
    exact hskip (Bool.eq_false_of_not_eq_true hkept) calls hcalls

/-- A tag is opened. -/
theorem RunsTo.start (hcall : h.start info tag s = (some info', s'))
    (hrest : RunsTo h tokens info' s' Q) : RunsTo h (.start tag :: tokens) info s Q :=
  RunsTo.cons rfl (fun _ => hcall) hrest

/-- A tag is closed. -/
theorem RunsTo.stop (hcall : h.stop info tag s = (some info', s'))
    (hrest : RunsTo h tokens info' s' Q) : RunsTo h (.stop tag :: tokens) info s Q :=
  RunsTo.cons rfl (fun _ => hcall) hrest

/-- A word. -/
theorem RunsTo.word {w : XmlWord} (hcall : h.char info w.text s = (some info', s'))
    (hrest : RunsTo h tokens info' s' Q) : RunsTo h (.text w.text :: tokens) info s Q := by
  have hkept : (Token.text w.text).isKept = true := by
    rw [Token.isKept, Bool.not_eq_true', ← Bool.not_eq_true]
    intro hblank
    obtain ⟨c, rest, hc⟩ := List.exists_cons_of_ne_nil w.ne_nil
    have hmem : c ∈ w.text := by simp [hc]
    obtain ⟨hnl, hsp, -⟩ := isBlank_of_isNameChar (w.isNameChar_of_mem c hmem)
    exact (isBlank_iff.mp (List.all_eq_true.mp hblank c hmem)).elim hnl hsp
  refine RunsTo.cons hkept (fun behind => ?_) hrest
  show (match createXmlNormalizedString (w.text ++ behind) w.text.length with
    | none => pure info
    | some string => h.char info string) s = _
  rw [createXmlNormalizedString_of_isNameChar w.isNameChar_of_mem, if_neg w.ne_nil]
  exact hcall

/-- Texts that the handler does not look at. -/
theorem RunsTo.texts (hcall : ∀ string, h.char info string s = (some info, s))
    (hrest : RunsTo h tokens info s Q) (texts : List (List UInt8)) :
    RunsTo h (texts.map Token.text ++ tokens) info s Q := by
  induction texts with
  | nil => exact hrest
  | cons text texts ih =>
    by_cases hkept : (Token.text text).isKept = true
    · refine RunsTo.cons hkept (fun behind => ?_) ih
      show (match createXmlNormalizedString (text ++ behind) text.length with
        | none => pure info
        | some string => h.char info string) s = _
      cases createXmlNormalizedString (text ++ behind) text.length with
      | none => rfl
      | some string => exact hcall string
    · intro calls hcalls
      rw [List.map_cons, List.cons_append, List.filter_cons_of_neg hkept] at hcalls
      exact ih calls hcalls

/-- **Calls that keep a condition.** The tags may be restricted, the texts are any. -/
theorem RunsTo.of_keeps {p : Token → Bool}
    (hstart : ∀ tag info s, p (.start tag) = true → Q info s →
      ∃ info' s', h.start info tag s = (some info', s') ∧ Q info' s')
    (hstop : ∀ tag info s, p (.stop tag) = true → Q info s →
      ∃ info' s', h.stop info tag s = (some info', s') ∧ Q info' s')
    (hchar : ∀ string info s, Q info s →
      ∃ info' s', h.char info string s = (some info', s') ∧ Q info' s')
    (htokens : tokens.all p = true) (hQ : Q info s) : RunsTo h tokens info s Q := by
  induction tokens generalizing info s with
  | nil => exact RunsTo.nil hQ
  | cons token tokens ih =>
    rw [List.all_cons, Bool.and_eq_true] at htokens
    obtain ⟨htoken, htokens⟩ := htokens
    refine RunsTo.cons_of_forall (fun _ => ih htokens hQ) fun behind => ?_
    cases token with
    | start tag =>
      obtain ⟨info', s', hcall, hQ'⟩ := hstart tag info s htoken hQ
      exact ⟨info', s', hcall, ih htokens hQ'⟩
    | stop tag =>
      obtain ⟨info', s', hcall, hQ'⟩ := hstop tag info s htoken hQ
      exact ⟨info', s', hcall, ih htokens hQ'⟩
    | text text =>
      rw [XmlHandlers.call_text]
      cases createXmlNormalizedString (text ++ behind) text.length with
      | none => exact ⟨info, s, rfl, ih htokens hQ⟩
      | some string =>
        obtain ⟨info', s', hcall, hQ'⟩ := hchar string info s hQ
        exact ⟨info', s', hcall, ih htokens hQ'⟩

/-- **The rule for an element.** -/
theorem RunsTo.element {info' : ι} {s' : σ}
    (hstart : h.start info (ascii name) s = (some info', s'))
    (hcontent : RunsTo h tokens info' s' R)
    (hstop : ∀ info s, R info s → ∃ info' s', h.stop info (ascii name) s = (some info', s') ∧
      Q info' s') :
    RunsTo h (xmlElement name tokens) info s Q := by
  refine RunsTo.start hstart (RunsTo.append hcontent fun info s hR => ?_)
  obtain ⟨info', s', hcall, hQ⟩ := hstop info s hR
  exact RunsTo.stop hcall (RunsTo.nil hQ)

/-- The rule for an element with a word. -/
theorem RunsTo.wordElement {info₁ info₂ info₃ : ι} {s₁ s₂ s₃ : σ} {w : XmlWord}
    (hstart : h.start info (ascii name) s = (some info₁, s₁))
    (hchar : h.char info₁ w.text s₁ = (some info₂, s₂))
    (hstop : h.stop info₂ (ascii name) s₂ = (some info₃, s₃)) (hQ : Q info₃ s₃) :
    RunsTo h (wordElement name w) info s Q :=
  RunsTo.start hstart (RunsTo.word hchar (RunsTo.stop hstop (RunsTo.nil hQ)))

/-- The rule for an element with a text that the handler does not look at. -/
theorem RunsTo.textElement {info₁ info₂ : ι} {s₁ s₂ : σ} {texts : List (List UInt8)}
    (hstart : h.start info (ascii name) s = (some info₁, s₁))
    (hchar : ∀ string, h.char info₁ string s₁ = (some info₁, s₁))
    (hstop : h.stop info₁ (ascii name) s₁ = (some info₂, s₂)) (hQ : Q info₂ s₂) :
    RunsTo h (textElement name texts) info s Q :=
  RunsTo.start hstart (RunsTo.texts hchar (RunsTo.stop hstop (RunsTo.nil hQ)) texts)

/-- **Elements of one kind that follow each other.** `I` is about those that are done. -/
theorem RunsTo.flatMap {I : List α → ι → σ → Prop} {f : α → List Token} (xs : List α)
    (hI : I [] info s)
    (hstep : ∀ done x rest, xs = done ++ x :: rest → ∀ info s, I done info s →
      RunsTo h (f x) info s (I (done ++ [x]))) :
    RunsTo h (xs.flatMap f) info s (I xs) := by
  have hall : ∀ done rest, xs = done ++ rest → ∀ info s, I done info s →
      RunsTo h (rest.flatMap f) info s (I xs) := by
    intro done rest
    induction rest generalizing done with
    | nil =>
      rintro rfl info s hI
      rw [List.append_nil]
      exact RunsTo.nil hI
    | cons x rest ih =>
      intro hxs info s hI
      rw [List.flatMap_cons]
      refine RunsTo.append (hstep done x rest hxs info s hI) fun info s hI => ?_
      exact ih (done ++ [x]) (by rw [hxs, List.append_assoc]; rfl) info s hI
  exact hall [] xs rfl info s hI

/-- The handlers crash in the calls for some tokens. -/
def Crashes (h : XmlHandlers σ ι) (tokens : List Token) (info : ι) (s : σ) : Prop :=
  ∀ calls : List XmlCall, calls.map XmlCall.token = tokens.filter Token.isKept →
    ∃ s', h.parse info calls s = (none, s')

theorem XmlHandlers.parse_append_of_none (hcalls : h.parse info calls s = (none, s'))
    (rest : List XmlCall) : h.parse info (calls ++ rest) s = (none, s') := by
  induction calls generalizing info s with
  | nil => cases hcalls
  | cons c calls ih =>
    rcases hc : h.call info c s with ⟨- | info₁, s₁⟩
    · have hfirst : h.parse info (c :: calls) s = (none, s₁) := bind_of_none hc
      obtain rfl : s₁ = s' := (Prod.mk.inj (hfirst.symm.trans hcalls)).2
      exact bind_of_none hc
    · have hfirst : h.parse info (c :: calls) s = h.parse info₁ calls s₁ := bind_of_some hc
      exact (bind_of_some hc).trans (ih (hfirst.symm.trans hcalls))

/-- What comes after a crash does not count. -/
theorem Crashes.append (hcrash : Crashes h tokens info s) (more : List Token) :
    Crashes h (tokens ++ more) info s := by
  intro calls hcalls
  rw [List.filter_append] at hcalls
  obtain ⟨first, rest, rfl, hf, -⟩ := List.map_eq_append_iff.mp hcalls
  obtain ⟨s', hrun⟩ := hcrash first hf
  exact ⟨s', XmlHandlers.parse_append_of_none hrun rest⟩

/-- A crash after a part that the handlers get through. -/
theorem RunsTo.crashes (hfirst : RunsTo h tokens info s R)
    (hmore : ∀ info s, R info s → Crashes h more info s) :
    Crashes h (tokens ++ more) info s := by
  intro calls hcalls
  rw [List.filter_append] at hcalls
  obtain ⟨first, rest, rfl, hf, hr⟩ := List.map_eq_append_iff.mp hcalls
  obtain ⟨info₁, s₁, hrun, hR⟩ := hfirst first hf
  obtain ⟨s₂, hrun₂⟩ := hmore info₁ s₁ hR rest hr
  exact ⟨s₂, (XmlHandlers.parse_append hrun rest).trans hrun₂⟩

/-- A crash inside an element. -/
theorem Crashes.element (hstart : h.start info (ascii name) s = (some info', s'))
    (hcontent : Crashes h tokens info' s') : Crashes h (xmlElement name tokens) info s := by
  have hopen : RunsTo h [.start (ascii name)] info s fun i t => i = info' ∧ t = s' :=
    RunsTo.start hstart (RunsTo.nil ⟨rfl, rfl⟩)
  have hrest : ∀ i t, i = info' ∧ t = s' → Crashes h (tokens ++ [.stop (ascii name)]) i t := by
    rintro _ _ ⟨rfl, rfl⟩
    exact hcontent.append _
  exact hopen.crashes hrest

/-- A crash at the end of an element. -/
theorem Crashes.element_stop (hstart : h.start info (ascii name) s = (some info', s'))
    (hcontent : RunsTo h tokens info' s' R)
    (hstop : ∀ info s, R info s → ∃ s', h.stop info (ascii name) s = (none, s')) :
    Crashes h (xmlElement name tokens) info s := by
  have hopen : RunsTo h (.start (ascii name) :: tokens) info s R := RunsTo.start hstart hcontent
  have hrest : ∀ info s, R info s → Crashes h [.stop (ascii name)] info s := by
    intro info s hR calls hcalls
    obtain ⟨⟨_, behind⟩, rest, rfl, rfl, -⟩ := List.map_eq_cons_iff.mp hcalls
    obtain ⟨s', hstop⟩ := hstop info s hR
    exact ⟨s', bind_of_none hstop⟩
  exact hopen.crashes hrest

/-- A call about blanks does nothing. -/
theorem XmlHandlers.call_of_not_isKept {c : XmlCall} (hc : c.token.isKept = false)
    (hbehind : c.endsBlank = true) (h : XmlHandlers σ ι) (info : ι) :
    h.call info c = pure info := by
  obtain ⟨token, behind⟩ := c
  rcases token with tag | text | tag
  · cases hc
  · have hblank : text.all isBlank = true := by
      rwa [Token.isKept, Bool.not_eq_false'] at hc
    have hlast : text.getLast? = some 32 → isalnum (behind.headD 0) = false := by
      intro hlast
      simpa [XmlCall.endsBlank, hblank, hlast] using hbehind
    show (match createXmlNormalizedString (text ++ behind) text.length with
      | none => pure info
      | some string => h.char info string) = _
    rw [createXmlNormalizedString_of_isBlank hblank hlast]
  · cases hc

/-- **Only the text that is not blank counts.** -/
theorem XmlHandlers.parse_filter (hreports : Reports calls tokens) (h : XmlHandlers σ ι)
    (info : ι) (s : σ) :
    h.parse info calls s = h.parse info (calls.filter fun c => c.token.isKept) s ∧
      (calls.filter fun c => c.token.isKept).map XmlCall.token
        = tokens.filter Token.isKept := by
  refine ⟨?_, by rw [← hreports.tokens_eq, List.filter_map]; rfl⟩
  have hbehind := hreports.endsBlank
  clear hreports
  induction calls generalizing info s with
  | nil => rfl
  | cons c calls ih =>
    have hrest := fun info s => ih info s fun d hd => hbehind d (List.mem_cons_of_mem c hd)
    by_cases hc : c.token.isKept = true
    · rw [List.filter_cons, if_pos hc]
      show (h.call info c >>= fun info => h.parse info calls) s
        = (h.call info c >>= fun info => h.parse info _) s
      exact congrArg (fun f => (h.call info c >>= f) s)
        (funext fun info => funext fun s => hrest info s)
    · rw [List.filter_cons, if_neg hc, ← hrest]
      show (h.call info c >>= fun info => h.parse info calls) s = _
      rw [XmlHandlers.call_of_not_isKept (Bool.eq_false_of_not_eq_true hc)
        (hbehind c List.mem_cons_self)]
      rfl

theorem RunsTo.of_reports (hrun : RunsTo h tokens info s Q) (hreports : Reports calls tokens) :
    ∃ info' s', h.parse info calls s = (some info', s') ∧ Q info' s' := by
  obtain ⟨heq, htokens⟩ := XmlHandlers.parse_filter hreports h info s
  rw [heq]
  exact hrun _ htokens

theorem Crashes.of_reports (hcrash : Crashes h tokens info s) (hreports : Reports calls tokens) :
    ∃ s', h.parse info calls s = (none, s') := by
  obtain ⟨heq, htokens⟩ := XmlHandlers.parse_filter hreports h info s
  rw [heq]
  exact hcrash _ htokens

end RunsTo

/-! ## What the handlers keep -/

/-- `</states>` registers a state under the name that was read last, if there is one. -/
def SecondPassInfo.registers (info : SecondPassInfo) (tag : CString) : Prop :=
  info.context = .state ∧ strcaseeq tag (ascii "states") = true ∧ info.name.isSome

/-- **The tags that the second pass opens.** A `<state>` calls the mixer. -/
theorem keeps_secondPassStart {P : Loader n k → Prop} {s : Loader n k} (info : SecondPassInfo)
    (tag : CString) (hs : P s)
    (hmixer : info.context = .state → strcaseeq tag (ascii "state") = true →
      (intAt info.thresholds info.threshIndex).isSome →
        ∀ m, P { s with mixer := m, called := s.called ++ [s.stateCnt] }) :
    P (xmlParseSecondPassStart info tag s).2 := by
  rw [xmlParseSecondPassStart]
  split_ifs with _ _ _ _ hcontext hstate
  · exact hs
  · exact hs
  · exact hs
  · exact hs
  · cases hcount : intAt info.thresholds info.threshIndex with
    | none => exact hs
    | some count =>
      have hcall : Carries (· = s) P (callMixer s.stateCnt fun m =>
          m.mixerAllocNewState s.stateCnt count) := by
        rintro _ rfl
        exact callMixer_leads (hmixer hcontext hstate (by rw [hcount]; rfl))
      exact Carries.bind hcall (fun _ => carries_pure (fun _ h => h) _) (fun _ h => h) s rfl
  · exact hs
  · exact hs
  · exact hs

/-- What is left of a `</states>` that registers a state. -/
theorem secondPassEnd_of_registers {info : SecondPassInfo} {tag : CString}
    (h : info.registers tag) (sys : System) (s : Loader n k) :
    ∃ name, info.name = some name ∧ (xmlParseSecondPassEnd sys info tag s).2 =
      match engineSoundTableInsert s.table ⟨name, STATE_T, .state s.stateCnt⟩ with
      | none => s
      | some result => { s with table := result.2, stateCnt := s.stateCnt + 1 } := by
  obtain ⟨hcontext, htag, hname⟩ := h
  obtain ⟨name, hname⟩ := Option.isSome_iff_exists.mp hname
  refine ⟨name, hname, ?_⟩
  rw [xmlParseSecondPassEnd, if_neg (by simp [hcontext]), if_neg (by simp [hcontext]),
    if_pos ⟨hcontext, htag⟩, hname]
  cases hinsert : engineSoundTableInsert s.table ⟨name, STATE_T, .state s.stateCnt⟩ with
  | none =>
    have hcall : engineSoundTableInsertState name s.stateCnt s = (none, s) :=
      callInsert_of_none hinsert
    simp only [get_bind]
    rw [bind_of_none hcall]
  | some result =>
    have hcall : engineSoundTableInsertState name s.stateCnt s
        = (some result.1, { s with table := result.2 }) := callInsert_of_some hinsert
    simp only [get_bind]
    rw [bind_of_some hcall]
    rfl

namespace Loader.Stable

variable {P : Loader n k → Prop} {sys : System} {info : SecondPassInfo} {tag : CString}
  {s : Loader n k}

theorem carries_changeCurEnt (hP : Stable P) (f : TransEntry → TransEntry) :
    Carries P P (changeCurEnt f) := by
  refine carries_get_bind fun s hs => ?_
  cases h : s.transTable with
  | nil => exact hs
  | cons ent rest => exact hP.trans s _ hs

/-- **The first pass** fills `trans_table` only. -/
theorem carries_firstPass (hP : Stable P) (info : FirstPassInfo) (c : XmlCall) :
    Carries P P (firstPassHandlers.call info c) := by
  have hpure : ∀ info : FirstPassInfo, Carries P P (pure info : Program (Loader n k) _) :=
    fun info => carries_pure (fun _ h => h) info
  obtain ⟨token, behind⟩ := c
  cases token with
  | start tag =>
    show Carries P P (xmlParseFirstPassStart info tag)
    rw [xmlParseFirstPassStart]
    refine carries_ite (fun _ => hpure _) fun _ => carries_ite (fun _ => ?_) fun _ =>
      carries_ite (fun _ => hpure _) fun _ => carries_ite (fun _ => hpure _) fun _ =>
      carries_ite (fun _ => ?_) fun _ => hpure _
    · exact Carries.bind (carries_change fun s hs => hP.trans s _ hs) (fun _ => hpure _)
        fun _ h => h
    · exact Carries.bind (carries_ofOption (fun _ h => h) _) (fun _ => hpure _) fun _ h => h
  | text text =>
    show Carries P P (match createXmlNormalizedString (text ++ behind) text.length with
      | none => pure info
      | some string => xmlParseFirstPassChar info string)
    cases createXmlNormalizedString (text ++ behind) text.length with
    | none => exact hpure info
    | some string =>
      show Carries P P (xmlParseFirstPassChar info string)
      rw [xmlParseFirstPassChar]
      refine carries_ite (fun _ => ?_) fun _ => hpure _
      refine Carries.bind (carries_ofOption (fun _ h => h) _) (fun tag => ?_) fun _ h => h
      refine carries_ite (fun _ => ?_) fun _ => carries_ite (fun _ => ?_) fun _ => hpure _
      · exact Carries.bind (hP.carries_changeCurEnt _) (fun _ => hpure _) fun _ h => h
      · refine Carries.bind (carries_ofOption (fun _ h => h) _) (fun path => ?_) fun _ h => h
        exact Carries.bind (hP.carries_changeCurEnt _) (fun _ => hpure _) fun _ h => h
  | stop tag => exact hpure _

theorem carries_callLookup (hP : Stable P) (name : CString) : Carries P P (callLookup name) := by
  refine carries_get_bind fun s hs => ?_
  exact Carries.bind (carries_ofOption (fun _ h => h) _)
    (fun found => Carries.bind (carries_change fun s hs => hP.trans s _ hs)
      (fun _ => carries_pure (fun _ h => h) _) fun _ h => h) (fun _ h => h) s hs

/-- **The texts of the second pass.** -/
theorem carries_secondPassChar (hP : Stable P) (info : SecondPassInfo) (string : CString) :
    Carries P P (xmlParseSecondPassChar sys info string) := by
  have hpure : ∀ info : SecondPassInfo, Carries P P (pure info : Program (Loader n k) _) :=
    fun info => carries_pure (fun _ h => h) info
  have hlookup : ∀ f : Option CString → SecondPassInfo,
      Carries P P (callLookup string >>= fun path => (pure (f path) : Program (Loader n k) _)) :=
    fun f => Carries.bind (hP.carries_callLookup string) (fun _ => hpure _) fun _ h => h
  have hlower : Carries P P (lowerBound info.threshCnt) := by
    refine carries_get_bind fun s hs => ?_
    exact carries_ite (fun _ => carries_ofOption (fun _ h => h) _)
      (fun _ => carries_pure (fun _ h => h) _) s hs
  rw [xmlParseSecondPassChar]
  cases info.context with
  | event =>
    refine Carries.bind (carries_ofOption (fun _ h => h) _) (fun tag => ?_) fun _ h => h
    exact carries_ite (fun _ => hpure _) fun _ => carries_ite (fun _ => hlookup _) fun _ => hpure _
  | state =>
    refine Carries.bind (carries_ofOption (fun _ h => h) _) (fun tag => ?_) fun _ h => h
    exact carries_ite (fun _ => hpure _) fun _ => hpure _
  | threshold =>
    refine Carries.bind (carries_ofOption (fun _ h => h) _) (fun tag => ?_) fun _ h => h
    refine carries_ite (fun _ => ?_) fun _ => carries_ite (fun _ => hpure _) fun _ =>
      carries_ite (fun _ => hlookup _) fun _ => hpure _
    exact Carries.bind hlower (fun _ => hpure _) fun _ h => h
  | no => exact hpure _
  | sounds => exact hpure _
  | sound => exact hpure _

/-- **The tags that the second pass closes**, but for one that registers a state. -/
theorem carries_secondPassEnd (hP : Stable P) (h : ¬ info.registers tag) :
    Carries P P (xmlParseSecondPassEnd sys info tag) := by
  have hpure : ∀ info : SecondPassInfo, Carries P P (pure info : Program (Loader n k) _) :=
    fun info => carries_pure (fun _ h => h) info
  rw [xmlParseSecondPassEnd]
  refine carries_ite (fun _ => hpure _) fun _ => carries_ite (fun _ => ?_) fun _ =>
    carries_ite (fun hstates => ?_) fun _ => carries_ite (fun _ => hpure _) fun _ =>
    carries_ite (fun _ => ?_) fun _ => hpure _
  · cases info.path with
    | none => exact hpure _
    | some path =>
      cases info.name with
      | none => exact hpure _
      | some name =>
        refine Carries.bind (hP.carries_parserLoadEventSndDir sys name path) (fun loaded => ?_)
          fun _ h => h
        exact carries_ite (fun _ => hpure _) fun _ => hpure _
  · cases hname : info.name with
    | none => exact hpure _
    | some name => exact absurd ⟨hstates.1, hstates.2, by rw [hname]; rfl⟩ h
  · exact Carries.bind (hP.carries_parserLoadStateSndDir sys _ _ _ _ _) (fun _ => hpure _)
      fun _ h => h

end Loader.Stable

end Peep
