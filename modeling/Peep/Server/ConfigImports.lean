import Peep.Library.Imports
import Peep.Server.ConfigFile

/-!
# Imports in the server

A line of the configuration file with `import` and a name has `parserParseConfigFile` call itself.
The call opens the file of that name: if there is a `/` in the name then its directory is added to
`import_stack`, and otherwise the file is looked for in the directories that are on it. Nothing
remembers which files are being parsed, so a file that imports itself is parsed as long as files can
be opened.

## Choices

A file is what the parser finds in it: imports, and blocks. A block is a line between sections, and
the lines behind it that are gone when the parser comes to the next one, or stops because of an
error; so a section is a block, a comment is one, and a section that does not end is one as well.

What a line imports must be the same whichever directories have been put onto the stack by the
imports of other files in the meantime. The name `theme` is left out: the test behind that for
`import` takes it for the keyword. Any number of files can be open at a time; where the system has a
bound, a parser that comes to it returns `PARSER_IMPORT_ERROR`.

## Main results

* `passes_items` — a call goes through what the lines of its file expand to
* `parserParseConfigFile_expands` — and so does the parser
* `frames_ne_nil_of_imports_self` — a file that imports itself is parsed as long as it can be opened
-/

namespace Peep

open Bytes Decimal Program Text Imports

/-! ## Files that import files -/

/-- What is in a file. -/
inductive ConfigItem (ι : Type)
  /-- A line between sections, and those that the parser takes with it. -/
  | block (line : CString) (body : List CString)
  /-- A line that imports a file. -/
  | imports (line : CString) (file : ι)

variable {ι : Type}

/-- The lines. -/
def ConfigItem.lines : ConfigItem ι → List CString
  | .block line body => line :: body
  | .imports line _ => [line]

/-- The line between sections, or the import. -/
def ConfigItem.entry : ConfigItem ι → Entry ι CString
  | .block line _ => .line line
  | .imports _ f => .file f

/-- The lines of some items. -/
def linesOf (items : List (ConfigItem ι)) : List CString := items.flatMap ConfigItem.lines

/-- What is in a file, as far as imports matter. -/
def entriesOf (files : ι → List (ConfigItem ι)) (f : ι) : List (Entry ι CString) :=
  (files f).map ConfigItem.entry

/-! ## What a line imports -/

/-- The line has `import` for its first word. -/
def importsFile (line : CString) : Bool :=
  (words isspace line).head?.any fun w => strcaseeq w (ascii "import")

/-- The name on such a line. -/
def importName (line : CString) : Option CString :=
  match words isspace line with
  | w :: name :: _ => if strcaseeq w (ascii "import") then some name else none
  | _ => none

/-- `import_stack` behind the directory of a name. -/
def stackWith (name : CString) (stack : List CString) : List CString :=
  match parserDirname name with
  | some dir => if stack.any fun other => strcaseeq dir other then stack else stack ++ [dir]
  | none => stack

/-- The lines of the file that a name leads to. -/
def opened (sys : System) (name : CString) (stack : List CString) : Option (List CString) :=
  match parserDirname name with
  | some _ => (sys.contents name).map fgetsAll
  | none => parserImportConfig sys stack name

variable {n k : ℕ} {sys : System} {files : ι → List (ConfigItem ι)} {root f g : ι}
  {name line : CString} {stack : List CString} {s : Loader n k} {below : List ConfigFrame}

theorem openConfigFile_eq (name : CString) (s : Loader n k) : openConfigFile sys name s
    = (some (opened sys name s.importStack),
      { s with importStack := stackWith name s.importStack }) := by
  rw [openConfigFile, opened, stackWith]
  cases parserDirname name with
  | none => rfl
  | some dir =>
    show (some ((sys.contents name).map fgetsAll), if _ then s else _) = _
    by_cases hdir : (s.importStack.any fun other => strcaseeq dir other) = true
    · simp only [if_pos hdir]
    · simp only [if_neg hdir]

/-- The stacks that there may be while a file is parsed. -/
inductive StackAt (files : ι → List (ConfigItem ι)) (root : ι) (stack : List CString) :
    ι → List CString → Prop
  | root : StackAt files root stack root stack
  | imported {f g : ι} {line name : CString} {stack' : List CString}
      (h : StackAt files root stack f stack') (hmem : .imports line g ∈ files f)
      (hname : importName line = some name) : StackAt files root stack g (stackWith name stack')
  | later {f g h : ι} {line name : CString} {stack' : List CString}
      (hstack : StackAt files root stack f stack') (hmem : .imports line g ∈ files h)
      (hname : importName line = some name) : StackAt files root stack f (stackWith name stack')

/-! ## Runs -/

/-- The line between sections that a call is at, if it does not import a file. -/
def ConfigFrame.atLine : ConfigFrame → List CString
  | .line (line :: _) => if importsFile line then [] else [line]
  | _ => []

/-- The line between sections that the parser is at. -/
def ConfigRun.atLine (r : ConfigRun n k) : List CString :=
  match r.frames with
  | frame :: _ => frame.atLine
  | [] => []

/-- A run, with the lines between sections that it has gone through. -/
def ConfigEmits (sys : System) (r : ConfigRun n k) (lines : List CString) (r' : ConfigRun n k) :
    Prop :=
  Emits (fun r => configStep sys r ()) ConfigRun.atLine r lines r'

/-- The parser has returned an error, or has crashed. -/
def ConfigRun.Stops (r : ConfigRun n k) : Prop := r.frames = [] ∧ r.status ≠ some .success

/-- The parser has returned without an error. -/
def ConfigRun.Returns (r : ConfigRun n k) : Prop := r.frames = [] ∧ r.status = some .success

/-- The parser goes through these lines between sections, and gets somewhere then, unless there is
an error before. -/
def GoesThrough (sys : System) (done : ConfigRun n k → Prop) (r : ConfigRun n k)
    (lines : List CString) : Prop :=
  Passes (fun r => configStep sys r ()) ConfigRun.atLine ConfigRun.Stops done r lines

/-- From the line, the parser comes to what is left of the file behind the body. It imports nothing
on its way. -/
def IsSection (n k : ℕ) (sys : System) (line : CString) (body rest : List CString) : Prop :=
  ∀ (below : List ConfigFrame) (s : Loader n k), GoesThrough sys
    (fun r => ∃ t : Loader n k, r = ⟨.line rest :: below, none, t⟩ ∧
      t.importStack = s.importStack)
    ⟨.line (line :: (body ++ rest)) :: below, none, s⟩ [line]

/-- The files that the server reads, from the root on. -/
structure ServerReads (n k : ℕ) (sys : System) (files : ι → List (ConfigItem ι)) (root : ι)
    (stack : List CString) : Prop where
  /-- A newline is at the end of a line only. -/
  newline : ∀ f, ∀ line ∈ linesOf (files f), 10 ∉ line.dropLast
  /-- The sections. -/
  blocks : ∀ f front line body back, files f = front ++ .block line body :: back →
    IsSection n k sys line body (linesOf back)
  /-- The imports. -/
  imports : ∀ f line g, .imports line g ∈ files f →
    ∃ name, importName line = some name ∧ strcaseeq name (ascii "theme") = false ∧
      ∀ stack', StackAt files root stack f stack' →
        opened sys name stack' = some (linesOf (files g))

/-! ## Rules -/

/-- A step to the next points of the same call. -/
theorem emits_goesOn {frame frame' : ConfigFrame} {frames : List ConfigFrame} {t : Loader n k}
    (h : stepFrame sys frame s = (some (.goesOn (frame' :: frames)), t))
    (below : List ConfigFrame) :
    ConfigEmits sys ⟨frame :: below, none, s⟩ frame.atLine
      ⟨frame' :: (frames ++ below), none, t⟩ := by
  have hstep : configStep sys ⟨frame :: below, none, s⟩ ()
      = some ⟨frame' :: (frames ++ below), none, t⟩ := configStep_of_goesOn h
  exact .of_step hstep

theorem atLine_testAt {tok : Tok} {lines : List CString} {i : ℕ} (hi : i < 7) :
    (testAt tok lines i).atLine = [] := by
  interval_cases i <;> rfl

/-- **The tests for other keywords.** -/
theorem emits_testAt (sys : System) {tok : Tok} {i j : ℕ} (hij : i ≤ j) (hj : j ≤ 7)
    (h : ∀ m < j, i ≤ m → tok.is (testKeyword m) = false) (lines : List CString)
    (below : List ConfigFrame) (s : Loader n k) :
    ConfigEmits sys ⟨testAt tok lines i :: below, none, s⟩ []
      ⟨testAt tok lines j :: below, none, s⟩ := by
  induction j, hij using Nat.le_induction with
  | base => exact .refl _
  | succ j hij ih =>
    have hrun := ih (Nat.le_of_succ_le hj) fun m hm hi => h m (Nat.lt_succ_of_lt hm) hi
    have hstep : ConfigEmits sys ⟨testAt tok lines j :: below, none, s⟩ (testAt tok lines j).atLine
        ⟨testAt tok lines (j + 1) :: below, none, s⟩ :=
      emits_goesOn (stepFrame_testAt hj (h j (Nat.lt_succ_self j) hij) lines s) below
    rw [atLine_testAt hj] at hstep
    exact hrun.trans hstep

/-- What a line that imports a file has for words. -/
theorem words_of_importName (h : importName line = some name) :
    ∃ w ws, words isspace line = w :: name :: ws ∧ strcaseeq w (ascii "import") = true := by
  rw [importName] at h
  rcases hwords : words isspace line with - | ⟨w, - | ⟨name', ws⟩⟩
  · rw [hwords] at h
    cases h
  · rw [hwords] at h
    cases h
  · simp only [hwords] at h
    split_ifs at h with hw
    obtain rfl := Option.some.inj h
    exact ⟨w, ws, rfl, hw⟩

/-- **A line between sections**: the tests for the keywords that it does not begin with. -/
theorem emits_line (sys : System) {w : CString} {ws : List CString}
    (hwords : words isspace line = w :: ws)
    (hw : w.head? ≠ some 35) (hline : 10 ∉ line.dropLast) {j : ℕ} (hj : j ≤ 7)
    (hothers : ∀ m < j, strcaseeq w (ascii (testKeyword m)) = false) (lines : List CString)
    (below : List ConfigFrame) (s : Loader n k) :
    ∃ tok, tok.token = w ∧ (∀ name more, ws = name :: more →
        ∃ next, parserTokenize tok.remainder = some next ∧ next.token = name) ∧
      ConfigEmits sys ⟨.line (line :: lines) :: below, none, s⟩
        (if importsFile line then [] else [line]) ⟨testAt tok lines j :: below, none, s⟩ := by
  obtain ⟨tok, htok, htoken, hrest⟩ := parserTokenize_of_cons hwords
  refine ⟨tok, htoken, ?_, ?_⟩
  · rintro name more rfl
    rcases hrest with ⟨-, hnil, -⟩ | ⟨rest, hremainder, -, hws⟩
    · cases hnil
    · obtain ⟨next, hnext, hname, -⟩ := parserTokenize_of_cons hws
      exact ⟨next, by rw [hremainder, hnext], hname⟩
  · have hskip : ¬ (line.head? = some 35 ∨ line.head? = some 10) := by
      rcases line with - | ⟨c, line⟩
      · cases hwords
      · rintro (hc | hc)
        · obtain rfl := Option.some.inj hc
          rw [words_cons_of_not_blank (by decide)] at hwords
          obtain ⟨rfl, -⟩ := List.cons.inj hwords
          exact hw rfl
        · obtain rfl := Option.some.inj hc
          rcases line with - | ⟨d, line⟩
          · have hnil : words isspace [10] = [] := by decide
            rw [hnil] at hwords
            cases hwords
          · exact hline List.mem_cons_self
    have hfirst : stepFrame sys (.line (line :: lines)) s
        = (some (.goesOn [testAt tok lines 0]), s) := by
      show (tokenize (some line) >>= _) s = _
      rw [tokenize_of_some htok, pure_bind_apply, if_neg hskip]
      rfl
    have hrun := (emits_goesOn hfirst below).trans (emits_testAt sys (Nat.zero_le j) hj
      (fun m hm _ => by rw [Tok.is, htoken, hothers m hm]) lines below s)
    rwa [List.append_nil] at hrun

/-- **A line that imports a file**: the call of the parser for that file. -/
theorem emits_import {imported : List CString} (h : importName line = some name)
    (hline : 10 ∉ line.dropLast) (hopened : opened sys name s.importStack = some imported)
    (lines : List CString) (below : List ConfigFrame) :
    ∃ tok, tok.token = name ∧ ConfigEmits sys ⟨.line (line :: lines) :: below, none, s⟩ []
      ⟨.line imported :: .test .theme tok lines :: below, none,
        { s with importStack := stackWith name s.importStack }⟩ := by
  obtain ⟨w, ws, hwords, hw⟩ := words_of_importName h
  have himports : importsFile line = true := by rw [importsFile, hwords]; exact hw
  have hhead : w.head? ≠ some 35 := by
    rintro hc
    rcases w with - | ⟨c, w⟩
    · cases hc
    · obtain rfl := Option.some.inj hc
      exact absurd (List.cons.inj (strcaseeq_iff.mp hw)).1 (by decide)
  have hothers : ∀ m < 5, strcaseeq w (ascii (testKeyword m)) = false := by
    intro m hm
    rw [strcaseeq_comm, strcaseeq_congr hw]
    interval_cases m <;> decide
  obtain ⟨tok, htoken, hnexts, hrun⟩ := emits_line sys hwords hhead hline (by decide)
    hothers lines below s
  rw [if_pos himports] at hrun
  obtain ⟨next, hnext, hname⟩ := hnexts name ws rfl
  have hopen : stepFrame sys (testAt tok lines 5) s
      = (some (.goesOn [.line imported, .test .theme next lines]),
        { s with importStack := stackWith name s.importStack }) := by
    show stepTest sys tok lines .import s = _
    rw [stepTest, if_pos (by rw [Tok.is, htoken, hw]), tokenize_of_some hnext, pure_bind_apply,
      hname, bind_of_some (openConfigFile_eq name s), hopened]
    rfl
  have hstep := emits_goesOn hopen below
  rw [atLine_testAt (by decide)] at hstep
  exact ⟨next, hname, hrun.trans hstep⟩

/-- **Behind an import**, if the file is not called `theme`. -/
theorem emits_behindImport (sys : System) {tok : Tok}
    (h : strcaseeq tok.token (ascii "theme") = false) (lines : List CString)
    (below : List ConfigFrame) (s : Loader n k) :
    ConfigEmits sys ⟨.line [] :: .test .theme tok lines :: below, none, s⟩ []
      ⟨.line lines :: below, none, s⟩ := by
  have hstep : configStep sys ⟨.line [] :: .test .theme tok lines :: below, none, s⟩ ()
      = some ⟨.test .theme tok lines :: below, none, s⟩ := rfl
  have hpop : ConfigEmits sys ⟨.line [] :: .test .theme tok lines :: below, none, s⟩ []
      ⟨testAt tok lines 6 :: below, none, s⟩ := .of_step hstep
  have htests : ∀ m < 7, 6 ≤ m → tok.is (testKeyword m) = false := by
    intro m hm hi
    obtain rfl : m = 6 := by omega
    exact h
  exact hpop.trans (emits_testAt sys (by decide) (by decide) htests lines below s)

/-! ## Blocks -/

/-- A line between the sections that is blank or a comment. -/
theorem isSection_remark (n k : ℕ) (sys : System) (rest : List CString) {remark : Remark}
    (hwords : words isspace line = remark.words) (himports : importsFile line = false) :
    IsSection n k sys line [] rest := by
  intro below s
  obtain ⟨tok, htok, hplain⟩ := parserTokenize_remark hwords
  have hatLine : (ConfigFrame.line (line :: rest)).atLine = [line] := by
    rw [ConfigFrame.atLine, himports, if_neg Bool.false_ne_true]
  by_cases hskip : line.head? = some 35 ∨ line.head? = some 10
  · have hfirst : stepFrame sys (.line (line :: rest)) s = (some (.goesOn [.line rest]), s) := by
      show (tokenize (some line) >>= _) s = _
      rw [tokenize_of_some htok, pure_bind_apply, if_pos hskip]
      rfl
    exact ⟨_, _, emits_goesOn hfirst below, .inl ⟨⟨s, rfl, rfl⟩, hatLine⟩⟩
  · have hfirst : stepFrame sys (.line (line :: rest)) s
        = (some (.goesOn [testAt tok rest 0]), s) := by
      show (tokenize (some line) >>= _) s = _
      rw [tokenize_of_some htok, pure_bind_apply, if_neg hskip]
      rfl
    have hplains : ∀ m < 7, 0 ≤ m → tok.is (testKeyword m) = false := fun m hm _ =>
      Tok.is_eq_false hplain (by interval_cases m <;> decide)
    have hrun := (emits_goesOn hfirst below).trans
      (emits_testAt sys (Nat.zero_le 7) le_rfl hplains rest below s)
    rw [List.append_nil] at hrun
    exact ⟨_, _, hrun, .inl ⟨⟨s, rfl, rfl⟩, hatLine⟩⟩

/-- The section of a client. -/
theorem isSection_client (n k : ℕ) (sys : System) (rest : List CString) (c : ClientSection)
    {mid : List CString} {fin : CString}
    (hwords : words isspace line = keyLine "client" c.name c.opening)
    (hline : 10 ∉ line.dropLast) (hmid : Spelled mid c.lines)
    (hfin : words isspace fin = endLine "client" c.closing) :
    IsSection n k sys line (mid ++ [fin]) rest := by
  intro below s
  have hothers : ∀ m < 2, strcaseeq (ascii "client") (ascii (testKeyword m)) = false := by decide
  obtain ⟨tok, htoken, hnexts, hrun⟩ := emits_line sys hwords (by decide) hline
    (by decide) hothers (mid ++ [fin] ++ rest) below s
  have himports : importsFile line = false := by
    rw [importsFile, hwords]
    show strcaseeq (ascii "client") (ascii "import") = false
    decide
  rw [himports, if_neg Bool.false_ne_true] at hrun
  obtain ⟨next, hnext, -⟩ := hnexts c.name c.opening.words rfl
  obtain ⟨last, hlast, hskip⟩ := skipClient_eq (n := n) (k := k) c hmid hfin next rest
  have hskipped : stepFrame sys (testAt tok (mid ++ [fin] ++ rest) 2) s
      = (some (.goesOn [testAt last rest 3]), s) := by
    show stepTest sys tok _ .client s = _
    rw [stepTest, if_pos (Tok.is_self htoken), tokenize_of_some hnext,
      pure_bind_apply, List.append_assoc, List.singleton_append, hskip]
    rfl
  have hstep := emits_goesOn hskipped below
  rw [atLine_testAt (by decide)] at hstep
  have htests : ∀ m < 7, 3 ≤ m → last.is (testKeyword m) = false := by
    intro m hm hi
    rw [Tok.is, hlast]
    interval_cases m <;> decide
  have hbehind := emits_testAt sys (by decide) le_rfl htests rest below s
  have hthrough := hrun.trans (hstep.trans hbehind)
  rw [List.append_nil, List.append_nil] at hthrough
  exact ⟨_, _, hthrough, .inl ⟨⟨s, rfl, rfl⟩, rfl⟩⟩

/-! ## Files -/

/-- In a state with these calls, the innermost one has the entries left that belong to some items
of its file. -/
def ReadsItems (files : ι → List (ConfigItem ι)) (root : ι) (stack : List CString)
    (entries : List (Entry ι CString)) (calls : List ι × List ConfigFrame) (r : ConfigRun n k) :
    Prop :=
  ∃ f fs front items s, calls.1 = f :: fs ∧ files f = front ++ items ∧
    items.map ConfigItem.entry = entries ∧
    (∀ f ∈ calls.1, StackAt files root stack f s.importStack) ∧
    r = ⟨.line (linesOf items) :: calls.2, none, s⟩

/-- **A call goes through what the lines of its file expand to.** -/
theorem passes_items (h : ServerReads n k sys files root stack) {entries : List (Entry ι CString)}
    {lines : List CString} (hlines : Expands (entriesOf files) entries lines)
    (calls : List ι × List ConfigFrame) (r : ConfigRun n k)
    (hr : ReadsItems files root stack entries calls r) :
    GoesThrough sys (ReadsItems files root stack [] calls) r lines := by
  refine passes_of_expands ?_ ?_ hlines calls r hr
  · rintro a entries ⟨calls, below⟩ r ⟨f, fs, front, items, s, hfs, hfile, hentries, hcalls, rfl⟩
    obtain ⟨item, back, rfl, hitem, rfl⟩ := List.map_eq_cons_iff.mp hentries
    cases item with
    | imports line g => cases hitem
    | block line body =>
      obtain rfl := Entry.line.inj hitem
      obtain ⟨xs, t, hrun, ⟨⟨s', rfl, hstack⟩, hxs⟩ | hstops⟩ :=
        h.blocks f front line body back hfile below s
      · refine ⟨xs, _, hrun, .inl ⟨⟨f, fs, front ++ [ConfigItem.block line body], back, s', hfs, ?_,
          rfl, ?_, rfl⟩, hxs⟩⟩
        · rw [hfile, List.append_assoc]
          rfl
        · exact fun f hf => hstack ▸ hcalls f hf
      · exact ⟨xs, t, hrun, .inr hstops⟩
  · rintro g entries ⟨calls, below⟩ r ⟨f, fs, front, items, s, hfs, hfile, hentries, hcalls, rfl⟩
    obtain ⟨item, back, rfl, hitem, rfl⟩ := List.map_eq_cons_iff.mp hentries
    cases item with
    | block line body => cases hitem
    | imports line g' =>
      obtain rfl := Entry.file.inj hitem
      obtain rfl : calls = f :: fs := hfs
      have hmem : .imports line g' ∈ files f := by rw [hfile]; simp
      obtain ⟨name, hname, htheme, hopened⟩ := h.imports f line g' hmem
      have hline : 10 ∉ line.dropLast := h.newline f line
        (List.mem_flatMap.mpr ⟨_, hmem, List.mem_singleton_self line⟩)
      have himported := hopened s.importStack (hcalls f List.mem_cons_self)
      obtain ⟨tok, htok, hrun⟩ := emits_import hname hline himported (linesOf back) below
      refine ⟨⟨g' :: f :: fs, .test .theme tok (linesOf back) :: below⟩, ?_, ?_⟩
      · refine ⟨[], _, hrun, .inl ⟨⟨g', f :: fs, [], files g', _, rfl, rfl, rfl, ?_, rfl⟩, rfl⟩⟩
        intro f' hf'
        rcases List.mem_cons.mp hf' with rfl | hf'
        · exact (hcalls f List.mem_cons_self).imported hmem hname
        · exact (hcalls f' hf').later hmem hname
      · rintro r ⟨_, _, _, items, s', -, -, hnil, hcalls', rfl⟩
        obtain rfl := List.map_eq_nil_iff.mp hnil
        have hback := emits_behindImport sys (by rw [htok, htheme]) (linesOf back) below s'
        refine ⟨[], _, hback, .inl ⟨⟨f, fs, front ++ [ConfigItem.imports line g'], back, s', rfl, ?_,
          rfl, ?_, rfl⟩, rfl⟩⟩
        · rw [hfile, List.append_assoc]
          rfl
        · exact fun f' hf' => hcalls' f' (List.mem_cons_of_mem _ hf')

/-- **The parser returns**, and it has gone through what the file expands to, unless there is an
error before. -/
theorem parserParseConfigFile_expands {file : CString} {start : Loader n k}
    (hopen : openConfigFile sys file start = (some (some (linesOf (files root))), s))
    (h : ServerReads n k sys files root s.importStack) {lines : List CString}
    (hlines : Expands (entriesOf files) (entriesOf files root) lines) :
    GoesThrough sys ConfigRun.Returns (parserParseConfigFile sys file start) lines := by
  have hstart : parserParseConfigFile sys file start
      = ⟨[.line (linesOf (files root))], none, s⟩ := by
    rw [parserParseConfigFile, hopen]
  rw [hstart]
  have hitems : GoesThrough sys (ReadsItems files root s.importStack [] ⟨[root], []⟩) _ lines :=
    passes_items h hlines ⟨[root], []⟩ _
      ⟨root, [], [], files root, s, rfl, rfl, rfl, fun f hf => ?_, rfl⟩
  · have hend : GoesThrough sys ConfigRun.Returns _ (lines ++ []) := hitems.trans fun r hr => by
      obtain ⟨_, _, _, items, s', -, -, hnil, -, rfl⟩ := hr
      obtain rfl := List.map_eq_nil_iff.mp hnil
      have hstep : configStep sys ⟨[.line []], none, s'⟩ () = some ⟨[], some .success, s'⟩ := rfl
      exact ⟨[], _, Emits.of_step hstep, .inl ⟨⟨rfl, rfl⟩, rfl⟩⟩
    rwa [List.append_nil] at hend
  · obtain rfl := List.mem_singleton.mp hf
    exact .root

/-! ## Imports without end -/

/-- **A file that imports itself** is parsed as long as it can be opened. -/
theorem frames_ne_nil_of_imports_self {tok next : Tok} {file : CString}
    (htok : parserTokenize (some line) = some tok) (himport : tok.is "import" = true)
    (hnext : parserTokenize tok.remainder = some next) (hfile : next.token = file)
    (hline : ¬ (line.head? = some 35 ∨ line.head? = some 10))
    (hopened : ∀ stack, opened sys file stack = some [line]) (start : Loader n k)
    {xs : List CString} {r : ConfigRun n k}
    (h : ConfigEmits sys (parserParseConfigFile sys file start) xs r) : r.frames ≠ [] := by
  have hothers : ∀ m < 5, tok.is (testKeyword m) = false := by
    intro m hm
    rw [Tok.is, strcaseeq_comm, strcaseeq_congr himport]
    interval_cases m <;> decide
  let I (r : ConfigRun n k) : Prop := ∃ below s, r = ⟨.line [line] :: below, none, s⟩ ∨
    ∃ i < 6, r = ⟨testAt tok [] i :: below, none, s⟩
  have hI : ∀ r r', I r → configStep sys r () = some r' → I r' := by
    rintro r r' ⟨below, s, rfl | ⟨i, hi, rfl⟩⟩ hstep
    · have hfirst : stepFrame sys (.line [line]) s = (some (.goesOn [testAt tok [] 0]), s) := by
        show (tokenize (some line) >>= _) s = _
        rw [tokenize_of_some htok, pure_bind_apply, if_neg hline]
        rfl
      obtain rfl := Option.some.inj ((configStep_of_goesOn hfirst).symm.trans hstep)
      exact ⟨below, s, .inr ⟨0, by decide, rfl⟩⟩
    · rcases Nat.lt_or_ge i 5 with hlt | hge
      · have htest : stepFrame sys (testAt tok [] i) s
            = (some (.goesOn [testAt tok [] (i + 1)]), s) :=
          stepFrame_testAt (by omega) (hothers i hlt) [] s
        obtain rfl := Option.some.inj ((configStep_of_goesOn htest).symm.trans hstep)
        exact ⟨below, s, .inr ⟨i + 1, by omega, rfl⟩⟩
      · obtain rfl : i = 5 := by omega
        have hopen : stepFrame sys (testAt tok [] 5) s
            = (some (.goesOn [.line [line], .test .theme next []]),
              { s with importStack := stackWith file s.importStack }) := by
          show stepTest sys tok [] .import s = _
          rw [stepTest, himport, if_pos rfl, tokenize_of_some hnext, pure_bind_apply, hfile,
            bind_of_some (openConfigFile_eq file s), hopened]
          rfl
        obtain rfl := Option.some.inj ((configStep_of_goesOn hopen).symm.trans hstep)
        exact ⟨_, _, .inl rfl⟩
  have hstart : I (parserParseConfigFile sys file start) := by
    rw [parserParseConfigFile, openConfigFile_eq, hopened]
    exact ⟨[], _, .inl rfl⟩
  obtain ⟨below, s, rfl | ⟨i, hi, rfl⟩⟩ := Emits.invariant hI h hstart
  · exact List.cons_ne_nil _ _
  · exact List.cons_ne_nil _ _

end Peep
