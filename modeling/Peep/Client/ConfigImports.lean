import Peep.Client.SectionIsolation
import Peep.Client.StateSections
import Peep.Server.ConfigEnds

/-!
# Imports in the client

The client reads the configuration file into an array, and takes the lines from its front
(`parseConfig` of `Net::Peep::Parser`). A line with `import` and a name has the lines of the file of
that name put there (`parseImport`), so that they come next. As in the server, nothing remembers
which files have been imported.

The names are relative to the directory of the configuration file, also in the files that it
imports.

## Choices

A line is tested for all keywords, in turn, and what parses a section takes lines from the array
too. What it makes of them is left out, but for what ends the program. The name of a client has no
character with a meaning in a regular expression. `\s` is what `isspace` is in C.

A file is what is found in it, as for the server; but here a section has to end in its file, since
the lines behind it would be taken from the file that imports it.

## Main results

* `parseConfig_expands` — the parser goes through what the lines of the file expand to
* `parseConfig_ends` — it comes to an end, whatever is in the files
* `imports_expand` — the same for both parsers
-/

namespace Peep

open Bytes Decimal Text Imports

/-! ## The sections -/

/-- What the parser is given. -/
structure ConfigSource where
  /-- The text of the configuration file. -/
  config : CString
  /-- The files that can be read in its directory. -/
  readable : CString → Option CString
  /-- Whether `checktype_contents` finds `ml` in the type of a text. -/
  isML : CString → Bool
  /-- Whether `parseTheme` returns. -/
  theme : CString → Bool

/-- The lines behind a section that ends with the first `end`. -/
def behindEnd : List CString → List CString
  | [] => []
  | line :: file => if IsFalse line ∨ begins (ascii "end") line then file else behindEnd file

/-- `parseGeneral`, with the lines that are left. -/
def parseGeneral (file : List CString) : List CString := behindEnd file

/-- `parseEvent`, with the lines that are left. -/
def parseEvent (file : List CString) : List CString := behindEnd file

/-- `parseClass`, with the lines that are left; `none` if it dies. -/
def parseClass (classname : CString) (file : List CString) : Option (List CString) :=
  if IsFalse classname then none else some (behindEnd file)

/-- A notification interval that is no number. -/
def badInterval (line : CString) : Bool :=
  let rest := (line.dropWhile isspace).dropWhile fun c => !isspace c
  (line.dropWhile isspace).takeWhile (fun c => !isspace c) = ascii "notification-interval" &&
    !rest.isEmpty && !isRun isDigit (trim isspace rest)

/-- `parseNotification`, with the lines that are left; `none` if it dies. -/
def parseNotification : List CString → Option (List CString)
  | [] => some []
  | line :: file =>
    if IsFalse line then some file
    else if begins (ascii "#") line then parseNotification file
    else if begins (ascii "end") line then some file
    else if badInterval line then none
    else parseNotification file

/-- The loop of `parseClient`, with the lines that are left. -/
def clientLoop (name : CString) : Option ClientBlock → List CString → List CString
  | _, [] => []
  | some b, line :: file => clientLoop name (nextClientBlock line (some b)) file
  | none, line :: file =>
    if IsFalse line ∨ begins (ascii "end client " ++ name) line then file
    else clientLoop name (nextClientBlock line none) file

/-- `parseClient`, with the lines that are left; `none` if it dies. -/
def skipClientSection (name : CString) (file : List CString) : Option (List CString) :=
  if IsFalse name then none else some (clientLoop name none file)

/-! ## The parser -/

/-- `parseImport`, with the lines that are there then. -/
def parseImport (source : ConfigSource) (file : List CString) (name : CString) : List CString :=
  match source.readable (trim isspace name) with
  | some contents => allLines 10 contents ++ file
  | none => file

/-- The test for `import`. -/
def testImport (source : ConfigSource) (line : CString) (file : List CString) : List CString :=
  match behind (ascii "import ") line with
  | some name => parseImport source file name
  | none => file

/-- The test for `theme`. -/
def testTheme (source : ConfigSource) (line : CString) (file : List CString) :
    Option (List CString) :=
  match wordBehind "theme" line with
  | some name => if source.theme name then some file else none
  | none => some file

/-- The test for a word and a name behind it. -/
def testNamed (text : String) (parse : CString → List CString → Option (List CString))
    (line : CString) (file : List CString) : Option (List CString) :=
  match behind (ascii text) line with
  | some name => parse name file
  | none => some file

/-- The test for a word. -/
def testWord (text : String) (parse : List CString → Option (List CString)) (line : CString)
    (file : List CString) : Option (List CString) :=
  if begins (ascii text) line then parse file else some file

/-- The tests of a line in `parseConfig`, with the lines that are left; `none` if the program
dies. -/
def parseConfigLine (source : ConfigSource) (line : CString) (file : List CString) :
    Option (List CString) := do
  let file ← testTheme source line (testImport source line file)
  let file ← testWord "general" (fun file => some (parseGeneral file)) line file
  let file ← testWord "notification" parseNotification line file
  let file ← testNamed "class " parseClass line file
  let file ← testNamed "client " skipClientSection line file
  let file ← testWord "event" (fun file => some (parseEvent file)) line file
  testWord "state" (fun file => (parseState .new file).map Prod.snd) line file

/-- A run of `parseConfig`. -/
inductive ParserRun
  /-- The lines that are left. -/
  | reads (file : List CString)
  /-- It has returned. -/
  | returned
  /-- The program has died. -/
  | died

/-- A turn of the loop. -/
def parserStep (source : ConfigSource) : ParserRun → Option ParserRun
  | .reads [] => some .returned
  | .reads (line :: file) =>
    if IsFalse line then some .returned
    else if begins (ascii "#") line then some (.reads file)
    else match parseConfigLine source line file with
      | some file => some (.reads file)
      | none => some .died
  | _ => none

/-- `parseConfig`. -/
def parseConfig (source : ConfigSource) : ParserRun :=
  if source.isML source.config then .returned else .reads (allLines 10 source.config)

/-- The line between sections that the parser is at, if it does not import a file. -/
def ParserRun.atLine : ParserRun → List CString
  | .reads (line :: _) => if IsFalse line ∨ begins (ascii "import ") line then [] else [line]
  | _ => []

/-- The parser goes through these lines between sections, and gets somewhere then, unless the
program dies before. -/
def ReadsThrough (source : ConfigSource) (done : ParserRun → Prop) (r : ParserRun)
    (lines : List CString) : Prop :=
  Passes (parserStep source) ParserRun.atLine (· = .died) done r lines

/-- From the line, the parser comes to what is behind the body. -/
def IsBlock (source : ConfigSource) (line : CString) (body : List CString) : Prop :=
  ∀ rest, ReadsThrough source (· = .reads rest) (.reads (line :: (body ++ rest))) [line]

/-- The files that the client reads. -/
structure ClientReads {ι : Type} (source : ConfigSource) (files : ι → List (ConfigItem ι)) :
    Prop where
  /-- The sections. -/
  blocks : ∀ f line body, .block line body ∈ files f → IsBlock source line body
  /-- The imports. -/
  imports : ∀ f line g, .imports line g ∈ files f → ∃ name contents,
    behind (ascii "import ") line = some name ∧
      source.readable (trim isspace name) = some contents ∧
      allLines 10 contents = linesOf (files g)

/-! ## Imports -/

variable {ι : Type} {source : ConfigSource} {files : ι → List (ConfigItem ι)} {root : ι}
  {line name : CString} {file body : List CString}

theorem behind_eq_some_iff {text line name : CString} : behind text line = some name ↔
    ∃ t, line.dropWhile isspace = text ++ t ∧ t.takeWhile (· ≠ 10) = name := by
  rw [behind]
  split_ifs with h
  · obtain ⟨t, ht⟩ := List.isPrefixOf_iff_prefix.mp h
    rw [← ht, List.drop_left]
    constructor
    · intro hname
      exact ⟨t, rfl, Option.some.inj hname⟩
    · rintro ⟨t', ht', rfl⟩
      rw [List.append_cancel_left ht']
  · constructor
    · intro hname
      cases hname
    · rintro ⟨t, ht, -⟩
      exact absurd (List.isPrefixOf_iff_prefix.mpr ⟨t, ht.symm⟩) h

/-- A line that imports a file is for none of the other tests. -/
theorem parserStep_import (h : behind (ascii "import ") line = some name) (file : List CString) :
    parserStep source (.reads (line :: file)) = some (.reads (parseImport source file name)) := by
  obtain ⟨t, ht, hname⟩ := behind_eq_some_iff.mp h
  have hfalse : ¬ IsFalse line := by
    rintro (rfl | rfl) <;> cases ht
  have hbegins (text : String) (htext : (ascii text).isPrefixOf (ascii "import " ++ t) = false) :
      begins (ascii text) line = false := by
    rw [begins, behind, ht, htext]
    rfl
  have hbehind (text : String) (htext : (ascii text).isPrefixOf (ascii "import " ++ t) = false) :
      behind (ascii text) line = none :=
    Option.not_isSome_iff_eq_none.mp (Bool.eq_false_iff.mp (hbegins text htext))
  have hwords : words isspace line = ascii "import" :: words isspace t := by
    have hspelled : ascii "import " ++ t = 105 :: 109 :: 112 :: 111 :: 114 :: 116 :: 32 :: t := rfl
    rw [← words_dropWhile, ht, hspelled, words_cons_of_not_blank (by decide)]
    exact congrArg _ (words_cons_of_blank (by decide))
  have htheme : wordBehind "theme" line = none := by
    rw [wordBehind, hwords]
    cases words isspace t with
    | nil => rfl
    | cons w ws => exact if_neg (by decide)
  have hline : parseConfigLine source line file = some (parseImport source file name) := by
    simp [parseConfigLine, testImport, testTheme, testNamed, testWord, h, htheme,
      hbegins "general" rfl, hbegins "notification" rfl, hbehind "class " rfl,
      hbehind "client " rfl, hbegins "event" rfl, hbegins "state" rfl]
  rw [parserStep, if_neg hfalse, hbegins "#" rfl, if_neg Bool.false_ne_true, hline]

/-- A state with the lines that belong to some items, and others behind them. -/
def ReadsLines (files : ι → List (ConfigItem ι)) (entries : List (Entry ι CString))
    (rest : List CString) (r : ParserRun) : Prop :=
  ∃ items, (∀ item ∈ items, ∃ f, item ∈ files f) ∧ items.map ConfigItem.entry = entries ∧
    r = .reads (linesOf items ++ rest)

/-- **The parser goes through what some items expand to.** -/
theorem passes_lines (h : ClientReads source files) {entries : List (Entry ι CString)}
    {lines : List CString} (hlines : Expands (entriesOf files) entries lines)
    (rest : List CString) (r : ParserRun) (hr : ReadsLines files entries rest r) :
    ReadsThrough source (ReadsLines files [] rest) r lines := by
  refine passes_of_expands ?_ ?_ hlines rest r hr
  · rintro a entries rest r ⟨items, hitems, hentries, rfl⟩
    obtain ⟨item, back, rfl, hitem, rfl⟩ := List.map_eq_cons_iff.mp hentries
    obtain ⟨⟨f, hf⟩, hback⟩ := List.forall_mem_cons.mp hitems
    cases item with
    | imports line g => cases hitem
    | block line body =>
      obtain rfl := Entry.line.inj hitem
      have hlist : linesOf (.block line body :: back) ++ rest
          = line :: (body ++ (linesOf back ++ rest)) := by
        show (line :: body) ++ linesOf back ++ rest = _
        rw [List.append_assoc, List.cons_append]
      rw [hlist]
      obtain ⟨xs, t, hrun, ⟨rfl, hxs⟩ | hdied⟩ := h.blocks f line body hf (linesOf back ++ rest)
      · exact ⟨xs, _, hrun, .inl ⟨⟨back, hback, rfl, rfl⟩, hxs⟩⟩
      · exact ⟨xs, t, hrun, .inr hdied⟩
  · rintro g entries rest r ⟨items, hitems, hentries, rfl⟩
    obtain ⟨item, back, rfl, hitem, rfl⟩ := List.map_eq_cons_iff.mp hentries
    obtain ⟨⟨f, hf⟩, hback⟩ := List.forall_mem_cons.mp hitems
    cases item with
    | block line body => cases hitem
    | imports line g' =>
      obtain rfl := Entry.file.inj hitem
      obtain ⟨name, contents, hname, hreadable, hcontents⟩ := h.imports f line g' hf
      have himport : parseImport source (linesOf back ++ rest) name
          = linesOf (files g') ++ (linesOf back ++ rest) := by
        rw [parseImport, hreadable, ← hcontents]
      have hstep : parserStep source (.reads (line :: (linesOf back ++ rest)))
          = some (.reads (linesOf (files g') ++ (linesOf back ++ rest))) := by
        rw [parserStep_import hname, himport]
      have hatLine : (ParserRun.reads (line :: (linesOf back ++ rest))).atLine = [] := by
        have hbegins : begins (ascii "import ") line = true := by rw [begins, hname]; rfl
        rw [ParserRun.atLine, if_pos (.inr hbegins)]
      have hrun : Emits (parserStep source) ParserRun.atLine _ _ _ := .of_step hstep
      rw [hatLine] at hrun
      refine ⟨linesOf back ++ rest, ⟨[], _, hrun, .inl ⟨⟨files g', fun item hitem => ⟨g', hitem⟩,
        rfl, rfl⟩, rfl⟩⟩, ?_⟩
      rintro r ⟨items, -, hnil, rfl⟩
      obtain rfl := List.map_eq_nil_iff.mp hnil
      exact .refl ⟨back, hback, rfl, rfl⟩

/-- **The parser returns**, and it has gone through what the file expands to, unless the program
dies before. -/
theorem parseConfig_expands (h : ClientReads source files) (hml : source.isML source.config = false)
    (hroot : allLines 10 source.config = linesOf (files root)) {lines : List CString}
    (hlines : Expands (entriesOf files) (entriesOf files root) lines) :
    ReadsThrough source (· = .returned) (parseConfig source) lines := by
  have hstart : parseConfig source = .reads (linesOf (files root)) := by
    rw [parseConfig, hml, if_neg Bool.false_ne_true, hroot]
  have hitems : ReadsThrough source (ReadsLines files [] []) (parseConfig source) lines :=
    passes_lines h hlines [] _ ⟨files root, fun item hitem => ⟨root, hitem⟩, rfl, by
      rw [hstart, List.append_nil]⟩
  have hend : ReadsThrough source (· = .returned) (parseConfig source) (lines ++ []) :=
    hitems.trans fun r hr => by
      obtain ⟨items, -, hnil, rfl⟩ := hr
      obtain rfl := List.map_eq_nil_iff.mp hnil
      have hstep : parserStep source (.reads []) = some .returned := rfl
      exact ⟨[], _, Emits.of_step hstep, .inl ⟨rfl, rfl⟩⟩
  rwa [List.append_nil] at hend

/-! ## Any files -/

theorem behindEnd_suffix (file : List CString) : behindEnd file <:+ file := by
  induction file with
  | nil => exact List.suffix_rfl
  | cons line file ih =>
    rw [behindEnd]
    split_ifs
    · exact List.suffix_cons line file
    · exact ih.trans (List.suffix_cons line file)

theorem parseNotification_suffix {file left : List CString}
    (h : parseNotification file = some left) : left <:+ file := by
  induction file with
  | nil =>
    obtain rfl := Option.some.inj h
    exact List.suffix_rfl
  | cons line file ih =>
    rw [parseNotification] at h
    split_ifs at h
    · obtain rfl := Option.some.inj h
      exact List.suffix_cons line _
    · exact (ih h).trans (List.suffix_cons line file)
    · obtain rfl := Option.some.inj h
      exact List.suffix_cons line _
    · exact (ih h).trans (List.suffix_cons line file)

theorem clientLoop_suffix (name : CString) (b : Option ClientBlock) (file : List CString) :
    clientLoop name b file <:+ file := by
  induction file generalizing b with
  | nil => cases b <;> exact List.suffix_rfl
  | cons line file ih =>
    cases b with
    | some b => exact (ih _).trans (List.suffix_cons line file)
    | none =>
      rw [clientLoop]
      split_ifs
      · exact List.suffix_cons line file
      · exact (ih _).trans (List.suffix_cons line file)

theorem parseState_suffix {state state' : StateData} {file left : List CString}
    (h : parseState state file = some (state', left)) : left <:+ file := by
  induction file generalizing state with
  | nil =>
    obtain ⟨-, rfl⟩ := Prod.mk.inj (Option.some.inj h)
    exact List.suffix_rfl
  | cons line file ih =>
    have hmore {state : StateData} (h : parseState state file = some (state', left)) :
        left <:+ line :: file := (ih h).trans (List.suffix_cons line file)
    rw [parseState] at h
    split_ifs at h
    · obtain ⟨-, rfl⟩ := Prod.mk.inj (Option.some.inj h)
      exact List.suffix_cons line _
    · obtain ⟨-, rfl⟩ := Prod.mk.inj (Option.some.inj h)
      exact List.suffix_cons line _
    · exact hmore h
    · rcases hname : wordBehind "name" line with - | name
      · rw [hname] at h
        cases h
      · rw [hname] at h
        exact hmore h
    · rcases hname : wordBehind "name" line with - | name
      · rw [hname] at h
        exact hmore h
      · rw [hname] at h
        exact hmore h

theorem testWord_suffix {text : String} {parse : List CString → Option (List CString)}
    (hparse : ∀ file left, parse file = some left → left <:+ file) {left : List CString}
    (h : testWord text parse line file = some left) : left <:+ file := by
  rw [testWord] at h
  split_ifs at h
  · exact hparse file left h
  · obtain rfl := Option.some.inj h
    exact List.suffix_rfl

theorem testNamed_suffix {text : String} {parse : CString → List CString → Option (List CString)}
    (hparse : ∀ name file left, parse name file = some left → left <:+ file) {left : List CString}
    (h : testNamed text parse line file = some left) : left <:+ file := by
  rw [testNamed] at h
  cases hname : behind (ascii text) line with
  | some name =>
    rw [hname] at h
    exact hparse name file left h
  | none =>
    rw [hname] at h
    obtain rfl := Option.some.inj h
    exact List.suffix_rfl

/-- **What parses sections takes lines from the front.** -/
theorem parseConfigLine_suffix {left : List CString}
    (hleft : parseConfigLine source line file = some left) :
    left <:+ testImport source line file := by
  obtain ⟨file₁, h₁, hleft⟩ := Option.bind_eq_some_iff.mp hleft
  obtain ⟨file₂, h₂, hleft⟩ := Option.bind_eq_some_iff.mp hleft
  obtain ⟨file₃, h₃, hleft⟩ := Option.bind_eq_some_iff.mp hleft
  obtain ⟨file₄, h₄, hleft⟩ := Option.bind_eq_some_iff.mp hleft
  obtain ⟨file₅, h₅, hleft⟩ := Option.bind_eq_some_iff.mp hleft
  obtain ⟨file₆, h₆, hleft⟩ := Option.bind_eq_some_iff.mp hleft
  have hend : ∀ file left, some (behindEnd file) = some left → left <:+ file := by
    rintro file _ ⟨⟩
    exact behindEnd_suffix file
  have htheme : file₁ = testImport source line file := by
    rw [testTheme] at h₁
    cases hname : wordBehind "theme" line with
    | some name =>
      simp only [hname] at h₁
      split_ifs at h₁
      exact (Option.some.inj h₁).symm
    | none =>
      rw [hname] at h₁
      exact (Option.some.inj h₁).symm
  have hclass : ∀ name file left, parseClass name file = some left → left <:+ file := by
    intro name file left h
    rw [parseClass] at h
    split_ifs at h
    exact hend file left h
  have hclient : ∀ name file left, skipClientSection name file = some left → left <:+ file := by
    intro name file left h
    rw [skipClientSection] at h
    split_ifs at h
    obtain rfl := Option.some.inj h
    exact clientLoop_suffix name none file
  have hstate : ∀ file left, (parseState .new file).map Prod.snd = some left → left <:+ file := by
    intro file left h
    obtain ⟨⟨state, left⟩, hparse, rfl⟩ := Option.map_eq_some_iff.mp h
    exact parseState_suffix hparse
  rw [← htheme]
  exact (testWord_suffix hstate hleft).trans <| (testWord_suffix hend h₆).trans <|
    (testNamed_suffix hclient h₅).trans <| (testNamed_suffix hclass h₄).trans <|
    (testWord_suffix (fun _ _ => parseNotification_suffix) h₃).trans (testWord_suffix hend h₂)

/-- The parser returns, or the program dies, if lines from the end of these are left. -/
def EndsFrom (source : ConfigSource) (file : List CString) : Prop :=
  ∀ left, left <:+ file → ∃ xs r, Emits (parserStep source) ParserRun.atLine (.reads left) xs r ∧
    (r = .returned ∨ r = .died)

theorem endsFrom_nil (source : ConfigSource) : EndsFrom source [] := by
  intro left hleft
  obtain rfl := List.suffix_nil.mp hleft
  have hstep : parserStep source (.reads []) = some .returned := rfl
  exact ⟨_, _, .of_step hstep, .inl rfl⟩

/-- A line more. -/
theorem endsFrom_cons (h : EndsFrom source (testImport source line file))
    (hfile : EndsFrom source file) : EndsFrom source (line :: file) := by
  intro left hleft
  rcases List.suffix_cons_iff.mp hleft with rfl | hleft
  · by_cases hfalse : IsFalse line
    · have hstep : parserStep source (.reads (line :: file)) = some .returned := if_pos hfalse
      exact ⟨_, _, .of_step hstep, .inl rfl⟩
    · rcases hcomment : begins (ascii "#") line with - | -
      · rcases hline : parseConfigLine source line file with - | left
        · have hstep : parserStep source (.reads (line :: file)) = some .died := by
            rw [parserStep, if_neg hfalse, hcomment, if_neg Bool.false_ne_true, hline]
          exact ⟨_, _, .of_step hstep, .inr rfl⟩
        · have hstep : parserStep source (.reads (line :: file)) = some (.reads left) := by
            rw [parserStep, if_neg hfalse, hcomment, if_neg Bool.false_ne_true, hline]
          obtain ⟨xs, r, hrun, hr⟩ := h left (parseConfigLine_suffix hline)
          exact ⟨_, r, .head hstep hrun, hr⟩
      · have hstep : parserStep source (.reads (line :: file)) = some (.reads file) := by
          rw [parserStep, if_neg hfalse, hcomment, if_pos rfl]
        obtain ⟨xs, r, hrun, hr⟩ := hfile file List.suffix_rfl
        exact ⟨_, r, .head hstep hrun, hr⟩
  · exact hfile left hleft

/-- One of the lines of a file would import the other. -/
def MayImport (source : ConfigSource) (raws : ι → List CString) (g f : ι) : Prop :=
  ∃ line ∈ raws f, ∃ name contents, behind (ascii "import ") line = some name ∧
    source.readable (trim isspace name) = some contents ∧ allLines 10 contents = raws g

/-- The files that may be imported are among these, and none of them leads back to itself. -/
structure ClientCloses (source : ConfigSource) (raws : ι → List CString) : Prop where
  /-- What may be imported is one of the files. -/
  closed : ∀ f, ∀ line ∈ raws f, ∀ name contents, behind (ascii "import ") line = some name →
    source.readable (trim isspace name) = some contents → ∃ g, allLines 10 contents = raws g
  /-- No file leads back to itself. -/
  acyclic : ∀ f, ¬ Relation.TransGen (MayImport source raws) f f

/-- **Whatever is in the files**, the parser returns or the program dies, if no file leads back to
itself. -/
theorem parseConfig_ends [Finite ι] {raws : ι → List CString} (h : ClientCloses source raws)
    (hroot : allLines 10 source.config = raws root) :
    ∃ xs r, Emits (parserStep source) ParserRun.atLine (parseConfig source) xs r ∧
      (r = .returned ∨ r = .died) := by
  have hfiles : ∀ f rest, EndsFrom source rest → EndsFrom source (raws f ++ rest) := by
    intro f
    induction f using (wellFounded_of_transGen h.acyclic).induction with
    | _ f ih =>
      intro rest hrest
      -- the lines at the end of the file, the last one first
      have hlines : ∀ lines ⊆ raws f, EndsFrom source (lines ++ rest) := by
        intro lines hsub
        induction lines with
        | nil => exact hrest
        | cons line lines hind =>
          obtain ⟨hline, hlines⟩ := List.cons_subset.mp hsub
          refine endsFrom_cons ?_ (hind hlines)
          rw [testImport]
          cases hname : behind (ascii "import ") line with
          | none => exact hind hlines
          | some name =>
            show EndsFrom source (parseImport source (lines ++ rest) name)
            rw [parseImport]
            cases hreadable : source.readable (trim isspace name) with
            | none => exact hind hlines
            | some contents =>
              obtain ⟨g, hg⟩ := h.closed f line hline name contents hname hreadable
              show EndsFrom source (allLines 10 contents ++ (lines ++ rest))
              rw [hg]
              exact ih g ⟨line, hline, name, contents, hname, hreadable, hg⟩ _ (hind hlines)
      exact hlines (raws f) (List.Subset.refl _)
  rw [parseConfig]
  split_ifs
  · exact ⟨[], _, .refl _, .inl rfl⟩
  · have hends := hfiles root [] (endsFrom_nil source)
    rw [List.append_nil, ← hroot] at hends
    exact hends _ List.suffix_rfl

/-! ## Blocks of the client -/

/-- A comment. -/
theorem isBlock_comment (h : begins (ascii "#") line = true) : IsBlock source line [] := by
  intro rest
  obtain ⟨t, ht⟩ := begins_iff.mp h
  have hfalse : ¬ IsFalse line := by
    rintro (rfl | rfl) <;> cases ht
  have himport : begins (ascii "import ") line = false := by
    rw [begins, behind, ← ht]
    rfl
  have hstep : parserStep source (.reads (line :: rest)) = some (.reads rest) := by
    rw [parserStep, if_neg hfalse, if_pos h]
  have hatLine : (ParserRun.reads (line :: rest)).atLine = [line] := by
    rw [ParserRun.atLine, if_neg (not_or.mpr ⟨hfalse, by simp [himport]⟩)]
  exact ⟨_, _, .of_step hstep, .inl ⟨rfl, hatLine⟩⟩

/-- A line, and those that the tests for it take. -/
theorem isBlock_of_parseConfigLine (hfalse : ¬ IsFalse line)
    (hcomment : begins (ascii "#") line = false) (himport : begins (ascii "import ") line = false)
    (h : ∀ rest, parseConfigLine source line (body ++ rest) = some rest) :
    IsBlock source line body := by
  intro rest
  have hstep : parserStep source (.reads (line :: (body ++ rest))) = some (.reads rest) := by
    rw [parserStep, if_neg hfalse, hcomment, if_neg Bool.false_ne_true, h]
  have hatLine : (ParserRun.reads (line :: (body ++ rest))).atLine = [line] := by
    rw [ParserRun.atLine, if_neg (not_or.mpr ⟨hfalse, by simp [himport]⟩)]
  exact ⟨_, _, .of_step hstep, .inl ⟨rfl, hatLine⟩⟩

/-! ## Both parsers -/

/-- A file that imports another one, which has the section of a client. -/
def logtabFiles : Bool → List (ConfigItem Bool)
  | false => [.block (ascii "# Peep\n") [], .imports (ascii "import peep.logtab\n") true,
      .block (ascii "# done") []]
  | true => [.block (ascii "client logparser\n") [ascii "end client logparser\n"]]

/-- What the client is given. -/
def logtabSource : ConfigSource where
  config := (linesOf (logtabFiles false)).flatten
  readable := fun name =>
    if name = ascii "peep.logtab" then some (linesOf (logtabFiles true)).flatten else none
  isML := fun _ => false
  theme := fun _ => false

/-- The files of the server. -/
def logtabSystem : System :=
  { oneFile [] with
    contents := fun path =>
      if path = inDir (ascii "./") (ascii "peep.conf") then
        some (linesOf (logtabFiles false)).flatten
      else if path = inDir (ascii "./") (ascii "peep.logtab") then
        some (linesOf (logtabFiles true)).flatten
      else none }

/-- Files of which one imports the other only. -/
theorem not_transGen_bool {r : Bool → Bool → Prop} (h : ∀ g f, r g f → g = true ∧ f = false)
    (f : Bool) : ¬ Relation.TransGen r f f := by
  have hrun : ∀ g f, Relation.TransGen r g f → g = true ∧ f = false := by
    intro g f hrun
    induction hrun with
    | single hstep => exact h _ _ hstep
    | tail _ hstep ih => exact ⟨ih.1, (h _ _ hstep).2⟩
  intro hback
  obtain ⟨rfl, hf⟩ := hrun f f hback
  cases hf

theorem acyclic_logtabFiles : Acyclic (entriesOf logtabFiles) := by
  refine not_transGen_bool fun g f h => ?_
  cases f with
  | false => exact ⟨by simpa [entriesOf, logtabFiles, ConfigItem.entry] using h, rfl⟩
  | true => simp [entriesOf, logtabFiles, ConfigItem.entry] at h

/-- Only the first file has an import, of the other one. -/
theorem name_eq_of_logtabFiles {f : Bool} {line name : CString}
    (hline : line ∈ linesOf (logtabFiles f)) (h : behind (ascii "import ") line = some name) :
    f = false ∧ trim isspace name = ascii "peep.logtab" := by
  have hall : ∀ f, ∀ line ∈ linesOf (logtabFiles f),
      (behind (ascii "import ") line).all fun name =>
        f = false ∧ trim isspace name = ascii "peep.logtab" := by decide
  have hname := hall f line hline
  rw [h] at hname
  simpa using hname

theorem clientCloses_logtabFiles :
    ClientCloses logtabSource fun f => linesOf (logtabFiles f) := by
  have hreadable : logtabSource.readable (ascii "peep.logtab")
      = some (linesOf (logtabFiles true)).flatten := by decide
  have hlines : allLines 10 (linesOf (logtabFiles true)).flatten = linesOf (logtabFiles true) := by
    decide
  constructor
  · intro f line hline name contents hname hcontents
    obtain ⟨-, htrim⟩ := name_eq_of_logtabFiles hline hname
    rw [htrim, hreadable] at hcontents
    obtain rfl := Option.some.inj hcontents
    exact ⟨true, hlines⟩
  · refine not_transGen_bool ?_
    rintro g f ⟨line, hline, name, contents, hname, hcontents, hg⟩
    obtain ⟨hf, htrim⟩ := name_eq_of_logtabFiles hline hname
    rw [htrim, hreadable] at hcontents
    obtain rfl := Option.some.inj hcontents
    refine ⟨?_, hf⟩
    rw [hlines] at hg
    cases g with
    | true => rfl
    | false => exact absurd hg (by decide)

theorem clientReads_logtabFiles : ClientReads logtabSource logtabFiles where
  blocks := by
    intro f line body h
    cases f with
    | false =>
      simp only [logtabFiles, List.mem_cons, ConfigItem.block.injEq, reduceCtorEq, false_or,
        List.not_mem_nil, or_false] at h
      rcases h with ⟨rfl, rfl⟩ | ⟨rfl, rfl⟩
      · exact isBlock_comment (by decide)
      · exact isBlock_comment (by decide)
    | true =>
      simp only [logtabFiles, List.mem_singleton, ConfigItem.block.injEq] at h
      obtain ⟨rfl, rfl⟩ := h
      exact isBlock_of_parseConfigLine (by decide) (by decide) (by decide)
        fun rest => rfl
  imports := by
    intro f line g h
    cases f with
    | false =>
      simp only [logtabFiles, List.mem_cons, ConfigItem.imports.injEq, reduceCtorEq, false_or,
        List.not_mem_nil, or_false] at h
      obtain ⟨rfl, rfl⟩ := h
      exact ⟨ascii "peep.logtab", _, by decide, rfl, by decide⟩
    | true => simp [logtabFiles] at h

/-- The stack stays as it is at the start. -/
theorem stackAt_logtabFiles {f : Bool} {stack : List CString}
    (h : StackAt logtabFiles false [ascii "./"] f stack) : stack = [ascii "./"] := by
  have hwith : ∀ f line g name stack, .imports line g ∈ logtabFiles f →
      importName line = some name → stackWith name stack = stack := by
    intro f line g name stack hmem hname
    cases f with
    | false =>
      simp only [logtabFiles, List.mem_cons, ConfigItem.imports.injEq, reduceCtorEq, false_or,
        List.not_mem_nil, or_false] at hmem
      obtain ⟨rfl, rfl⟩ := hmem
      have hlogtab : importName (ascii "import peep.logtab\n") = some (ascii "peep.logtab") := by
        decide
      obtain rfl := Option.some.inj (hlogtab.symm.trans hname)
      rfl
    | true => simp [logtabFiles] at hmem
  induction h with
  | root => rfl
  | imported _ hmem hname ih => rw [hwith _ _ _ _ _ hmem hname, ih]
  | later _ hmem hname ih => rw [hwith _ _ _ _ _ hmem hname, ih]

theorem serverReads_logtabFiles :
    ServerReads 12 4 logtabSystem logtabFiles false [ascii "./"] where
  newline := by decide
  blocks := by
    have hcomment : ∀ line rest, words isspace line = [ascii "#", ascii "Peep"] ∨
        words isspace line = [ascii "#", ascii "done"] →
        IsSection 12 4 logtabSystem line [] rest := by
      intro line rest hwords
      have himports : importsFile line = false := by
        rcases hwords with hwords | hwords <;> rw [importsFile, hwords] <;> decide
      rcases hwords with hwords | hwords
      · exact isSection_remark 12 4 logtabSystem rest
          (show words isspace line = (⟨[ascii "#", ascii "Peep"], by decide⟩ : Remark).words
            from hwords) himports
      · exact isSection_remark 12 4 logtabSystem rest
          (show words isspace line = (⟨[ascii "#", ascii "done"], by decide⟩ : Remark).words
            from hwords) himports
    intro f front line body back h
    have hmem : .block line body ∈ logtabFiles f := by rw [h]; simp
    cases f with
    | false =>
      simp only [logtabFiles, List.mem_cons, ConfigItem.block.injEq, reduceCtorEq, false_or,
        List.not_mem_nil, or_false] at hmem
      rcases hmem with ⟨rfl, rfl⟩ | ⟨rfl, rfl⟩
      · exact hcomment _ _ (.inl (by decide))
      · exact hcomment _ _ (.inr (by decide))
    | true =>
      simp only [logtabFiles, List.mem_singleton, ConfigItem.block.injEq] at hmem
      obtain ⟨rfl, rfl⟩ := hmem
      exact isSection_client 12 4 logtabSystem _
        ⟨ascii "logparser", noRemark, [], fun _ h => (List.not_mem_nil h).elim,
          [ascii "logparser"]⟩ (by decide) (by decide) .nil (by decide)
  imports := by
    intro f line g h
    cases f with
    | false =>
      simp only [logtabFiles, List.mem_cons, ConfigItem.imports.injEq, reduceCtorEq, false_or,
        List.not_mem_nil, or_false] at h
      obtain ⟨rfl, rfl⟩ := h
      refine ⟨ascii "peep.logtab", by decide, by decide, fun stack hstack => ?_⟩
      obtain rfl := stackAt_logtabFiles hstack
      decide
    | true => simp [logtabFiles] at h

/-- The same for the server. -/
theorem leadsTo_logtabFiles {f : Bool} {name : CString}
    (h : LeadsTo (linesOf (logtabFiles f)) name) : f = false ∧ name = ascii "peep.logtab" := by
  have hall : ∀ f, ∀ line ∈ linesOf (logtabFiles f), ∀ tok ∈ tokens (some line),
      tok.is "import" = true → (parserTokenize tok.remainder).all fun tok' =>
        f = false ∧ tok'.token = ascii "peep.logtab" := by decide
  obtain ⟨tok, tok', ⟨line, hline, htok⟩, himport, htok', rfl⟩ := h
  have hname := hall f line hline tok htok himport
  rw [htok'] at hname
  simpa using hname

theorem serverCloses_logtabFiles :
    ServerCloses logtabSystem (fun f => linesOf (logtabFiles f)) [ascii "./"] := by
  have hopened : opened logtabSystem (ascii "peep.logtab") [ascii "./"]
      = some (linesOf (logtabFiles true)) := by decide
  have hstack : ∀ stack, StackOf (fun f => linesOf (logtabFiles f)) [ascii "./"] stack →
      stack = [ascii "./"] := by
    intro stack h
    induction h with
    | start => rfl
    | opened _ hname ih =>
      obtain ⟨-, rfl⟩ := leadsTo_logtabFiles hname
      rw [ih]
      rfl
  constructor
  · intro f name stack imported hname h himported
    obtain ⟨-, rfl⟩ := leadsTo_logtabFiles hname
    obtain rfl := hstack stack h
    exact ⟨true, Option.some.inj (himported.symm.trans hopened)⟩
  · refine not_transGen_bool ?_
    rintro g f ⟨name, stack, hname, h, himported⟩
    obtain ⟨hf, rfl⟩ := leadsTo_logtabFiles hname
    obtain rfl := hstack stack h
    refine ⟨?_, hf⟩
    have hg := Option.some.inj (himported.symm.trans hopened)
    cases g with
    | true => rfl
    | false => exact absurd hg (by decide)

/-- The line of the file. -/
def selfLine : CString := ascii "import /etc/peep.conf\n"

/-- What the client is given. -/
def selfSource : ConfigSource where
  config := selfLine
  readable := fun _ => some selfLine
  isML := fun _ => false
  theme := fun _ => false

end Peep
