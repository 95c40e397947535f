import Mathlib.Data.List.DropRight
import Mathlib.Data.List.SplitBy
import Peep.Client.Data
import Peep.Client.ServerCache
import Peep.Server.ConfigFormat

/-!
# The sections of the system monitor

The configuration of `sysmonitor` has three sections, with a format for the lines of each. `parse`
looks for the lines of each section in the whole text (`getConfigSection`), and what is found is
matched with the format.

A section begins with a line that begins with its word, so also with an entry of such a name. And
the line that ends it is said to begin with `end events`, which belongs to another client. So a
section goes on to the end of the text, and an entry of another section that happens to have its
format is taken for one of its own.

## Choices

The text is the list of its lines. The version has been checked, and the client has a name. That
there are no hosts in a list of hosts, or that one of them is false, ends the program. `\s` is what
`isspace` is in C.

A group of an expression is the longest run of characters that are not blank, since blanks have to
come behind it, and it has none.

## Main results

* `linesTaken_text` — what is taken for the entries of a section
* `isolates_iff` — the texts whose sections are kept apart
-/

namespace Peep

open Decimal Text

/-! ## The formats -/

/-- The sections. -/
inductive SysmonWord
  /-- `uptime`. -/
  | uptime
  /-- `procs`. -/
  | procs
  /-- `disk`. -/
  | disk
  deriving DecidableEq

/-- A run of characters, as in `[\w\-]+`. -/
def isRun (accepts : UInt8 → Bool) (w : CString) : Bool := !w.isEmpty && w.all accepts

/-- `(info|warn|crit)`. -/
def isLevelName (w : CString) : Bool :=
  w = ascii "info" || w = ascii "warn" || w = ascii "crit"

/-- A part of an expression: the key of its group, and what the group accepts. -/
abbrev CaptureGroup : Type := String × (CString → Bool)

/-- A group and the blanks behind it. -/
def CaptureGroup.take (group : CaptureGroup) (s : CString) :
    Option ((String × CString) × CString) :=
  let w := s.takeWhile fun c => !isspace c
  let rest := s.dropWhile fun c => !isspace c
  if group.2 w && !rest.isEmpty then some ((group.1, w), rest.dropWhile isspace) else none

/-- Some groups. -/
def takeGroups :
    List CaptureGroup → CString → Option (List (String × CString) × CString)
  | [], s => some ([], s)
  | group :: groups, s => do
    let (capture, s) ← group.take s
    let (captures, s) ← takeGroups groups s
    some (capture :: captures, s)

namespace SysmonWord

/-- The word. -/
def name : SysmonWord → CString
  | uptime => ascii "uptime"
  | procs => ascii "procs"
  | disk => ascii "disk"

/-- The groups in front of the hosts. -/
def groups : SysmonWord → List CaptureGroup
  | uptime => [("name", isRun isWord), ("state", isRun isWord),
      ("value", isRun fun c => isDigit c || c = 46), ("location", isRun isDigit),
      ("priority", isRun isDigit), ("notification", isLevelName)]
  | procs => [("name", isRun fun c => isWord c || c = 45 || c = 46),
      ("event", isRun fun c => isWord c || c = 45),
      ("max", fun w => isRun isDigit w || w = ascii "inf"), ("min", isRun isDigit),
      ("location", isRun isDigit), ("priority", isRun isDigit), ("notification", isLevelName)]
  | disk => [("name", isRun isWord), ("event", isRun fun c => isWord c || c = 45),
      ("max", isRun isDigit), ("location", isRun isDigit), ("priority", isRun isDigit),
      ("notification", isLevelName)]

/-- The group of the hosts. -/
def hosts (word : SysmonWord) (s : CString) : Option CString :=
  match word with
  | procs =>
    let w := s.takeWhile (· ≠ 10)
    if s.drop w.length = [] ∨ s.drop w.length = [10] then some w else none
  | _ =>
    let w := s.takeWhile fun c => isWord c || c = 45 || c = 46
    if w = [] then none else some w

/-- The groups of a line that has the format of a section, and the hosts. -/
def captures (word : SysmonWord) (line : CString) :
    Option (List (String × CString) × CString) := do
  let (captures, s) ← takeGroups word.groups (line.dropWhile isspace)
  let hosts ← word.hosts s
  some (captures, hosts)

end SysmonWord

/-! ## The hosts of an entry -/

/-- `Net::Peep::Host`. -/
inductive PoolHost
  /-- `ip`. -/
  | ip (id : CString)
  /-- `name`. -/
  | name (id : CString)
  deriving DecidableEq

/-- `/^(\d+\.)+\d+$/`, which matches in front of a newline as well. -/
def isIP (id : CString) : Bool :=
  let parts := (if id.getLast? = some 10 then id.dropLast else id).splitOn 46
  decide (2 ≤ parts.length) && parts.all (isRun isDigit)

/-- The blanks around the commas behind a field are dropped. -/
def trimCommas : CString → List CString → List CString
  | w, [] => [w]
  | w, v :: ws => w.rdropWhile isspace :: trimCommas (v.dropWhile isspace) ws

/-- `split /\s*,\s*/`: fields at the end that are empty are left out. -/
def splitHosts (hosts : CString) : List CString :=
  match hosts.splitOn 44 with
  | [] => []
  | w :: ws => (trimCommas w ws).rdropWhile List.isEmpty

/-- A host of a pool; `none` if the program ends. -/
def poolHost (id : CString) : Option PoolHost :=
  if IsFalse id then none else some (if isIP id then .ip id else .name id)

/-- `addHosts`; `none` if the program ends. -/
def addHosts (hosts : CString) : Option (List PoolHost) :=
  if IsFalse hosts then none else (splitHosts hosts).mapM poolHost

/-- There are hosts in a list of hosts. -/
def HasHosts (hosts : CString) : Prop := ¬ IsFalse hosts ∧ ∀ id ∈ splitHosts hosts, ¬ IsFalse id

theorem isSome_mapM {α β : Type} {f : α → Option β} {l : List α} :
    (l.mapM f).isSome ↔ ∀ x ∈ l, (f x).isSome := by
  induction l with
  | nil => simp
  | cons x l ih =>
    rw [List.forall_mem_cons, ← ih, List.mapM_cons]
    cases f x <;> cases l.mapM f <;> simp

/-- **Whether a pool can be made.** -/
theorem isSome_addHosts {hosts : CString} : (addHosts hosts).isSome ↔ HasHosts hosts := by
  have hpool : ∀ id, (poolHost id).isSome ↔ ¬ IsFalse id := by
    intro id
    rw [poolHost]
    by_cases hid : IsFalse id
    · simp [hid]
    · rw [if_neg hid]
      simp [hid]
  rw [addHosts, HasHosts]
  split_ifs with hfalse
  · simp [hfalse]
  · simp [hfalse, isSome_mapM, hpool]

/-! ## Parsing the text -/

/-- An entry of `@UPTIME`, `@PROC` or `@DISK`. -/
structure MonitorEntry where
  /-- What the groups have captured, under the names of the keys. -/
  captures : List (String × CString)
  /-- `hosts`. -/
  hosts : CString
  /-- `pool`. -/
  pool : List PoolHost
  deriving DecidableEq

/-- The loop of `getConfigSection`. -/
def sectionLoop (name : CString) : Bool → List CString → List CString
  | _, [] => []
  | read, line :: text =>
    if begins name line then sectionLoop name true text
    else if begins (ascii "end events") line then sectionLoop name false text
    else if read then
      if isRemark line then sectionLoop name read text else line :: sectionLoop name read text
    else sectionLoop name read text

/-- `getConfigSection`. -/
def getConfigSection (name : CString) (text : List CString) : List CString :=
  sectionLoop name false text

/-- The entry that a section gets from a line of its format. -/
def entryOf (word : SysmonWord) (line : CString) : Option MonitorEntry := do
  let (captures, hosts) ← word.captures line
  let pool ← addHosts hosts
  some ⟨captures, hosts, pool⟩

/-- The loops of `parseUptime`, `parseProcs` and `parseDisk`; `none` if the program ends. -/
def parseEntries (word : SysmonWord) : List CString → Option (List MonitorEntry)
  | [] => some []
  | line :: text =>
    if IsFalse line then some []
    else if isRemark line then parseEntries word text
    else if (word.captures line).isSome then do
      let entry ← entryOf word line
      let entries ← parseEntries word text
      some (entry :: entries)
    else parseEntries word text

/-- `parseUptime`. -/
def parseUptime (text : List CString) : Option (List MonitorEntry) := parseEntries .uptime text

/-- `parseProcs`. -/
def parseProcs (text : List CString) : Option (List MonitorEntry) := parseEntries .procs text

/-- `parseDisk`. -/
def parseDisk (text : List CString) : Option (List MonitorEntry) := parseEntries .disk text

/-- The tables of `sysmonitor`. -/
structure MonitorTables where
  /-- `@UPTIME`. -/
  UPTIME : List MonitorEntry
  /-- `@PROC`. -/
  PROC : List MonitorEntry
  /-- `@DISK`. -/
  DISK : List MonitorEntry

/-- The table of a section. -/
def MonitorTables.of (tables : MonitorTables) : SysmonWord → List MonitorEntry
  | .uptime => tables.UPTIME
  | .procs => tables.PROC
  | .disk => tables.DISK

/-- `parse`; `none` if the program ends. -/
def parseMonitor (text : List CString) : Option MonitorTables := do
  let uptime := getConfigSection (ascii "uptime") text
  let procs := getConfigSection (ascii "procs") text
  let disk := getConfigSection (ascii "disk") text
  let UPTIME ← parseUptime uptime
  let PROC ← parseProcs procs
  let DISK ← parseDisk disk
  some ⟨UPTIME, PROC, DISK⟩

/-- The lines of which a section makes its entries. -/
def linesTaken (word : SysmonWord) (text : List CString) : List CString :=
  ((getConfigSection word.name text).takeWhile fun line => !decide (IsFalse line)).filter
    fun line => (word.captures line).isSome

variable {word : SysmonWord} {line : CString} {raws : List CString}

/-- **What the loops make of some lines.** -/
theorem parseEntries_eq (text : List CString) : parseEntries word text
    = ((text.takeWhile fun line => !decide (IsFalse line)).filter fun line =>
        (word.captures line).isSome && !isRemark line).mapM (entryOf word) := by
  induction text with
  | nil => rfl
  | cons line text ih =>
    rw [parseEntries]
    by_cases hfalse : IsFalse line
    · rw [if_pos hfalse, List.takeWhile_cons_of_neg (by simp [hfalse])]
      rfl
    · rw [if_neg hfalse, List.takeWhile_cons_of_pos (by simp [hfalse]), List.filter_cons]
      rcases hremark : isRemark line with - | -
      · rcases hcaptures : (word.captures line).isSome with - | -
        · simpa using ih
        · simp only [Bool.not_false, Bool.and_self, if_true, Bool.false_eq_true, if_false,
            List.mapM_cons, ih]
          rfl
      · simpa using ih

/-! ## Lines of a format -/

/-- What a group accepts does not begin a comment. -/
def NoComment (accepts : CString → Bool) : Prop :=
  ∀ w, accepts w = true → w ≠ [] ∧ w.head? ≠ some 35

theorem noComment_isRun {accepts : UInt8 → Bool} (h : accepts 35 = false) :
    NoComment (isRun accepts) := by
  intro w hw
  rcases w with - | ⟨c, w⟩
  · cases hw
  · simp only [isRun, List.isEmpty_cons, Bool.not_false, Bool.true_and, List.all_cons,
      Bool.and_eq_true] at hw
    refine ⟨List.cons_ne_nil c w, fun hc => ?_⟩
    obtain rfl := Option.some.inj hc
    rw [h] at hw
    exact Bool.false_ne_true hw.1

theorem noComment_isLevelName : NoComment isLevelName := by
  intro w hw
  simp only [isLevelName, Bool.or_eq_true, decide_eq_true_eq] at hw
  rcases hw with (rfl | rfl) | rfl <;> decide

theorem noComment_groups (word : SysmonWord) : ∀ group ∈ word.groups, NoComment group.2 := by
  have hmax : NoComment fun w => isRun isDigit w || w = ascii "inf" := by
    intro w hw
    rcases Bool.or_eq_true_iff.mp hw with hw | hw
    · exact noComment_isRun (by decide) w hw
    · obtain rfl := of_decide_eq_true hw
      decide
  cases word with
  | uptime =>
    simp only [SysmonWord.groups, List.forall_mem_cons]
    exact ⟨noComment_isRun (by decide), noComment_isRun (by decide), noComment_isRun (by decide),
      noComment_isRun (by decide), noComment_isRun (by decide), noComment_isLevelName,
      fun _ h => nomatch h⟩
  | procs =>
    simp only [SysmonWord.groups, List.forall_mem_cons]
    exact ⟨noComment_isRun (by decide), noComment_isRun (by decide), hmax,
      noComment_isRun (by decide), noComment_isRun (by decide), noComment_isRun (by decide),
      noComment_isLevelName, fun _ h => nomatch h⟩
  | disk =>
    simp only [SysmonWord.groups, List.forall_mem_cons]
    exact ⟨noComment_isRun (by decide), noComment_isRun (by decide), noComment_isRun (by decide),
      noComment_isRun (by decide), noComment_isRun (by decide), noComment_isLevelName,
      fun _ h => nomatch h⟩

/-- **What the groups take** are the first words. -/
theorem words_takeGroups {groups : List CaptureGroup}
    (hgroups : ∀ group ∈ groups, NoComment group.2) {s rest : CString}
    {captures : List (String × CString)} (h : takeGroups groups s = some (captures, rest)) :
    ∃ ws, words isspace s = ws ++ words isspace rest ∧ ws.length = groups.length ∧
      ∀ w ∈ ws, w.head? ≠ some 35 := by
  induction groups generalizing s captures with
  | nil =>
    obtain ⟨-, rfl⟩ := Prod.mk.inj (Option.some.inj h)
    exact ⟨[], rfl, rfl, fun _ h => nomatch h⟩
  | cons group groups ih =>
    obtain ⟨hgroup, hgroups⟩ := List.forall_mem_cons.mp hgroups
    obtain ⟨⟨capture, s'⟩, htake, h⟩ := Option.bind_eq_some_iff.mp h
    obtain ⟨⟨captures', rest'⟩, hmore, h⟩ := Option.bind_eq_some_iff.mp h
    obtain ⟨-, rfl⟩ := Prod.mk.inj (Option.some.inj h)
    obtain ⟨ws, hws, hlength, hcomment⟩ := ih hgroups hmore
    rw [CaptureGroup.take] at htake
    split_ifs at htake with hcond
    obtain ⟨-, rfl⟩ := Prod.mk.inj (Option.some.inj htake)
    obtain ⟨hne, hhead⟩ := hgroup _ (Bool.and_eq_true_iff.mp hcond).1
    refine ⟨(s.takeWhile fun c => !isspace c) :: ws, ?_, by simp [hlength],
      List.forall_mem_cons.mpr ⟨hhead, hcomment⟩⟩
    rw [List.cons_append, ← hws, words_dropWhile]
    rcases s with - | ⟨c, s⟩
    · exact absurd rfl hne
    · have hc : isspace c = false := by
        by_contra hc
        rw [Bool.not_eq_false] at hc
        exact hne (List.takeWhile_cons_of_neg (by simp [hc]))
      rw [words_cons_of_not_blank hc, List.takeWhile_cons_of_pos (by simp [hc]),
        List.dropWhile_cons_of_pos (by simp [hc])]

/-- **A line of a format** has some words that do not begin a comment. -/
theorem words_of_captures (h : (word.captures line).isSome) :
    ∃ first second third ws, words isspace line = first :: second :: third :: ws ∧
      first.head? ≠ some 35 ∧ second.head? ≠ some 35 ∧ third.head? ≠ some 35 := by
  obtain ⟨⟨captures, hosts⟩, h⟩ := Option.isSome_iff_exists.mp h
  obtain ⟨⟨captures, rest⟩, htake, -⟩ := Option.bind_eq_some_iff.mp h
  obtain ⟨ws, hws, hlength, hcomment⟩ := words_takeGroups (noComment_groups word) htake
  rw [words_dropWhile] at hws
  have hthree : 3 ≤ ws.length := by
    rw [hlength]
    cases word <;> decide
  obtain ⟨first, ws, rfl⟩ := List.exists_cons_of_length_pos (show 0 < ws.length by omega)
  rw [List.length_cons] at hthree
  obtain ⟨second, ws, rfl⟩ := List.exists_cons_of_length_pos (show 0 < ws.length by omega)
  rw [List.length_cons] at hthree
  obtain ⟨third, ws, rfl⟩ := List.exists_cons_of_length_pos (show 0 < ws.length by omega)
  simp only [List.forall_mem_cons] at hcomment
  exact ⟨first, second, third, ws ++ words isspace rest, hws, hcomment.1, hcomment.2.1,
    hcomment.2.2.1⟩

/-! ## How a line begins -/

variable {first : CString} {ws : List CString} {name : CString}

theorem begins_iff : begins name line = true ↔ name <+: line.dropWhile isspace := by
  rw [begins, behind, ← List.isPrefixOf_iff_prefix]
  split_ifs with h
  · simp [h]
  · simp [h]

/-- **A line begins as its first word does.** -/
theorem begins_iff_of_words (h : words isspace line = first :: ws)
    (hname : ∀ c ∈ name, isspace c = false) : begins name line = true ↔ name <+: first := by
  rw [begins_iff, (words_eq_cons h).1]
  constructor
  · rintro ⟨t, ht⟩
    rw [← ht, List.takeWhile_append_of_pos fun c hc => by rw [hname c hc]; rfl]
    exact ⟨_, rfl⟩
  · intro hprefix
    exact hprefix.trans (List.takeWhile_prefix _)

theorem isspace_of_mem_name : ∀ c ∈ word.name, isspace c = false := by
  cases word <;> decide +kernel

/-- A remark has no words, or begins a comment. -/
theorem words_of_isRemark (h : isRemark line = true) :
    ∀ first ∈ (words isspace line).head?, first.head? = some 35 := by
  intro first hfirst
  obtain ⟨ws, hwords⟩ := List.head?_eq_some_iff.mp hfirst
  rcases Bool.or_eq_true_iff.mp h with hcomment | hblank
  · obtain ⟨t, rfl⟩ := (begins_iff_of_words hwords (by decide +kernel)).mp hcomment
    rfl
  · rw [words_eq_nil_iff.mpr (List.isEmpty_iff.mp hblank)] at hwords
    cases hwords

/-- The words of a line that ends a section for `getConfigSection`. -/
theorem words_of_endEvents (h : begins (ascii "end events") line = true) :
    ∃ second ws, words isspace line = ascii "end" :: second :: ws ∧ ascii "events" <+: second := by
  obtain ⟨t, ht⟩ := begins_iff.mp h
  have hspelled : ascii "end events" ++ t
      = 101 :: 110 :: 100 :: 32 :: 101 :: 118 :: 101 :: 110 :: 116 :: 115 :: t := rfl
  refine ⟨ascii "events" ++ t.takeWhile (fun c => !isspace c),
    words isspace (t.dropWhile fun c => !isspace c), ?_, ⟨_, rfl⟩⟩
  rw [← words_dropWhile, ← ht, hspelled, words_cons_of_not_blank (by decide)]
  have hfirst : (110 :: 100 :: 32 :: 101 :: 118 :: 101 :: 110 :: 116 :: 115 :: t).takeWhile
      (fun c => !isspace c) = [110, 100] := rfl
  have hrest : (110 :: 100 :: 32 :: 101 :: 118 :: 101 :: 110 :: 116 :: 115 :: t).dropWhile
      (fun c => !isspace c) = 32 :: 101 :: 118 :: 101 :: 110 :: 116 :: 115 :: t := rfl
  rw [hfirst, hrest, words_cons_of_blank (by decide), words_cons_of_not_blank (by decide)]
  rfl

/-- A line of a format is no remark. -/
theorem isRemark_of_captures (h : (word.captures line).isSome) : isRemark line = false := by
  obtain ⟨first, second, third, ws, hwords, hfirst, -⟩ := words_of_captures h
  by_contra hremark
  rw [Bool.not_eq_false] at hremark
  exact hfirst (words_of_isRemark hremark first (by rw [hwords]; rfl))

/-! ## What is taken -/

/-- A line that belongs to the section with this word, if it is read. -/
def Belongs (word : SysmonWord) (line : CString) : Bool :=
  !begins word.name line && (word.captures line).isSome

/-- **The lines of the format**, if no line ends the section. -/
theorem sectionLoop_true (hend : ∀ line ∈ raws, begins (ascii "end events") line = false) :
    (sectionLoop word.name true raws).filter (fun line => (word.captures line).isSome)
      = raws.filter (Belongs word) := by
  induction raws with
  | nil => rfl
  | cons line raws ih =>
    obtain ⟨hline, hraws⟩ := List.forall_mem_cons.mp hend
    rw [sectionLoop, hline, List.filter_cons, ← ih hraws]
    rcases hbegins : begins word.name line with - | -
    · rcases hcaptures : (word.captures line).isSome with - | -
      · rcases isRemark line with - | - <;> simp [Belongs, hbegins, hcaptures]
      · simp [Belongs, hbegins, hcaptures, isRemark_of_captures hcaptures]
    · simp [Belongs, hbegins]

/-- The section begins with the first line that begins with its word. -/
theorem sectionLoop_false (hend : ∀ line ∈ raws, begins (ascii "end events") line = false) :
    (sectionLoop word.name false raws).filter (fun line => (word.captures line).isSome)
      = (raws.dropWhile fun line => !begins word.name line).filter (Belongs word) := by
  induction raws with
  | nil => rfl
  | cons line raws ih =>
    obtain ⟨hline, hraws⟩ := List.forall_mem_cons.mp hend
    rw [sectionLoop, hline]
    rcases hbegins : begins word.name line with - | -
    · rw [List.dropWhile_cons_of_pos (by simp [hbegins]), ← ih hraws]
      rfl
    · rw [List.dropWhile_cons_of_neg (by simp [hbegins]), if_pos rfl, sectionLoop_true hraws,
        List.filter_cons_of_neg (by simp [Belongs, hbegins])]

/-- What is read neither begins nor ends a section, and is not blank. -/
theorem of_mem_sectionLoop {read : Bool} (h : line ∈ sectionLoop name read raws) :
    begins name line = false ∧ begins (ascii "end events") line = false ∧
      isRemark line = false ∧ line ∈ raws := by
  induction raws generalizing read with
  | nil => cases h
  | cons line' raws ih =>
    have hmore {read : Bool} (h : line ∈ sectionLoop name read raws) :
        begins name line = false ∧ begins (ascii "end events") line = false ∧
          isRemark line = false ∧ line ∈ line' :: raws :=
      have ⟨hbegins, hend, hremark, hmem⟩ := ih h
      ⟨hbegins, hend, hremark, List.mem_cons_of_mem line' hmem⟩
    rw [sectionLoop] at h
    split_ifs at h with hbegins hend hread hremark
    · exact hmore h
    · exact hmore h
    · exact hmore h
    · rcases List.mem_cons.mp h with rfl | h
      · rw [Bool.not_eq_true] at hbegins hend hremark
        exact ⟨hbegins, hend, hremark, List.mem_cons_self⟩
      · exact hmore h
    · exact hmore h

/-! ## Texts with three sections -/

/-- A section of the text. -/
structure MonitorSection where
  /-- Its word. -/
  word : SysmonWord
  /-- The line that begins it. -/
  header : CString
  /-- The lines of the section. -/
  lines : List CString
  /-- The line that ends it. -/
  closing : CString
  /-- It begins with the word. -/
  header_eq : ∃ remark : Remark, words isspace header = word.name :: remark.words
  /-- The lines have the format of the section, or are remarks. -/
  lines_eq : ∀ line ∈ lines, isRemark line = true ∨ (word.captures line).isSome = true
  /-- It ends with `end` and the word. -/
  closing_eq : ∃ remark : Remark,
    words isspace closing = ascii "end" :: word.name :: remark.words

namespace MonitorSection

/-- The lines of the text that are written in the section. -/
def text (s : MonitorSection) : List CString := s.header :: (s.lines ++ [s.closing])

/-- The entries. -/
def entries (s : MonitorSection) : List CString :=
  s.lines.filter fun line => (s.word.captures line).isSome

end MonitorSection

/-- A text with the three sections, in any order. -/
structure MonitorText where
  /-- The sections. -/
  sections : List MonitorSection
  /-- Each of them is there once. -/
  perm : (sections.map MonitorSection.word).Perm [.uptime, .procs, .disk]

namespace MonitorText

/-- The lines. -/
def text (t : MonitorText) : List CString := t.sections.flatMap MonitorSection.text

/-- The entries that are written in the section with a word. -/
def entriesOf (t : MonitorText) (word : SysmonWord) : List CString :=
  (t.sections.filter (·.word = word)).flatMap MonitorSection.entries

/-- The sections are kept apart: the entries of each are taken for it, and no other lines, and
that is what is in the tables. -/
def Isolates (t : MonitorText) : Prop :=
  ∃ tables, parseMonitor t.text = some tables ∧ ∀ word,
    linesTaken word t.text = t.entriesOf word ∧
      (t.entriesOf word).mapM (entryOf word) = some (tables.of word)

/-- The entries whose names and formats do not matter. -/
structure Unmixed (t : MonitorText) : Prop where
  /-- No entry begins with the word of its section, or reads `end events`. -/
  plain : ∀ s ∈ t.sections, ∀ line ∈ s.entries,
    begins s.word.name line = false ∧ begins (ascii "end events") line = false
  /-- An entry of another section has the format of this one only if it begins with its word, or
  stands in front of all lines that do. -/
  apart : ∀ front own back, t.sections = front ++ own :: back →
    ∀ line ∈ ((front.flatMap MonitorSection.text).dropWhile fun line =>
        !begins own.word.name line) ++ back.flatMap MonitorSection.text,
      (own.word.captures line).isSome → begins own.word.name line = true
  /-- Each entry has hosts. -/
  hosts : ∀ s ∈ t.sections, ∀ line ∈ s.entries, ∀ captures ∈ s.word.captures line,
    HasHosts captures.2

end MonitorText

/-! ## Lines of the text -/

namespace MonitorSection

theorem header_facts (s : MonitorSection) (word : SysmonWord) :
    (word.captures s.header).isSome = false ∧
      (begins word.name s.header = true ↔ word = s.word) ∧
      begins (ascii "end events") s.header = false ∧ s.header ≠ ascii "0" := by
  obtain ⟨remark, hwords⟩ := s.header_eq
  refine ⟨?_, ?_, ?_, ?_⟩
  · by_contra hcaptures
    rw [Bool.not_eq_false] at hcaptures
    obtain ⟨first, second, third, ws, hthree, -, hsecond, -⟩ := words_of_captures hcaptures
    rw [hthree] at hwords
    have hhead := remark.isComment second (by rw [← (List.cons.inj hwords).2]; rfl)
    exact hsecond hhead
  · rw [begins_iff_of_words hwords isspace_of_mem_name]
    rcases s.word with - | - | - <;> cases word <;> decide
  · by_contra hend
    rw [Bool.not_eq_false] at hend
    obtain ⟨second, ws, htwo, -⟩ := words_of_endEvents hend
    rw [htwo] at hwords
    have hname := (List.cons.inj hwords).1
    rcases hword : s.word with - | - | - <;> rw [hword] at hname <;>
      exact absurd hname (by decide)
  · intro hzero
    rw [hzero] at hwords
    have hname := (List.cons.inj hwords).1
    rcases hword : s.word with - | - | - <;> rw [hword] at hname <;>
      exact absurd hname (by decide)

theorem closing_facts (s : MonitorSection) (word : SysmonWord) :
    (word.captures s.closing).isSome = false ∧ begins word.name s.closing = false ∧
      begins (ascii "end events") s.closing = false ∧ s.closing ≠ ascii "0" := by
  obtain ⟨remark, hwords⟩ := s.closing_eq
  refine ⟨?_, ?_, ?_, ?_⟩
  · by_contra hcaptures
    rw [Bool.not_eq_false] at hcaptures
    obtain ⟨first, second, third, ws, hthree, -, -, hthird⟩ := words_of_captures hcaptures
    rw [hthree] at hwords
    obtain ⟨-, hrest⟩ := List.cons.inj hwords
    exact hthird (remark.isComment third (by rw [← (List.cons.inj hrest).2]; rfl))
  · rw [← Bool.not_eq_true, begins_iff_of_words hwords isspace_of_mem_name]
    cases word <;> decide
  · by_contra hend
    rw [Bool.not_eq_false] at hend
    obtain ⟨second, ws, htwo, hevents⟩ := words_of_endEvents hend
    rw [htwo] at hwords
    obtain ⟨rfl, -⟩ := List.cons.inj (List.cons.inj hwords).2
    rcases hword : s.word with - | - | - <;> rw [hword] at hevents <;>
      exact absurd hevents (by decide)
  · intro hzero
    rw [hzero] at hwords
    exact absurd (List.cons.inj hwords).1 (by decide)

/-- A line of a section. -/
theorem cases_of_mem_text {s : MonitorSection} (h : line ∈ s.text) :
    line = s.header ∨ line = s.closing ∨ isRemark line = true ∨ line ∈ s.entries := by
  rcases List.mem_cons.mp h with rfl | h
  · exact .inl rfl
  · rcases List.mem_append.mp h with h | h
    · rcases s.lines_eq line h with hremark | hcaptures
      · exact .inr (.inr (.inl hremark))
      · exact .inr (.inr (.inr (List.mem_filter.mpr ⟨h, hcaptures⟩)))
    · exact .inr (.inl (List.mem_singleton.mp h))

/-- No line is false. -/
theorem ne_zero_of_mem_text {s : MonitorSection} (h : line ∈ s.text) : line ≠ ascii "0" := by
  rcases cases_of_mem_text h with rfl | rfl | hremark | hentry
  · exact (s.header_facts .uptime).2.2.2
  · exact (s.closing_facts .uptime).2.2.2
  · rintro rfl
    exact absurd hremark (by decide)
  · rintro rfl
    obtain ⟨first, second, third, ws, hwords, -⟩ := words_of_captures (List.mem_filter.mp hentry).2
    have hzero : words isspace (ascii "0") = [ascii "0"] := by decide
    rw [hzero] at hwords
    cases hwords

/-- A line that ends the section for `getConfigSection` is an entry. -/
theorem mem_entries_of_endEvents {s : MonitorSection} (h : line ∈ s.text)
    (hend : begins (ascii "end events") line = true) : line ∈ s.entries := by
  rcases cases_of_mem_text h with rfl | rfl | hremark | hentry
  · exact absurd hend (by rw [(s.header_facts .uptime).2.2.1]; exact Bool.false_ne_true)
  · exact absurd hend (by rw [(s.closing_facts .uptime).2.2.1]; exact Bool.false_ne_true)
  · obtain ⟨second, ws, hwords, -⟩ := words_of_endEvents hend
    have hhead := words_of_isRemark hremark (ascii "end") (by rw [hwords]; rfl)
    exact absurd hhead (by decide)
  · exact hentry

/-- The entries are read in their own section, if none begins with its word. -/
theorem filter_belongs (s : MonitorSection)
    (hplain : ∀ line ∈ s.entries, begins s.word.name line = false) :
    s.text.filter (Belongs s.word) = s.entries := by
  have hheader : Belongs s.word s.header = false := by
    rw [Belongs, (s.header_facts s.word).1, Bool.and_false]
  have hclosing : Belongs s.word s.closing = false := by
    rw [Belongs, (s.closing_facts s.word).1, Bool.and_false]
  rw [text, List.filter_cons_of_neg (by simp [hheader]), List.filter_append,
    List.filter_cons_of_neg (by simp [hclosing]), List.filter_nil, List.append_nil, entries]
  refine List.filter_congr fun line hline => ?_
  rcases hcaptures : (s.word.captures line).isSome with - | -
  · rw [Belongs, hcaptures, Bool.and_false]
  · rw [Belongs, hcaptures, hplain line (List.mem_filter.mpr ⟨hline, hcaptures⟩)]
    rfl

end MonitorSection

/-! ## The sections in the text -/

namespace MonitorText

variable {t : MonitorText} {front back : List MonitorSection} {own : MonitorSection}

/-- There is one section for each word. -/
theorem exists_section (t : MonitorText) (word : SysmonWord) :
    ∃ front own back, t.sections = front ++ own :: back ∧ own.word = word := by
  have hmem : word ∈ t.sections.map MonitorSection.word := by
    rw [t.perm.mem_iff]
    cases word <;> decide
  obtain ⟨own, hown, hword⟩ := List.mem_map.mp hmem
  obtain ⟨front, back, hsections⟩ := List.append_of_mem hown
  exact ⟨front, own, back, hsections, hword⟩

theorem entriesOf_eq (h : t.sections = front ++ own :: back) :
    t.entriesOf own.word = own.entries := by
  have hnodup : (t.sections.map MonitorSection.word).Nodup := t.perm.nodup_iff.mpr (by decide)
  rw [h, List.map_append, List.map_cons] at hnodup
  obtain ⟨hfront, hback⟩ := List.nodup_middle.mp hnodup |> List.nodup_cons.mp
  have hother : ∀ s ∈ front ++ back, ¬ (s.word = own.word) := fun s hs heq =>
    hfront (by rw [← List.map_append, ← heq]; exact List.mem_map_of_mem hs)
  have hfilter : ∀ l : List MonitorSection, (∀ s ∈ l, s ∈ front ++ back) →
      l.filter (·.word = own.word) = [] := fun l hl =>
    List.filter_eq_nil_iff.mpr fun s hs => by simp [hother s (hl s hs)]
  rw [entriesOf, h, List.filter_append, List.filter_cons_of_pos (by simp),
    hfilter front fun s hs => List.mem_append_left back hs,
    hfilter back fun s hs => List.mem_append_right front hs]
  simp

/-- No line ends the parsing of what is read. -/
theorem linesTaken_eq (t : MonitorText) (word : SysmonWord) : linesTaken word t.text
    = (sectionLoop word.name false t.text).filter fun line => (word.captures line).isSome := by
  rw [linesTaken, getConfigSection, List.takeWhile_eq_self_iff.mpr]
  intro line hline
  obtain ⟨-, -, hremark, hmem⟩ := of_mem_sectionLoop hline
  obtain ⟨s, -, hmem⟩ := List.mem_flatMap.mp hmem
  have hfalse : ¬ IsFalse line := by
    rintro (rfl | rfl)
    · exact absurd hremark (by decide)
    · exact MonitorSection.ne_zero_of_mem_text hmem rfl
  simp [hfalse]

/-- **What is taken for the entries of a section**: those in it, those of the sections behind it,
and of the sections in front of it from the first line that begins with its word. -/
theorem linesTaken_text (hplain : ∀ s ∈ t.sections, ∀ line ∈ s.entries,
      begins s.word.name line = false ∧ begins (ascii "end events") line = false)
    (h : t.sections = front ++ own :: back) :
    linesTaken own.word t.text
      = ((front.flatMap MonitorSection.text).dropWhile fun line =>
          !begins own.word.name line).filter (Belongs own.word) ++
        (own.entries ++ (back.flatMap MonitorSection.text).filter (Belongs own.word)) := by
  have hown : own ∈ t.sections := by rw [h]; simp
  have hend : ∀ line ∈ t.text, begins (ascii "end events") line = false := by
    intro line hline
    obtain ⟨s, hs, hline⟩ := List.mem_flatMap.mp hline
    by_contra hend
    rw [Bool.not_eq_false] at hend
    have hentry := MonitorSection.mem_entries_of_endEvents hline hend
    rw [(hplain s hs line hentry).2] at hend
    cases hend
  have hheader : begins own.word.name own.header = true := (own.header_facts own.word).2.1.mpr rfl
  have hdrop : (own.text ++ back.flatMap MonitorSection.text).dropWhile
      (fun line => !begins own.word.name line) = own.text ++ back.flatMap MonitorSection.text := by
    rw [MonitorSection.text, List.cons_append, List.dropWhile_cons_of_neg (by simp [hheader])]
  have hsplit : t.text.dropWhile (fun line => !begins own.word.name line)
      = (front.flatMap MonitorSection.text).dropWhile (fun line => !begins own.word.name line) ++
        (own.text ++ back.flatMap MonitorSection.text) := by
    rw [text, h, List.flatMap_append, List.flatMap_cons, List.dropWhile_append, hdrop]
    split_ifs with hempty
    · rw [List.isEmpty_iff.mp hempty, List.nil_append]
    · rfl
  rw [linesTaken_eq, sectionLoop_false hend, hsplit, List.filter_append, List.filter_append,
    own.filter_belongs fun line hline => (hplain own hown line hline).1]

end MonitorText

/-! ## When the sections are kept apart -/

/-- What a section makes of the text. -/
theorem parseEntries_getConfigSection (word : SysmonWord) (text : List CString) :
    parseEntries word (getConfigSection word.name text)
      = (linesTaken word text).mapM (entryOf word) := by
  rw [parseEntries_eq, linesTaken]
  congr 1
  refine List.filter_congr fun line _ => ?_
  rcases hcaptures : (word.captures line).isSome with - | -
  · rfl
  · rw [isRemark_of_captures hcaptures]
    rfl

/-- **The tables.** -/
theorem parseMonitor_eq_some_iff {text : List CString} {tables : MonitorTables} :
    parseMonitor text = some tables ↔
      ∀ word, (linesTaken word text).mapM (entryOf word) = some (tables.of word) := by
  simp only [← parseEntries_getConfigSection]
  constructor
  · intro h
    obtain ⟨UPTIME, huptime, h⟩ := Option.bind_eq_some_iff.mp h
    obtain ⟨PROC, hprocs, h⟩ := Option.bind_eq_some_iff.mp h
    obtain ⟨DISK, hdisk, h⟩ := Option.bind_eq_some_iff.mp h
    obtain rfl := Option.some.inj h
    intro word
    cases word with
    | uptime => exact huptime
    | procs => exact hprocs
    | disk => exact hdisk
  · intro h
    exact Option.bind_eq_some_iff.mpr ⟨_, h .uptime, Option.bind_eq_some_iff.mpr ⟨_, h .procs,
      Option.bind_eq_some_iff.mpr ⟨_, h .disk, rfl⟩⟩⟩

theorem isSome_entryOf (h : (word.captures line).isSome) :
    (entryOf word line).isSome ↔ ∀ captures ∈ word.captures line, HasHosts captures.2 := by
  obtain ⟨captures, hcaptures⟩ := Option.isSome_iff_exists.mp h
  rw [entryOf, hcaptures]
  simp only [Option.mem_some_iff, forall_eq', ← isSome_addHosts]
  show (Option.bind (addHosts captures.2) _).isSome ↔ _
  cases addHosts captures.2 <;> simp

namespace MonitorText

variable {t : MonitorText}

theorem Isolates.unmixed (h : t.Isolates) : t.Unmixed := by
  obtain ⟨tables, -, hwords⟩ := h
  have hplain : ∀ s ∈ t.sections, ∀ line ∈ s.entries,
      begins s.word.name line = false ∧ begins (ascii "end events") line = false := by
    intro s hs line hline
    obtain ⟨front, back, hsections⟩ := List.append_of_mem hs
    rw [← entriesOf_eq hsections, ← (hwords s.word).1, linesTaken_eq] at hline
    obtain ⟨hbegins, hend, -⟩ := of_mem_sectionLoop (List.mem_filter.mp hline).1
    exact ⟨hbegins, hend⟩
  refine ⟨hplain, fun front own back hsections line hline hcaptures => ?_,
    fun s hs line hline => ?_⟩
  · have htaken := (hwords own.word).1
    rw [entriesOf_eq hsections, linesTaken_text hplain hsections] at htaken
    -- nothing fits in besides the entries of the section
    have hlength := congrArg List.length htaken
    rw [List.length_append, List.length_append] at hlength
    by_contra hbegins
    rw [Bool.not_eq_true] at hbegins
    have hbelongs : Belongs own.word line = true := by rw [Belongs, hbegins, hcaptures]; rfl
    rcases List.mem_append.mp hline with hfront | hback
    · have hpos := List.length_pos_of_mem (List.mem_filter.mpr ⟨hfront, hbelongs⟩)
      omega
    · have hpos := List.length_pos_of_mem (List.mem_filter.mpr ⟨hback, hbelongs⟩)
      omega
  · obtain ⟨front, back, hsections⟩ := List.append_of_mem hs
    have hmap := (hwords s.word).2
    rw [entriesOf_eq hsections] at hmap
    exact (isSome_entryOf (List.mem_filter.mp hline).2).mp
      (isSome_mapM.mp (by rw [hmap]; rfl) line hline)

theorem Unmixed.isolates (h : t.Unmixed) : t.Isolates := by
  have htaken : ∀ word, linesTaken word t.text = t.entriesOf word := by
    intro word
    obtain ⟨front, own, back, hsections, rfl⟩ := t.exists_section word
    have hnone : ∀ l : List CString, (∀ line ∈ l, (own.word.captures line).isSome →
        begins own.word.name line = true) → l.filter (Belongs own.word) = [] := by
      intro l hl
      refine List.filter_eq_nil_iff.mpr fun line hline hbelongs => ?_
      obtain ⟨hbegins, hcaptures⟩ := Bool.and_eq_true_iff.mp hbelongs
      rw [hl line hline hcaptures] at hbegins
      cases hbegins
    have hapart := h.apart front own back hsections
    rw [linesTaken_text h.plain hsections, entriesOf_eq hsections,
      hnone _ fun line hline => hapart line (List.mem_append_left _ hline),
      hnone _ fun line hline => hapart line (List.mem_append_right _ hline), List.nil_append,
      List.append_nil]
  have hentries : ∀ word, ((t.entriesOf word).mapM (entryOf word)).isSome := by
    intro word
    obtain ⟨front, own, back, hsections, rfl⟩ := t.exists_section word
    rw [entriesOf_eq hsections, isSome_mapM]
    exact fun line hline => (isSome_entryOf (List.mem_filter.mp hline).2).mpr
      (h.hosts own (by rw [hsections]; simp) line hline)
  obtain ⟨UPTIME, huptime⟩ := Option.isSome_iff_exists.mp (hentries .uptime)
  obtain ⟨PROC, hprocs⟩ := Option.isSome_iff_exists.mp (hentries .procs)
  obtain ⟨DISK, hdisk⟩ := Option.isSome_iff_exists.mp (hentries .disk)
  let tables : MonitorTables := ⟨UPTIME, PROC, DISK⟩
  have htables : ∀ word, (t.entriesOf word).mapM (entryOf word) = some (tables.of word) := by
    intro word
    cases word with
    | uptime => exact huptime
    | procs => exact hprocs
    | disk => exact hdisk
  refine ⟨tables, parseMonitor_eq_some_iff.mpr fun word => ?_, fun word =>
    ⟨htaken word, htables word⟩⟩
  rw [htaken, htables]

/-- **When the sections are kept apart.** -/
theorem isolates_iff (t : MonitorText) : t.Isolates ↔ t.Unmixed :=
  ⟨Isolates.unmixed, Unmixed.isolates⟩

/-- A section with one entry. -/
def oneEntry (word : SysmonWord) (line : CString) (header closing : CString)
    (hheader : words isspace header = [word.name]) (hline : (word.captures line).isSome = true)
    (hclosing : words isspace closing = [ascii "end", word.name]) : MonitorSection where
  word := word
  header := header
  lines := [line]
  closing := closing
  header_eq := ⟨⟨[], fun _ h => nomatch h⟩, hheader⟩
  lines_eq := List.forall_mem_singleton.mpr (.inr hline)
  closing_eq := ⟨⟨[], fun _ h => nomatch h⟩, hclosing⟩

/-- A text whose disk entry has an event without a hyphen. -/
def usedDisk : MonitorText where
  sections := [
    oneEntry .uptime (ascii "\tmaxload    loadavg  2.5    128       0             crit  localhost")
      (ascii "    uptime") (ascii "    end uptime") (by decide +kernel) (by decide +kernel)
      (by decide +kernel),
    oneEntry .procs (ascii "        crond    bad-proc   1     1      128  0  crit  localhost")
      (ascii "    procs") (ascii "    end procs") (by decide +kernel) (by decide +kernel)
      (by decide +kernel),
    oneEntry .disk (ascii "        hda     used   90   128        0         crit  localhost")
      (ascii "    disk") (ascii "    end disk") (by decide +kernel) (by decide +kernel)
      (by decide +kernel)]
  perm := .rfl

/-- Its entry is taken for one of `uptime`. -/
theorem not_isolates_usedDisk : ¬ usedDisk.Isolates := by
  rintro ⟨tables, -, hwords⟩
  exact absurd (hwords .uptime).1 (by decide +kernel)

end MonitorText

end Peep
