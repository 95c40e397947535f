import Peep.Server.ConfigRun

/-!
# The format of the configuration file

The sections of a configuration file as the documentation has them, and what they register. A line
of the file is described by its words. Behind what belongs to the format there may be a comment, and
between the lines there may be others that have nothing but a comment, or are blank.

The sound path of events and states is the one of the general section, wherever that is.

## Choices

What is registered is written as a program too: the sounds of an event must be there, the version
must be accepted, and the channels of states may run out. These are not questions of the format.

The lines of a section that are independent of each other may come in any order, and a section for a
client has any lines but its end. Keywords are written in lower case.
-/

namespace Peep

open Bytes Decimal Program Text

variable {n k : ℕ}

/-! ## Lines -/

/-- What may stand behind the words of a line: nothing, or a comment. -/
structure Remark where
  /-- Its words. -/
  words : List CString
  /-- It begins with `#`. -/
  isComment : ∀ w ∈ words.head?, w.head? = some 35

/-- A number, as far as it matters for the format: it begins with a digit, a sign or a point. -/
def isNumeric (w : CString) : Bool :=
  w.head?.any fun c => (48 ≤ c && c ≤ 57) || c = 43 || c = 45 || c = 46

/-- A number. -/
structure NumericWord where
  /-- The word. -/
  text : CString
  /-- It is a number. -/
  isNumeric : isNumeric text = true

/-- A line with a keyword, a word and a remark. -/
def keyLine (keyword : String) (word : CString) (r : Remark) : List CString :=
  ascii keyword :: word :: r.words

/-- The end of a section. The name of a class may stand behind it, and a remark. -/
def endLine (keyword : String) (more : List CString) : List CString :=
  ascii "end" :: ascii keyword :: more

/-! ## The general section -/

/-- A line of the general section. -/
inductive GeneralLine
  /-- `version`. -/
  | version (number : NumericWord) (r : Remark)
  /-- `sound-path`. -/
  | soundPath (path : CString) (r : Remark)
  /-- A comment. -/
  | remark (r : Remark)

/-- Its words. -/
def GeneralLine.words : GeneralLine → List CString
  | .version number r => keyLine "version" number.text r
  | .soundPath path r => keyLine "sound-path" path r
  | .remark r => r.words

/-- The sound path that a line declares. -/
def GeneralLine.path? : GeneralLine → Option CString
  | .soundPath path _ => some path
  | _ => none

/-- The general section. -/
structure GeneralSection where
  /-- What stands behind `general`. -/
  opening : Remark
  /-- The lines. -/
  lines : List GeneralLine
  /-- What stands behind `end general`. -/
  closing : List CString
  /-- The sound path. -/
  path : CString
  /-- It is declared once. -/
  paths_eq : lines.filterMap GeneralLine.path? = [path]

/-- The words of its lines. -/
def GeneralSection.words (g : GeneralSection) : List (List CString) :=
  (ascii "general" :: g.opening.words) :: (g.lines.map GeneralLine.words ++
    [endLine "general" g.closing])

/-- What a line sets, and whether its version is accepted. -/
def GeneralLine.register (sys : System) : GeneralLine → Program (Loader n k) Bool
  | .version number _ => do
    let (accepted, _) ← ofOption (acceptsVersion sys number.text)
    pure accepted
  | .soundPath path _ => do
    change fun s => { s with soundPath := some (path ++ [47]) }
    pure true
  | .remark _ => pure true

/-- What the lines set, up to a version that is not accepted. -/
def registerGeneral (sys : System) : List GeneralLine → Program (Loader n k) Bool
  | [] => pure true
  | l :: rest => do
    let accepted ← l.register sys
    if accepted then registerGeneral sys rest else pure false

/-! ## Classes -/

/-- A server that a class names. -/
structure ServerEntry where
  /-- The host. -/
  host : CString
  /-- It has no colon. -/
  no_colon : 58 ∉ host
  /-- The port. -/
  port : CString

/-- The word of a server. -/
def ServerEntry.word (e : ServerEntry) : CString := e.host ++ 58 :: e.port

/-- A line of a class. -/
inductive ClassLine
  /-- `port`. -/
  | ports (ports : List NumericWord) (r : Remark)
  /-- `server`. -/
  | servers (servers : List ServerEntry) (r : Remark)
  /-- A comment. -/
  | remark (r : Remark)

/-- Its words. -/
def ClassLine.words : ClassLine → List CString
  | .ports ps r => ascii "port" :: (ps.map NumericWord.text ++ r.words)
  | .servers es r => ascii "server" :: (es.map ServerEntry.word ++ r.words)
  | .remark r => r.words

/-- The ports of a line. -/
def ClassLine.portList : ClassLine → List Int32
  | .ports ps _ => ps.map fun p => atoi p.text
  | _ => []

/-- The servers of a line. -/
def ClassLine.serverList : ClassLine → List ServerEntry
  | .servers es _ => es
  | _ => []

/-- A class. -/
structure ClassSection where
  /-- The name. -/
  name : CString
  /-- What stands behind it. -/
  opening : Remark
  /-- The lines. -/
  lines : List ClassLine
  /-- What stands behind `end class`. -/
  closing : List CString

/-- The words of its lines. -/
def ClassSection.words (c : ClassSection) : List (List CString) :=
  keyLine "class" c.name c.opening :: (c.lines.map ClassLine.words ++ [endLine "class" c.closing])

/-- The server itself, as the class names it. -/
def ClassSection.self? (sys : System) (c : ClassSection) : Option ServerEntry :=
  (c.lines.flatMap ClassLine.serverList).find? fun e => parserIsMyClass sys e.host

/-- What a class registers: its ports, and itself if the server belongs to it. -/
def ClassSection.register (sys : System) (c : ClassSection) (s : Loader n k) : Loader n k :=
  let s := { s with ports := s.ports ++ c.lines.flatMap ClassLine.portList }
  match c.self? sys with
  | none => s
  | some e =>
    { s with identifier := serverAddIDClass s.identifier c.name, port := atoi e.port }

/-! ## Clients -/

/-- A client, of which the server skips everything. -/
structure ClientSection where
  /-- The name. -/
  name : CString
  /-- What stands behind it. -/
  opening : Remark
  /-- The words of the lines. -/
  lines : List (List CString)
  /-- None is the end of a client. -/
  not_end : ∀ ws ∈ lines, ∀ w more, ws = w :: more → strcaseeq w (ascii "end") = true →
    ∀ kind ∈ more.head?, strcaseeq kind (ascii "client") = false
  /-- What stands behind `end client`. -/
  closing : List CString

/-- The words of its lines. -/
def ClientSection.words (c : ClientSection) : List (List CString) :=
  keyLine "client" c.name c.opening :: (c.lines ++ [endLine "client" c.closing])

/-! ## Events -/

/-- A line of an event. -/
inductive EventLine
  /-- `name`. -/
  | name (name : CString) (r : Remark)
  /-- `path`. -/
  | path (path : CString) (r : Remark)
  /-- A comment. -/
  | remark (r : Remark)

/-- Its words. -/
def EventLine.words : EventLine → List CString
  | .name w r => keyLine "name" w r
  | .path w r => keyLine "path" w r
  | .remark r => r.words

/-- The name that a line declares. -/
def EventLine.name? : EventLine → Option CString
  | .name w _ => some w
  | _ => none

/-- The path that a line declares. -/
def EventLine.path? : EventLine → Option CString
  | .path w _ => some w
  | _ => none

/-- An event. -/
structure EventSection where
  /-- What stands behind `event`. -/
  opening : Remark
  /-- The lines. -/
  lines : List EventLine
  /-- What stands behind `end event`. -/
  closing : List CString
  /-- The name. -/
  name : CString
  /-- It is declared once. -/
  names_eq : lines.filterMap EventLine.name? = [name]
  /-- The path. -/
  path : CString
  /-- It is declared once. -/
  paths_eq : lines.filterMap EventLine.path? = [path]

/-- The words of its lines. -/
def EventSection.words (e : EventSection) : List (List CString) :=
  (ascii "event" :: e.opening.words) :: (e.lines.map EventLine.words ++
    [endLine "event" e.closing])

/-! ## States -/

/-- A line of a threshold. -/
inductive ThresholdLine
  /-- `level`. -/
  | level (level : NumericWord) (r : Remark)
  /-- `path`. -/
  | path (path : CString) (r : Remark)
  /-- `fade`. -/
  | fade (fade : NumericWord) (r : Remark)
  /-- A comment. -/
  | remark (r : Remark)

/-- Its words. -/
def ThresholdLine.words : ThresholdLine → List CString
  | .level w r => keyLine "level" w.text r
  | .path w r => keyLine "path" w r
  | .fade w r => keyLine "fade" w.text r
  | .remark r => r.words

/-- The level that a line declares. -/
def ThresholdLine.level? : ThresholdLine → Option CString
  | .level w _ => some w.text
  | _ => none

/-- The path that a line declares. -/
def ThresholdLine.path? : ThresholdLine → Option CString
  | .path w _ => some w
  | _ => none

/-- The fade time that a line declares. -/
def ThresholdLine.fade? : ThresholdLine → Option CString
  | .fade w _ => some w.text
  | _ => none

/-- A threshold of a state. -/
structure ThresholdBlock where
  /-- What stands behind `threshold`. -/
  opening : Remark
  /-- The lines. -/
  lines : List ThresholdLine
  /-- What stands behind `end threshold`. -/
  closing : List CString
  /-- The level. -/
  level : CString
  /-- It is declared once. -/
  levels_eq : lines.filterMap ThresholdLine.level? = [level]
  /-- The path. -/
  path : CString
  /-- It is declared once. -/
  paths_eq : lines.filterMap ThresholdLine.path? = [path]
  /-- The fade time. -/
  fade : CString
  /-- It is declared once. -/
  fades_eq : lines.filterMap ThresholdLine.fade? = [fade]

/-- The words of its lines. -/
def ThresholdBlock.words (t : ThresholdBlock) : List (List CString) :=
  (ascii "threshold" :: t.opening.words) :: (t.lines.map ThresholdLine.words ++
    [endLine "threshold" t.closing])

/-- What a state consists of. -/
inductive StateItem
  /-- `name`. -/
  | name (name : CString) (r : Remark)
  /-- `threshold`. -/
  | threshold (t : ThresholdBlock)
  /-- A comment. -/
  | remark (r : Remark)

/-- The words of its lines. -/
def StateItem.words : StateItem → List (List CString)
  | .name w r => [keyLine "name" w r]
  | .threshold t => t.words
  | .remark r => [r.words]

/-- The name that it declares. -/
def StateItem.name? : StateItem → Option CString
  | .name w _ => some w
  | _ => none

/-- The threshold that it is. -/
def StateItem.threshold? : StateItem → Option ThresholdBlock
  | .threshold t => some t
  | _ => none

/-- A state. -/
structure StateSection where
  /-- What stands behind `state`. -/
  opening : Remark
  /-- What it consists of. -/
  items : List StateItem
  /-- What stands behind `end state`. -/
  closing : List CString
  /-- The name. -/
  name : CString
  /-- It is declared once. -/
  names_eq : items.filterMap StateItem.name? = [name]

/-- The words of the lines behind the first. -/
def StateSection.body (x : StateSection) : List (List CString) :=
  x.items.flatMap StateItem.words ++ [endLine "state" x.closing]

/-- The words of its lines. -/
def StateSection.words (x : StateSection) : List (List CString) :=
  (ascii "state" :: x.opening.words) :: x.body

/-- Its thresholds. -/
def StateSection.thresholds (x : StateSection) : List ThresholdBlock :=
  x.items.filterMap StateItem.threshold?

/-- A threshold is loaded. Without an upper bound, the server shuts down. -/
def loadThreshold (sys : System) (soundPath : CString) (threshCnt : ℕ) (t : ThresholdBlock) :
    Program (Loader n k) Bool := do
  let lBound ← lowerBound threshCnt
  if sys.strtod t.level = 0 then crash
  else
    parserLoadStateSndDir sys threshCnt lBound (sys.strtod t.level) (some (soundPath ++ t.path))
      (sys.strtod t.fade)

/-- The thresholds of a state are loaded. -/
def loadThresholds (sys : System) (soundPath : CString) :
    ℕ → List ThresholdBlock → Program (Loader n k) Bool
  | _, [] => pure true
  | threshCnt, t :: ts => do
    let loaded ← loadThreshold sys soundPath threshCnt t
    if loaded then loadThresholds sys soundPath (threshCnt + 1) ts else pure false

/-- What a state registers, and whether its thresholds could be loaded. -/
def loadState (sys : System) (soundPath name : CString) (ts : List ThresholdBlock) :
    Program (Loader n k) Bool := do
  let s ← get
  let _ ← callMixer s.stateCnt fun m => m.mixerAllocNewState s.stateCnt ts.length
  let loaded ← loadThresholds sys soundPath 0 ts
  if loaded then registerState (some name) else pure false

/-! ## Files -/

/-- A section of the file, or a line between sections. -/
inductive ConfigSection
  /-- The general section. -/
  | general (g : GeneralSection)
  /-- A class. -/
  | cls (c : ClassSection)
  /-- A client. -/
  | client (c : ClientSection)
  /-- An event. -/
  | event (e : EventSection)
  /-- A state. -/
  | state (x : StateSection)
  /-- A comment. -/
  | remark (r : Remark)

/-- The words of its lines. -/
def ConfigSection.words : ConfigSection → List (List CString)
  | .general g => g.words
  | .cls c => c.words
  | .client c => c.words
  | .event e => e.words
  | .state x => x.words
  | .remark r => [r.words]

/-- The sound path that a section declares. -/
def ConfigSection.path? : ConfigSection → Option CString
  | .general g => some g.path
  | _ => none

/-- What a section registers, and the error if it cannot. -/
def ConfigSection.register (sys : System) (soundPath : CString) :
    ConfigSection → Program (Loader n k) (Option ParserStatus)
  | .general g => do
    let accepted ← registerGeneral sys g.lines
    pure (if accepted then none else some .generalError)
  | .cls c => do
    change (c.register sys)
    pure none
  | .client _ => pure none
  | .event e => do
    let loaded ← parserLoadEventSndDir sys e.name (soundPath ++ e.path)
    pure (if loaded then none else some .eventError)
  | .state x => do
    let loaded ← loadState sys soundPath x.name x.thresholds
    pure (if loaded then none else some .stateError)
  | .remark _ => pure none

/-- What the sections of a file register, one after the other. -/
def registerSections (sys : System) (soundPath : CString) :
    List ConfigSection → Program (Loader n k) ParserStatus
  | [] => pure .success
  | x :: rest => do
    match ← x.register sys soundPath with
    | none => registerSections sys soundPath rest
    | some status => pure status

end Peep
