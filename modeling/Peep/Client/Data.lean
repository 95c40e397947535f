import Mathlib.Data.List.Sort
import Mathlib.Logic.Function.Basic
import Peep.Client.Notice
import Peep.Library.Xml

/-!
# Data objects

What a client knows is kept in objects of the subclasses of `Net::Peep::Data`. Each class has a
name, attributes, and handlers: the classes of the objects that are in pools of its objects.
`serialize` writes an object as a document, an element for each attribute that is defined and then
the objects in the pools. `deserialize` cleans a document up (`clean`) and fills an object from the
calls of a parser; the handlers change with the object that is being read, and with the element
whose text is awaited.

* The value of an attribute is written as it is, whatever is in it.
* An attribute with an array for its value is written as what Perl makes of the reference, which is
  the address of the array.
* An element that is met a second time turns its value into an array of one, and the text that comes
  then is appended to the last value of the array, which is the first one.

## Choices

The strings are of bytes. Attributes and pools are read and written by the methods that
`Net::Peep::Data` has for them, so that an attribute that the class does not have is not set, a
value is defined, and an array is not empty. Where the values of an array are in memory is a
function of the values.

A hash of pools is the list of the objects in them, in the order of the names of the pools and in
the order in which they were added, which is the order in which `pools` and `pool` list them.

An element whose name is that of a method that the class inherits, or of a function that its package
imports (`croak`), is taken like any other. In Perl such a call does not reach `AUTOLOAD`, so the
documents here are those without such elements.

Processing instructions, for which `_proc` reads the file of a theme, are left out, and so are the
messages of the log.

## Main results

* `serialize_ofNotice` — a notice is written as it was above
* `isProper_deserialize` — what is read has objects in the pools of their classes
-/

namespace Peep

open Decimal

/-! ## The classes -/

/-- The subclasses of `Net::Peep::Data`. -/
inductive DataClass
  /-- `Net::Peep::Data::Client`. -/
  | client
  /-- `Net::Peep::Data::Client::Notification`. -/
  | notification
  /-- `Net::Peep::Data::Clients`. -/
  | clients
  /-- `Net::Peep::Data::Conf`. -/
  | conf
  /-- `Net::Peep::Data::Conf::Class`. -/
  | confClass
  /-- `Net::Peep::Data::Conf::Class::Server`. -/
  | confServer
  /-- `Net::Peep::Data::Conf::Class::Servers`. -/
  | confServers
  /-- `Net::Peep::Data::Conf::Classes`. -/
  | confClasses
  /-- `Net::Peep::Data::Conf::General`. -/
  | confGeneral
  /-- `Net::Peep::Data::Event`. -/
  | event
  /-- `Net::Peep::Data::Events`. -/
  | events
  /-- `Net::Peep::Data::Notice`. -/
  | notice
  /-- `Net::Peep::Data::Option`. -/
  | option
  /-- `Net::Peep::Data::Options`. -/
  | options
  /-- `Net::Peep::Data::Sound`. -/
  | sound
  /-- `Net::Peep::Data::Sounds`. -/
  | sounds
  /-- `Net::Peep::Data::State`. -/
  | state
  /-- `Net::Peep::Data::State::ThreshHold`. -/
  | threshHold
  /-- `Net::Peep::Data::State::ThreshHolds`. -/
  | threshHolds
  /-- `Net::Peep::Data::States`. -/
  | states
  /-- `Net::Peep::Data::Theme`. -/
  | theme
  /-- `Net::Peep::Data::Themes`. -/
  | themes
  deriving DecidableEq

namespace DataClass

/-- `Name`. -/
def Name : DataClass → CString
  | .client => ascii "client"
  | .notification => ascii "notification"
  | .clients => ascii "clients"
  | .conf => ascii "configuration"
  | .confClass => ascii "class"
  | .confServer => ascii "server"
  | .confServers => ascii "servers"
  | .confClasses => ascii "classes"
  | .confGeneral => ascii "general"
  | .event => ascii "event"
  | .events => ascii "events"
  | .notice => ascii "notice"
  | .option => ascii "option"
  | .options => ascii "options"
  | .sound => ascii "sound"
  | .sounds => ascii "sounds"
  | .state => ascii "state"
  | .threshHold => ascii "threshhold"
  | .threshHolds => ascii "threshholds"
  | .states => ascii "states"
  | .theme => ascii "theme"
  | .themes => ascii "themes"

/-- Attributes without the value `CDATA`. -/
def plain (names : List String) : List (CString × Bool) := names.map fun name => (ascii name, false)

/-- `Attributes`, in the order of `sort keys`; the attributes with the value `CDATA` are marked. -/
def Attributes : DataClass → List (CString × Bool)
  | .client => plain ["class", "configuration", "name", "port"]
  | .notification => plain ["hosts", "level", "recipients"]
  | .confClass => plain ["name", "port"]
  | .confServer => plain ["name", "port"]
  | .confGeneral => plain ["sound_path", "version"]
  | .event => plain ["description", "name", "sound"]
  | .notice => plain ["client"] ++ [(ascii "data", true)] ++
      plain ["date", "dither", "flags", "host", "level", "location", "metric", "priority", "sound",
        "type", "volume"]
  | .option => plain ["name", "value"]
  | .sound => plain ["category", "description", "format", "length", "name", "path", "type"]
  | .state => plain ["description", "name", "path"]
  | .threshHold => plain ["fade", "level", "sound"]
  | .theme => plain ["author", "description", "name"]
  | .clients | .conf | .confServers | .confClasses | .events | .options | .sounds | .threshHolds
  | .states | .themes => []

/-- `Handlers`. -/
def Handlers : DataClass → List (CString × DataClass)
  | .client => [(ascii "options", .options)]
  | .clients => [(ascii "client", .client)]
  | .conf => [(ascii "general", .confGeneral), (ascii "classes", .confClasses),
      (ascii "clients", .clients), (ascii "sounds", .sounds), (ascii "events", .events),
      (ascii "states", .states), (ascii "themes", .themes)]
  | .confClass => [(ascii "servers", .confServers)]
  | .confServers => [(ascii "server", .confServer)]
  | .confClasses => [(ascii "class", .confClass)]
  | .confGeneral => [(ascii "options", .options)]
  | .events => [(ascii "event", .event)]
  | .options => [(ascii "option", .option)]
  | .sounds => [(ascii "sound", .sound)]
  | .state => [(ascii "threshholds", .threshHolds)]
  | .threshHolds => [(ascii "threshhold", .threshHold)]
  | .states => [(ascii "state", .state)]
  | .theme => [(ascii "sounds", .sounds), (ascii "events", .events), (ascii "states", .states),
      (ascii "clients", .clients)]
  | .themes => [(ascii "theme", .theme)]
  | .notification | .confServer | .event | .notice | .option | .sound | .threshHold => []

/-- `$self->Attributes()->{$name}`: whether the value is `CDATA`. -/
def attribute? (cls : DataClass) (name : CString) : Option Bool := cls.Attributes.lookup name

/-- `$self->Handlers()->{$name}`. -/
def handler? (cls : DataClass) (name : CString) : Option DataClass := cls.Handlers.lookup name

end DataClass

/-! ## The objects -/

/-- The value of an attribute. -/
inductive Value
  /-- A string. -/
  | scalar (s : CString)
  /-- A reference to an array with at least one value: those before the last one, and the last
  one. -/
  | array (front : List CString) (last : CString)
  deriving DecidableEq

/-- An object: its class, the values of the attributes that are defined, and the objects in its
pools, each with the name of the pool. -/
inductive Data
  | mk (cls : DataClass) (fields : CString → Option Value) (pools : List (CString × Data))

namespace Data

/-- The class. -/
def cls : Data → DataClass
  | .mk cls _ _ => cls

/-- The values of the attributes. -/
def fields : Data → CString → Option Value
  | .mk _ fields _ => fields

/-- The objects in the pools. -/
def pools : Data → List (CString × Data)
  | .mk _ _ pools => pools

/-- `new`. -/
def new (cls : DataClass) : Data := .mk cls (fun _ => none) []

/-- Assigns a value to an attribute. -/
def set (name : CString) (value : Value) : Data → Data
  | .mk cls fields pools => .mk cls (Function.update fields name (some value)) pools

/-- The pools with an object added to one of them. -/
def insertObject (name : CString) (object : Data) : List (CString × Data) → List (CString × Data)
  | [] => [(name, object)]
  | p :: pools =>
    if name < p.1 then (name, object) :: p :: pools else p :: insertObject name object pools

/-- `addToPool`. -/
def addToPool (d : Data) (name : CString) (object : Data) : Data :=
  .mk d.cls d.fields (insertObject name object d.pools)

/-- `$self->{$name} .= $string`, or the same for the last value of an array. -/
def append (name s : CString) (d : Data) : Data :=
  match d.fields name with
  | some (.array front last) => d.set name (.array front (last ++ s))
  | some (.scalar value) => d.set name (.scalar (value ++ s))
  | none => d.set name (.scalar s)

/-- `$self->$name('start', ...)`. -/
def autoloadStart (name : CString) (d : Data) : Data :=
  if d.cls.attribute? name = none then d
  else match d.fields name with
    | some (.scalar value) => if IsFalse value then d else d.set name (.array [] value)
    | _ => d

/-- `$self->$name('char', ...)`. -/
def autoloadChar (name s : CString) (d : Data) : Data :=
  if d.cls.attribute? name = none then d else d.append name s

end Data

/-! ## Writing an object -/

/-- A hexadecimal digit. -/
def hexDigit (d : ℕ) : UInt8 := (if d < 10 then 48 + d else 87 + d).toUInt8

/-- `"  " x $level`. -/
def indent (level : ℕ) : CString := List.replicate (2 * level) 32

section Serialize

variable (address : List CString → ℕ)

/-- The string that a value is. -/
def Value.text : Value → CString
  | .scalar s => s
  | .array front last =>
    ascii "ARRAY(0x" ++ (Nat.digits 16 (address (front ++ [last]))).reverse.map hexDigit ++
      ascii ")"

namespace Data

/-- What `serialize` writes for an attribute. -/
def serializeAttribute (level : ℕ) (fields : CString → Option Value) (attr : CString × Bool) :
    CString :=
  match fields attr.1 with
  | none => []
  | some value =>
    indent level ++ ascii "  <" ++ attr.1 ++ ascii ">" ++
      (if attr.2 then ascii "<![CDATA[" ++ value.text address ++ ascii "]]>"
        else value.text address) ++
      ascii "</" ++ attr.1 ++ ascii ">\n"

mutual

/-- `serialize`. -/
def serialize (level : ℕ) : Data → CString
  | .mk cls fields pools =>
    indent level ++ ascii "<" ++ cls.Name ++ ascii ">\n" ++
      cls.Attributes.flatMap (serializeAttribute address level fields) ++
      serializePools (level + 1) pools ++
      indent level ++ ascii "</" ++ cls.Name ++ ascii ">\n"

/-- The objects in the pools, one after the other. -/
def serializePools (level : ℕ) : List (CString × Data) → CString
  | [] => []
  | (_, object) :: pools => serialize level object ++ serializePools level pools

end

end Data

end Serialize

/-- A notice as an object. -/
def Data.ofNotice (n : Notice) : Data :=
  .mk .notice
    (fun name => (Attribute.sorted.find? fun a => a.name = name).bind fun a =>
      (n a).map fun v => .scalar v.text) []

/-- **A notice is written as it was when it was no more than a hash.** -/
theorem Data.serialize_ofNotice (address : List CString → ℕ) (n : Notice) :
    (ofNotice n).serialize address 0 = Peep.serialize n := by
  have hattributes :
      DataClass.notice.Attributes = Attribute.sorted.map fun a => (a.name, a.isCDATA) := by decide
  have hfind : ∀ a : Attribute, Attribute.sorted.find? (fun b => b.name = a.name) = some a := by
    intro a
    cases a <;> decide
  have hattribute : ∀ a : Attribute,
      serializeAttribute address 0 (ofNotice n).fields (a.name, a.isCDATA)
        = Peep.serializeAttribute n a := by
    intro a
    rw [serializeAttribute, Peep.serializeAttribute]
    simp only [ofNotice, fields, hfind, Option.bind_some]
    cases n a with
    | none => rfl
    | some v => rfl
  show indent 0 ++ ascii "<" ++ ascii "notice" ++ ascii ">\n" ++
    DataClass.notice.Attributes.flatMap (serializeAttribute address 0 (ofNotice n).fields) ++ [] ++
    indent 0 ++ ascii "</" ++ ascii "notice" ++ ascii ">\n" = Peep.serialize n
  rw [hattributes, List.flatMap_map, List.flatMap_congr fun a _ => hattribute a, Peep.serialize]
  simp [indent, ascii]

/-! ## Cleaning a document -/

/-- `\w`. -/
def isWord (c : UInt8) : Bool :=
  (48 ≤ c && c ≤ 57) || (65 ≤ c && c ≤ 90) || (97 ≤ c && c ≤ 122) || c = 95

/-- The characters that `clean` keeps. -/
def isCleanChar (c : UInt8) : Bool :=
  isWord c || c = 9 || c = 10 || c = 12 || c = 13 || c = 32 ||
    (ascii "!@#$%^&*()-_=+\\|\x7b\x7d[];:\",<.>/?\x60~'").contains c

/-- `$string =~ /(\&\w+\;)/g`. -/
def entities : CString → List CString
  | [] => []
  | c :: s =>
    let word := s.takeWhile isWord
    if c = 38 ∧ word ≠ [] ∧ (s.drop word.length).head? = some 59 then
      (38 :: (word ++ [59])) :: entities s
    else entities s

/-- The entities that `clean` leaves. -/
def isMarked (entity : CString) : Bool := entity = ascii "&lt;" || entity = ascii "&gt;"

/-- `s/$match/ /g`, behind so many characters that belong to the last match. -/
def blankOut (pattern : CString) : ℕ → CString → CString
  | _, [] => []
  | n + 1, _ :: s => blankOut pattern n s
  | 0, c :: s =>
    if pattern.isPrefixOf (c :: s) then 32 :: blankOut pattern (pattern.length - 1) s
    else c :: blankOut pattern 0 s

/-- `clean`. The entities are replaced in an order that does not matter, since no two of them
overlap. -/
def clean (string : CString) : CString :=
  let string := string.filter isCleanChar
  ((entities string).dedup.filter fun entity => !isMarked entity).foldl
    (fun string entity => blankOut entity 0 string) string

/-! ## Reading an object -/

namespace Data

/-- What `_start` does with the attributes of the element itself. -/
def fill (element : CString) (attributes : List (CString × CString)) (d : Data) : Data :=
  if element = d.cls.Name then
    (attributes.mergeSort fun p q => p.1 ≤ q.1).foldl
      (fun d attr => if d.cls.attribute? attr.1 = none then d else d.append attr.1 attr.2) d
  else d

end Data

/-- The handlers that the parser has been given. -/
structure Reader where
  /-- The object with the handlers for the beginning and the end of an element. -/
  current : Data
  /-- The objects that wait for it, innermost first, each with the pool for the one before it. -/
  outer : List (CString × Data)
  /-- The handler for text: how many objects out its object is, and the name of the element. -/
  char : Option (ℕ × CString)

namespace Reader

/-- The handlers of an object before the first call. -/
def begin (d : Data) : Reader := ⟨d, [], none⟩

/-- `_start` for an element without a handler. -/
def startElement (element : CString) (r : Reader) : Reader where
  current := r.current.autoloadStart element
  outer := r.outer
  char := if element = r.current.cls.Name then r.char else some (0, element)

/-- `_start`. -/
def start (element : CString) (attributes : List (CString × CString)) (r : Reader) : Reader :=
  let current := r.current.fill element attributes
  match current.cls.handler? element with
  | some cls =>
    -- the new object has no handler for an element with its own name
    startElement element
      ⟨(Data.new cls).fill element attributes, (element, current) :: r.outer,
        r.char.map fun c => (c.1 + 1, c.2)⟩
  | none => startElement element { r with current := current }

/-- The handler for text. -/
def text (s : CString) (r : Reader) : Reader :=
  match r.char with
  | none => r
  | some (0, element) => { r with current := r.current.autoloadChar element s }
  | some (n + 1, element) =>
    { r with outer := r.outer.modify n fun p => (p.1, p.2.autoloadChar element s) }

/-- `_end`, and `_endObject` at the end of an object that is not the outermost one. -/
def stop (element : CString) (r : Reader) : Reader :=
  match r.outer with
  | [] => { r with char := none }
  | (pool, object) :: outer =>
    if element = r.current.cls.Name then ⟨object.addToPool pool r.current, outer, none⟩
    else { r with char := none }

/-- A call of the parser. -/
def call (r : Reader) : Xml.Call → Reader
  | .start element attributes => r.start element attributes
  | .char s => r.text s
  | .stop element => r.stop element

/-- The outermost object. -/
def object (r : Reader) : Data := (r.outer.getLast?.map Prod.snd).getD r.current

end Reader

section Deserialize

variable (parse : CString → Option (List Xml.Call)) (hostname : CString)

/-- A `Net::Peep::Data::Notice` is given a host if it has none. -/
def Data.withHost (d : Data) : Data :=
  if d.cls = .notice ∧ d.fields (ascii "host") = none then
    d.set (ascii "host") (.scalar hostname)
  else d

/-- `deserialize`; `none` if the program ends. -/
def Data.deserialize (d : Data) (xml : CString) : Option Data :=
  if IsFalse xml then none
  else (parse (clean xml)).map fun calls =>
    (calls.foldl Reader.call (.begin d)).object.withHost hostname

end Deserialize

/-! ## What the classes have in common -/

namespace DataClass

variable {cls object : DataClass} {name element : CString} {isCDATA : Bool}

theorem mem_Handlers (h : cls.handler? element = some object) :
    (element, object) ∈ cls.Handlers := by
  obtain ⟨before, behind, hsplit, -⟩ := List.lookup_eq_some_iff.mp h
  rw [hsplit]
  exact List.mem_append_right _ List.mem_cons_self

theorem mem_Attributes (h : cls.attribute? name = some isCDATA) :
    (name, isCDATA) ∈ cls.Attributes := by
  obtain ⟨before, behind, hsplit, -⟩ := List.lookup_eq_some_iff.mp h
  rw [hsplit]
  exact List.mem_append_right _ List.mem_cons_self

/-- The handler for an element is the class with its name. -/
theorem Name_of_handler? (h : cls.handler? element = some object) : object.Name = element := by
  have hall : ∀ p ∈ cls.Handlers, p.2.Name = p.1 := by cases cls <;> decide
  exact hall _ (mem_Handlers h)

/-- No class has a handler for its own name. -/
theorem handler?_Name (cls : DataClass) : cls.handler? cls.Name = none := by
  cases cls <;> decide

/-- Nor has it an attribute with that name. -/
theorem attribute?_Name (cls : DataClass) : cls.attribute? cls.Name = none := by
  cases cls <;> decide

/-- An element with a handler is no attribute. -/
theorem handler?_of_attribute? (h : cls.attribute? name = some isCDATA) :
    cls.handler? name = none := by
  have hall : ∀ p ∈ cls.Attributes, cls.handler? p.1 = none := by cases cls <;> decide
  exact hall _ (mem_Attributes h)

end DataClass

/-! ## Objects that can be -/

namespace Data

variable {P Q : Data → Prop} {cls : DataClass} {fields : CString → Option Value}
  {pools : List (CString × Data)} {d object : Data} {name s : CString} {value : Value}

/-- All objects of the tree have a property. -/
inductive All (P : Data → Prop) : Data → Prop
  | mk {cls : DataClass} {fields : CString → Option Value} {pools : List (CString × Data)} :
      P (.mk cls fields pools) → (∀ p ∈ pools, All P p.2) → All P (.mk cls fields pools)

mutual

theorem all_true : ∀ d : Data, d.All fun _ => True
  | .mk _ _ pools => .mk trivial (all_true_of_mem pools)

theorem all_true_of_mem : ∀ (pools : List (CString × Data)), ∀ p ∈ pools, p.2.All fun _ => True
  | [], _, hp => absurd hp List.not_mem_nil
  | (_, object) :: pools, p, hp => by
    rcases List.mem_cons.mp hp with rfl | hp
    · exact all_true object
    · exact all_true_of_mem pools p hp

end

theorem All.here (h : d.All P) : P d := by
  cases h
  assumption

theorem All.mem (h : d.All P) : ∀ p ∈ d.pools, p.2.All P := by
  cases h
  assumption

theorem all_iff : d.All P ↔ P d ∧ ∀ p ∈ d.pools, p.2.All P := by
  refine ⟨fun h => ⟨h.here, h.mem⟩, fun h => ?_⟩
  obtain ⟨cls, fields, pools⟩ := d
  exact .mk h.1 h.2

/-- **What follows for an object from what holds of the objects in its pools holds of all
objects.** -/
theorem all_of_step (hstep : ∀ cls fields pools, (∀ p ∈ pools, P p.2) → P (.mk cls fields pools)) :
    ∀ d : Data, P d := by
  intro d
  induction all_true d with
  | mk _ _ ih => exact hstep _ _ _ ih

theorem All.and (h : d.All P) (h' : d.All Q) : d.All fun d => P d ∧ Q d := by
  induction h with
  | mk hP _ ih => exact .mk ⟨hP, h'.here⟩ fun p hp => ih p hp (h'.mem p hp)

theorem All.imp (h : d.All P) (himp : ∀ d, P d → Q d) : d.All Q := by
  induction h with
  | mk hP _ ih => exact .mk (himp _ hP) ih

/-- The pools are in the order of their names. -/
def IsSorted (pools : List (CString × Data)) : Prop := pools.Pairwise fun p q => ¬ q.1 < p.1

/-- Only attributes of the class are set, and the pools are in order. -/
structure IsWellKept (d : Data) : Prop where
  /-- What is set is an attribute. -/
  isAttribute : ∀ name, d.cls.attribute? name = none → d.fields name = none
  /-- The pools are in order. -/
  isSorted : IsSorted d.pools

/-- The objects are in pools that the class has a handler for. -/
def IsHandled (d : Data) : Prop := ∀ p ∈ d.pools, d.cls.handler? p.1 = some p.2.cls

@[simp] theorem cls_mk : (Data.mk cls fields pools).cls = cls := rfl

@[simp] theorem fields_mk : (Data.mk cls fields pools).fields = fields := rfl

@[simp] theorem pools_mk : (Data.mk cls fields pools).pools = pools := rfl

@[simp] theorem cls_new : (new cls).cls = cls := rfl

@[simp] theorem cls_set : (d.set name value).cls = d.cls := by cases d; rfl

@[simp] theorem pools_set : (d.set name value).pools = d.pools := by cases d; rfl

theorem fields_set : (d.set name value).fields = Function.update d.fields name (some value) := by
  cases d
  rfl

@[simp] theorem cls_append : (d.append name s).cls = d.cls := by
  rw [append]
  split <;> exact cls_set

@[simp] theorem cls_autoloadStart : (d.autoloadStart name).cls = d.cls := by
  rw [autoloadStart]
  split_ifs
  · rfl
  · split
    · split_ifs
      · rfl
      · exact cls_set
    · rfl

@[simp] theorem cls_autoloadChar : (d.autoloadChar name s).cls = d.cls := by
  rw [autoloadChar]
  split_ifs
  · rfl
  · exact cls_append

/-- All objects of the tree are as their classes say. -/
def IsProper (d : Data) : Prop := d.All fun d => d.IsWellKept ∧ d.IsHandled

theorem isProper_new (cls : DataClass) : (new cls).IsProper :=
  .mk ⟨⟨fun _ _ => rfl, .nil⟩, fun _ hp => absurd hp List.not_mem_nil⟩
    fun _ hp => absurd hp List.not_mem_nil

/-- Setting an attribute keeps the object as it should be. -/
theorem IsProper.set (hd : d.IsProper) (hname : d.cls.attribute? name ≠ none) (value : Value) :
    (d.set name value).IsProper := by
  obtain ⟨⟨hkept, hhandled⟩, hpools⟩ := all_iff.mp hd
  refine all_iff.mpr ⟨⟨⟨?_, ?_⟩, ?_⟩, ?_⟩
  · intro other hother
    rw [cls_set] at hother
    rw [fields_set, Function.update_of_ne (by rintro rfl; exact hname hother)]
    exact hkept.isAttribute other hother
  · rw [pools_set]
    exact hkept.isSorted
  · rw [IsHandled, pools_set, cls_set]
    exact hhandled
  · rw [pools_set]
    exact hpools

theorem IsProper.append (hd : d.IsProper) (hname : d.cls.attribute? name ≠ none) (s : CString) :
    (d.append name s).IsProper := by
  rw [Data.append]
  split
  · exact hd.set hname _
  · exact hd.set hname _
  · exact hd.set hname _

theorem IsProper.autoloadStart (hd : d.IsProper) : (d.autoloadStart name).IsProper := by
  rw [Data.autoloadStart]
  split_ifs with hname
  · exact hd
  · split
    · split_ifs
      · exact hd
      · exact hd.set hname _
    · exact hd

theorem IsProper.autoloadChar (hd : d.IsProper) : (d.autoloadChar name s).IsProper := by
  rw [Data.autoloadChar]
  split_ifs with hname
  · exact hd
  · exact hd.append hname s

theorem IsProper.fill (hd : d.IsProper) (element : CString)
    (attributes : List (CString × CString)) :
    (d.fill element attributes).IsProper ∧ (d.fill element attributes).cls = d.cls := by
  rw [Data.fill]
  split_ifs with helement
  · clear helement
    induction attributes.mergeSort _ generalizing d with
    | nil => exact ⟨hd, rfl⟩
    | cons attr attributes ih =>
      rw [List.foldl_cons]
      split_ifs with hname
      · exact ih hd
      · obtain ⟨hproper, hcls⟩ := ih (hd.append hname attr.2)
        exact ⟨hproper, hcls.trans cls_append⟩
  · exact ⟨hd, rfl⟩

theorem mem_insertObject {p : CString × Data} :
    p ∈ insertObject name object pools ↔ p = (name, object) ∨ p ∈ pools := by
  induction pools with
  | nil => simp [insertObject]
  | cons q pools ih =>
    rw [insertObject]
    split_ifs
    · rw [List.mem_cons]
    · rw [List.mem_cons, ih, List.mem_cons]
      exact or_left_comm

theorem isSorted_insertObject (h : IsSorted pools) : IsSorted (insertObject name object pools) := by
  induction pools with
  | nil => exact List.pairwise_singleton _ _
  | cons p pools ih =>
    obtain ⟨hp, hpools⟩ := List.pairwise_cons.mp h
    rw [insertObject]
    split_ifs with hname
    · refine List.pairwise_cons.mpr ⟨fun q hq hlt => ?_, h⟩
      rcases List.mem_cons.mp hq with rfl | hq
      · exact List.lt_irrefl _ (List.lt_trans hname hlt)
      · exact hp q hq (List.lt_trans hlt hname)
    · refine List.pairwise_cons.mpr ⟨fun q hq => ?_, ih hpools⟩
      rcases mem_insertObject.mp hq with rfl | hq
      · exact hname
      · exact hp q hq

/-- So does adding an object to the pool of its class. -/
theorem IsProper.addToPool (hd : d.IsProper) (hobject : object.IsProper)
    (hname : d.cls.handler? name = some object.cls) : (d.addToPool name object).IsProper := by
  obtain ⟨⟨hkept, hhandled⟩, hpools⟩ := all_iff.mp hd
  refine all_iff.mpr ⟨⟨⟨hkept.isAttribute, isSorted_insertObject hkept.isSorted⟩, ?_⟩, ?_⟩
  · intro p hp
    rcases mem_insertObject.mp hp with rfl | hp
    · exact hname
    · exact hhandled p hp
  · intro p hp
    rcases mem_insertObject.mp hp with rfl | hp
    · exact hobject
    · exact hpools p hp

end Data

namespace Reader

variable {r : Reader} {element s : CString} {cls : DataClass}

/-- Each object that waits has a handler for the one before it. -/
def Nested : DataClass → List (CString × Data) → Prop
  | _, [] => True
  | cls, (pool, object) :: outer => object.cls.handler? pool = some cls ∧ Nested object.cls outer

/-- The objects are as their classes say. -/
structure IsProper (r : Reader) : Prop where
  /-- The object that is being read. -/
  current : r.current.IsProper
  /-- The objects that wait for it. -/
  outer : ∀ p ∈ r.outer, p.2.IsProper
  /-- They have handlers for each other. -/
  nested : Nested r.current.cls r.outer

theorem nested_modify {outer : List (CString × Data)} {f : Data → Data}
    (hf : ∀ d, (f d).cls = d.cls) (h : Nested cls outer) (n : ℕ) :
    Nested cls (outer.modify n fun p => (p.1, f p.2)) := by
  induction outer generalizing cls n with
  | nil => simpa using h
  | cons p outer ih =>
    cases n with
    | zero =>
      rw [List.modify_zero_cons, Nested, hf]
      exact h
    | succ n =>
      rw [List.modify_succ_cons]
      exact ⟨h.1, ih h.2 n⟩

theorem isProper_startElement (hr : r.IsProper) : (r.startElement element).IsProper where
  current := hr.current.autoloadStart
  outer := hr.outer
  nested := by
    rw [startElement, Data.cls_autoloadStart]
    exact hr.nested

theorem isProper_start (hr : r.IsProper) (attributes : List (CString × CString)) :
    (r.start element attributes).IsProper := by
  obtain ⟨hcurrent, hcls⟩ := hr.current.fill element attributes
  rw [start]
  split
  · next cls hhandler =>
    obtain ⟨hnew, hclsNew⟩ := (Data.isProper_new cls).fill element attributes
    refine isProper_startElement ⟨hnew, ?_, ?_, ?_⟩
    · intro p hp
      rcases List.mem_cons.mp hp with rfl | hp
      · exact hcurrent
      · exact hr.outer p hp
    · rw [hclsNew]
      exact hhandler
    · show Nested _ r.outer
      rw [hcls]
      exact hr.nested
  · exact isProper_startElement ⟨hcurrent, hr.outer, by
      show Nested _ r.outer
      rw [hcls]
      exact hr.nested⟩

theorem isProper_text (hr : r.IsProper) (s : CString) : (r.text s).IsProper := by
  rw [text]
  split
  · exact hr
  · refine ⟨hr.current.autoloadChar, hr.outer, ?_⟩
    show Nested _ r.outer
    rw [Data.cls_autoloadChar]
    exact hr.nested
  · refine ⟨hr.current, ?_, nested_modify (fun _ => Data.cls_autoloadChar) hr.nested _⟩
    intro p hp
    obtain ⟨i, hi, rfl⟩ := List.getElem_of_mem hp
    rw [List.getElem_modify]
    split_ifs
    · exact (hr.outer _ (List.getElem_mem _)).autoloadChar
    · exact hr.outer _ (List.getElem_mem _)

theorem isProper_stop (hr : r.IsProper) : (r.stop element).IsProper := by
  rw [stop]
  split
  · exact ⟨hr.current, hr.outer, hr.nested⟩
  · next pool object outer houter =>
    have hobjects := hr.outer
    have hnested := hr.nested
    rw [houter] at hobjects hnested
    split_ifs
    · exact ⟨(hobjects _ List.mem_cons_self).addToPool hr.current hnested.1,
        fun p hp => hobjects p (List.mem_cons_of_mem _ hp), hnested.2⟩
    · exact ⟨hr.current, hr.outer, hr.nested⟩

/-- **A call keeps the objects as they should be.** -/
theorem isProper_call (hr : r.IsProper) (call : Xml.Call) : (r.call call).IsProper := by
  cases call with
  | start element attributes => exact isProper_start hr attributes
  | char s => exact isProper_text hr s
  | stop element => exact isProper_stop hr

theorem isProper_foldl (hr : r.IsProper) (calls : List Xml.Call) :
    (calls.foldl Reader.call r).IsProper := by
  induction calls generalizing r with
  | nil => exact hr
  | cons call calls ih => exact ih (isProper_call hr call)

theorem isProper_object (hr : r.IsProper) : r.object.IsProper := by
  rw [object]
  rcases hlast : r.outer.getLast? with - | p
  · exact hr.current
  · exact hr.outer p (List.mem_of_getLast? hlast)

end Reader

/-- **What is read has only attributes of its classes, and its objects are in the pools of their
classes**, whatever the document says. -/
theorem Data.isProper_deserialize {parse : CString → Option (List Xml.Call)}
    {hostname xml : CString} {cls : DataClass} {d : Data}
    (h : (new cls).deserialize parse hostname xml = some d) :
    d.IsProper := by
  rw [deserialize] at h
  split_ifs at h
  obtain ⟨calls, -, rfl⟩ := Option.map_eq_some_iff.mp h
  have hobject := Reader.isProper_object (Reader.isProper_foldl (r := .begin (new cls))
    ⟨isProper_new cls, fun _ hp => absurd hp List.not_mem_nil, trivial⟩ calls)
  rw [withHost]
  split_ifs with hnotice
  · refine hobject.set ?_ _
    rw [hnotice.1]
    decide
  · exact hobject

end Peep
