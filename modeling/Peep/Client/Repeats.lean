import Peep.Client.Data

/-!
# Attributes that are given more than once

The documentation of `Net::Peep::Data` says that an attribute that occurs several times has an array
of values. The second occurrence does turn its value into an array. But the text that comes then is
appended to the last value of the array, and nothing ever adds another one. So an array has one
value, which is all the texts one behind the other.

## Choices

A document is the tree of its elements; the parser reports a text in any number of pieces. What is
said of an attribute is said of all objects that are read, so also of the one whose element it is
in.

## Main results

* `hasOneEach_deserialize` — an attribute has one value at most, whatever is read
* `deserialize_repeats` — so the texts of a repeated attribute are not its values
-/

namespace Peep

open Decimal

/-! ## Documents with repeated attributes -/

/-- A part of a document. -/
inductive Node
  /-- Text, in the pieces in which it is reported. -/
  | text (pieces : List CString)
  /-- An element, with its attributes. -/
  | element (name : CString) (attributes : List (CString × CString)) (children : List Node)

namespace Node

mutual

/-- The calls that report it. -/
def calls : Node → List Xml.Call
  | .text pieces => pieces.map .char
  | .element name attributes children =>
    .start name attributes :: (childCalls children ++ [.stop name])

/-- The calls that report some parts. -/
def childCalls : List Node → List Xml.Call
  | [] => []
  | child :: children => calls child ++ childCalls children

end

/-- The text between the tags of an element. -/
def textOf (children : List Node) : CString :=
  children.flatMap fun
    | .text pieces => pieces.flatten
    | .element _ _ _ => []

/-- The texts of the elements with a name, in order. -/
def occurrences (name : CString) (children : List Node) : List CString :=
  children.filterMap fun
    | .text _ => none
    | .element name' _ children => if name' = name then some (textOf children) else none

/-- In the element of an object of this class, or in one of an object inside of it, the element of
an attribute occurs two times or more, with these texts. -/
inductive Repeats : DataClass → Node → CString → List CString → Prop
  | here {cls : DataClass} {attributes : List (CString × CString)} {children : List Node}
      {name : CString} (hname : cls.attribute? name ≠ none)
      (htwo : 2 ≤ (occurrences name children).length) :
      Repeats cls (.element cls.Name attributes children) name (occurrences name children)
  | inside {cls cls' : DataClass} {attributes : List (CString × CString)} {children : List Node}
      {child : Node} {name : CString} {texts : List CString} (hchild : child ∈ children)
      (hcls : cls.handler? cls'.Name = some cls') (h : Repeats cls' child name texts) :
      Repeats cls (.element cls.Name attributes children) name texts

theorem Repeats.two_le {cls : DataClass} {node : Node} {name : CString} {texts : List CString}
    (h : node.Repeats cls name texts) : 2 ≤ texts.length := by
  induction h with
  | here _ htwo => exact htwo
  | inside _ _ _ ih => exact ih

end Node

/-- The values of an attribute. -/
def Data.values (d : Data) (name : CString) : List CString :=
  match d.fields name with
  | none => []
  | some (.scalar s) => [s]
  | some (.array front last) => front ++ [last]

/-! ## One value each -/

namespace Data

variable {d object : Data} {name s : CString} {cls : DataClass} {value : Value}

/-- No attribute has more than one value. -/
def HasOneEach (d : Data) : Prop := d.All fun o => ∀ name, (o.values name).length ≤ 1

theorem hasOneEach_new (cls : DataClass) : (new cls).HasOneEach :=
  .mk (fun _ => Nat.zero_le _) fun _ hp => absurd hp List.not_mem_nil

theorem HasOneEach.set (hd : d.HasOneEach) (hvalue : ∀ front last, value = .array front last →
    front = []) : (d.set name value).HasOneEach := by
  obtain ⟨hvalues, hpools⟩ := all_iff.mp hd
  refine all_iff.mpr ⟨fun other => ?_, by rwa [pools_set]⟩
  rw [values, fields_set]
  rcases eq_or_ne other name with rfl | hne
  · rw [Function.update_self]
    rcases value with s | ⟨front, last⟩
    · exact le_rfl
    · obtain rfl := hvalue front last rfl
      exact le_rfl
  · rw [Function.update_of_ne hne]
    exact hvalues other

/-- **Text is appended to the one value.** -/
theorem HasOneEach.append (hd : d.HasOneEach) : (d.append name s).HasOneEach := by
  rw [Data.append]
  split
  next front last hfield =>
    refine hd.set fun front' last' heq => ?_
    obtain ⟨rfl, -⟩ := Value.array.inj heq
    have hone := hd.here name
    rw [values, hfield] at hone
    simpa using hone
  · exact hd.set fun _ _ h => by cases h
  · exact hd.set fun _ _ h => by cases h

/-- **The array that is made has one value.** -/
theorem HasOneEach.autoloadStart (hd : d.HasOneEach) : (d.autoloadStart name).HasOneEach := by
  rw [Data.autoloadStart]
  split_ifs
  · exact hd
  · split
    · split_ifs
      · exact hd
      · exact hd.set fun _ _ h => (Value.array.inj h).1.symm
    · exact hd

theorem HasOneEach.autoloadChar (hd : d.HasOneEach) : (d.autoloadChar name s).HasOneEach := by
  rw [Data.autoloadChar]
  split_ifs
  · exact hd
  · exact hd.append

theorem HasOneEach.fill (hd : d.HasOneEach) (element : CString)
    (attributes : List (CString × CString)) : (d.fill element attributes).HasOneEach := by
  rw [Data.fill]
  split_ifs with helement
  · clear helement
    induction attributes.mergeSort _ generalizing d with
    | nil => exact hd
    | cons attr attributes ih =>
      rw [List.foldl_cons]
      split_ifs
      · exact ih hd
      · exact ih hd.append
  · exact hd

theorem HasOneEach.addToPool (hd : d.HasOneEach) (hobject : object.HasOneEach) :
    (d.addToPool name object).HasOneEach := by
  obtain ⟨hvalues, hpools⟩ := all_iff.mp hd
  refine all_iff.mpr ⟨hvalues, fun p hp => ?_⟩
  rcases mem_insertObject.mp hp with rfl | hp
  · exact hobject
  · exact hpools p hp

end Data

namespace Reader

variable {r : Reader} {element : CString}

/-- No attribute of the objects that are being read has more than one value. -/
structure HasOneEach (r : Reader) : Prop where
  /-- The object that is being read. -/
  current : r.current.HasOneEach
  /-- The objects that wait for it. -/
  outer : ∀ p ∈ r.outer, p.2.HasOneEach

theorem hasOneEach_startElement (hr : r.HasOneEach) : (r.startElement element).HasOneEach :=
  ⟨hr.current.autoloadStart, hr.outer⟩

theorem hasOneEach_start (hr : r.HasOneEach) (attributes : List (CString × CString)) :
    (r.start element attributes).HasOneEach := by
  have hcurrent := hr.current.fill element attributes
  rw [start]
  split
  · refine hasOneEach_startElement ⟨(Data.hasOneEach_new _).fill element attributes, ?_⟩
    intro p hp
    rcases List.mem_cons.mp hp with rfl | hp
    · exact hcurrent
    · exact hr.outer p hp
  · exact hasOneEach_startElement ⟨hcurrent, hr.outer⟩

theorem hasOneEach_text (hr : r.HasOneEach) (s : CString) : (r.text s).HasOneEach := by
  rw [text]
  split
  · exact hr
  · exact ⟨hr.current.autoloadChar, hr.outer⟩
  · refine ⟨hr.current, fun p hp => ?_⟩
    obtain ⟨i, hi, rfl⟩ := List.getElem_of_mem hp
    rw [List.getElem_modify]
    split_ifs
    · exact (hr.outer _ (List.getElem_mem _)).autoloadChar
    · exact hr.outer _ (List.getElem_mem _)

theorem hasOneEach_stop (hr : r.HasOneEach) : (r.stop element).HasOneEach := by
  rw [stop]
  split
  · exact ⟨hr.current, hr.outer⟩
  · next pool object outer houter =>
    have hobjects := hr.outer
    rw [houter] at hobjects
    split_ifs
    · exact ⟨(hobjects _ List.mem_cons_self).addToPool hr.current,
        fun p hp => hobjects p (List.mem_cons_of_mem _ hp)⟩
    · exact ⟨hr.current, hr.outer⟩

/-- **A call** does not add a value to any attribute. -/
theorem hasOneEach_call (hr : r.HasOneEach) (call : Xml.Call) : (r.call call).HasOneEach := by
  cases call with
  | start element attributes => exact hasOneEach_start hr attributes
  | char s => exact hasOneEach_text hr s
  | stop element => exact hasOneEach_stop hr

theorem hasOneEach_foldl (hr : r.HasOneEach) (calls : List Xml.Call) :
    (calls.foldl Reader.call r).HasOneEach := by
  induction calls generalizing r with
  | nil => exact hr
  | cons call calls ih => exact ih (hasOneEach_call hr call)

theorem hasOneEach_object (hr : r.HasOneEach) : r.object.HasOneEach := by
  rw [object]
  rcases hlast : r.outer.getLast? with - | p
  · exact hr.current
  · exact hr.outer p (List.mem_of_getLast? hlast)

end Reader

/-! ## What is read -/

section Deserialize

variable {parse : CString → Option (List Xml.Call)} {hostname xml : CString} {cls : DataClass}
  {d : Data} {node : Node} {name : CString} {texts : List CString}

/-- **No attribute of any object that is read has more than one value.** -/
theorem hasOneEach_deserialize (h : (Data.new cls).deserialize parse hostname xml = some d) :
    d.HasOneEach := by
  rw [Data.deserialize] at h
  split_ifs at h
  obtain ⟨calls, -, rfl⟩ := Option.map_eq_some_iff.mp h
  have hobject := Reader.hasOneEach_object (Reader.hasOneEach_foldl (r := .begin (.new cls))
    ⟨Data.hasOneEach_new cls, fun _ hp => absurd hp List.not_mem_nil⟩ calls)
  rw [Data.withHost]
  split_ifs
  · exact hobject.set fun _ _ h => by cases h
  · exact hobject

/-- What is asked: the document is read, and there is an object that has the texts of the repeated
attribute for the values of it. -/
def GivesValues (parse : CString → Option (List Xml.Call)) (hostname : CString) (cls : DataClass)
    (xml name : CString) (texts : List CString) : Prop :=
  ∃ d, (Data.new cls).deserialize parse hostname xml = some d ∧
    ¬ d.All fun o => o.values name ≠ texts

/-- **The texts of a repeated attribute are the values of no attribute.** -/
theorem deserialize_repeats (hxml : ¬ IsFalse xml) (hread : parse (clean xml) = some node.calls)
    (hrepeats : node.Repeats cls name texts) :
    (∃ d, (Data.new cls).deserialize parse hostname xml = some d) ∧
      ¬ GivesValues parse hostname cls xml name texts := by
  constructor
  · rw [Data.deserialize, if_neg hxml, hread]
    exact ⟨_, rfl⟩
  · rintro ⟨d, hd, hgives⟩
    refine hgives ((hasOneEach_deserialize hd).imp fun o hone htexts => ?_)
    have htwo := hrepeats.two_le
    rw [← htexts] at htwo
    exact (hone name).not_gt htwo

/-- An event with two names. -/
def twoNames : Node :=
  .element (ascii "event") [] [.element (ascii "name") [] [.text [ascii "a"]],
    .element (ascii "name") [] [.text [ascii "b"]]]

theorem repeats_twoNames : twoNames.Repeats .event (ascii "name") [ascii "a", ascii "b"] :=
  @Node.Repeats.here .event [] _ (ascii "name") (by decide +kernel) (by decide +kernel)

theorem deserialize_repeats_twoNames :
    (∃ d, (Data.new .event).deserialize Xml.read (ascii "host")
      (ascii "<event><name>a</name><name>b</name></event>") = some d) ∧
      ¬ GivesValues Xml.read (ascii "host") .event
        (ascii "<event><name>a</name><name>b</name></event>") (ascii "name")
        [ascii "a", ascii "b"] :=
  deserialize_repeats (by decide +kernel)
    (show Xml.read (clean _) = some twoNames.calls by decide +kernel) repeats_twoNames

/-- The event has one name, which is both. -/
theorem not_givesValues_twoNames : ¬ ∀ (parse : CString → Option (List Xml.Call))
    (hostname xml : CString) (cls : DataClass) (node : Node) (name : CString)
    (texts : List CString), ¬ IsFalse xml → parse (clean xml) = some node.calls →
      node.Repeats cls name texts → GivesValues parse hostname cls xml name texts := by
  intro h
  obtain ⟨d, hd, hgives⟩ := h Xml.read (ascii "host")
    (ascii "<event><name>a</name><name>b</name></event>") .event twoNames (ascii "name") _
    (by decide +kernel) (by decide +kernel) repeats_twoNames
  have hread : ((Data.new .event).deserialize Xml.read (ascii "host")
      (ascii "<event><name>a</name><name>b</name></event>")).map
        (fun d => (d.values (ascii "name"), d.pools.length)) = some ([ascii "ab"], 0) := by
    decide +kernel
  rw [hd] at hread
  obtain ⟨hvalues, hpools⟩ := Prod.mk.inj (Option.some.inj hread)
  refine hgives (Data.all_iff.mpr ⟨?_, fun p hp => ?_⟩)
  · rw [hvalues]
    decide +kernel
  · rw [List.length_eq_zero_iff.mp hpools] at hp
    exact absurd hp List.not_mem_nil

end Deserialize

end Peep
