import Peep.Client.Numbers

/-!
# Notices

A notice (`Net::Peep::Data::Notice`) is what a client tells the server: a hash of attributes. It is
sent in one of two formats (`sendout` of `Net::Peep::BC`). To a UDP server go the bytes of an
`EVENT` (`getContentEvent`), to a TCP server a document (`serialize` of `Net::Peep::Data`).

The type of a notice is the word `event` or `state`. `send` turns it into a number, but into a
variable that is not used; `getContentEvent` packs the word as it is, and `serialize` writes it
into the document.

## Choices

An attribute is an integer of 64 bits or a string, and not an array (which it becomes when it is read
twice from a document). The length of an undefined string is zero. `pack` dies of a number that is
infinite or none at all; there are no such numbers here (`Peep.Client.Numbers`).

## Main results

* `getContentEvent_toNotice` — the bytes of a notice
-/

namespace Peep

open Bytes Decimal

/-! ## Notices -/

/-- The attributes of a notice. -/
inductive Attribute
  | client
  | data
  | date
  | dither
  | flags
  | host
  | level
  | location
  | metric
  | priority
  | sound
  | type
  | volume
  deriving DecidableEq

/-- The name of an attribute. -/
def Attribute.name : Attribute → CString
  | .client => ascii "client"
  | .data => ascii "data"
  | .date => ascii "date"
  | .dither => ascii "dither"
  | .flags => ascii "flags"
  | .host => ascii "host"
  | .level => ascii "level"
  | .location => ascii "location"
  | .metric => ascii "metric"
  | .priority => ascii "priority"
  | .sound => ascii "sound"
  | .type => ascii "type"
  | .volume => ascii "volume"

/-- `sort keys` of the attributes. -/
def Attribute.sorted : List Attribute :=
  [.client, .data, .date, .dither, .flags, .host, .level, .location, .metric, .priority, .sound,
    .type, .volume]

/-- The attributes with the value `CDATA`. -/
def Attribute.isCDATA (a : Attribute) : Bool := a = .data

/-- A Perl scalar. -/
inductive Scalar
  | int (n : ℤ)
  | str (s : CString)

/-- The string that a scalar is. -/
def Scalar.text : Scalar → CString
  | .int n => decimal n
  | .str s => s

/-- The number that a scalar is. -/
def Scalar.number : Scalar → ℤ
  | .int n => n
  | .str s => (numberOf s).toInteger

/-- A string that is false in Perl. -/
def IsFalse (s : CString) : Prop := s = [] ∨ s = ascii "0"

instance (s : CString) : Decidable (IsFalse s) := inferInstanceAs (Decidable (_ ∨ _))

/-- `Net::Peep::Data::Notice`: the attributes that are defined. -/
abbrev Notice := Attribute → Option Scalar

/-- `pack ("C", ...)`. -/
def packC (v : Option Scalar) : UInt8 := UInt8.ofInt ((v.map Scalar.number).getD 0)

/-- `pack ("N", ...)`. -/
def packN (v : Option Scalar) : List UInt8 :=
  wordBytes (UInt32.ofInt ((v.map Scalar.number).getD 0))

/-- `getContentEvent`. -/
def getContentEvent (n : Notice) : List UInt8 :=
  let sound := ((n .sound).map Scalar.text).getD []
  let len := sound.length
  [packC (n .type), packC (n .location), packC (n .priority), packC (n .volume),
    packC (n .dither), 0, 0, 0] ++ packN (n .flags) ++ packN (some (.int len)) ++ sound

/-- The lines of an attribute in `serialize`. -/
def serializeAttribute (n : Notice) (a : Attribute) : List UInt8 :=
  match n a with
  | none => []
  | some v =>
    ascii "  <" ++ a.name ++ ascii ">" ++
      (if a.isCDATA then ascii "<![CDATA[" ++ v.text ++ ascii "]]>" else v.text) ++
      ascii "</" ++ a.name ++ ascii ">\n"

/-- `serialize`. -/
def serialize (n : Notice) : List UInt8 :=
  ascii "<notice>\n" ++ Attribute.sorted.flatMap (serializeAttribute n) ++ ascii "</notice>\n"

/-- `$eol`. -/
def EOL : List UInt8 := [13, 10]

/-- `sendout`: the `content` of the header, and the body. -/
def sendout (n : Notice) (tcp : Bool) : UInt8 × List UInt8 :=
  if tcp then (PROT_CONTENT_XML, serialize n ++ EOL) else (PROT_CONTENT_EVENT, getContentEvent n)

/-! ## What a notice says -/

/-- The type of a notice. -/
inductive NoticeType
  | event
  | state
  deriving DecidableEq

/-- The word for a type. -/
def NoticeType.word : NoticeType → CString
  | .event => ascii "event"
  | .state => ascii "state"

/-- The type of an `EVENT`. -/
def NoticeType.number : NoticeType → UInt8
  | .event => EVENT_T
  | .state => STATE_T

/-- A character of the name of a sound: a letter, a digit or punctuation, and no markup. -/
def isNameChar (c : UInt8) : Bool := 33 ≤ c && c ≤ 126 && c ≠ 60 && c ≠ 62 && c ≠ 38

/-- A character of a text without markup. -/
def isTextChar (c : UInt8) : Bool := isNameChar c || c = 32 || c = 10 || c = 9

/-- What a notice says. -/
structure NoticeValues where
  /-- The type. -/
  type : NoticeType
  /-- The stereo location. -/
  location : UInt8
  /-- The priority. -/
  priority : UInt8
  /-- The volume. -/
  volume : UInt8
  /-- The dither. -/
  dither : UInt8
  /-- The flags. -/
  flags : ℤ
  /-- The flags have 32 bits, with or without a sign. -/
  flags_range : -2 ^ 31 ≤ flags ∧ flags < 2 ^ 32
  /-- The name of the sound. -/
  sound : CString
  /-- It has no other characters than those of names. -/
  isNameChar_of_mem : ∀ c ∈ sound, isNameChar c = true
  /-- The attributes that are not in an `EVENT`. -/
  other : Attribute → Option Scalar
  /-- They are text. -/
  isTextChar_of_mem : ∀ a w, other a = some w → ∀ c ∈ w.text, isTextChar c = true

variable {v : NoticeValues}

/-- The notice that says it. -/
def NoticeValues.toNotice (v : NoticeValues) : Notice
  | .type => some (.str v.type.word)
  | .location => some (.int v.location.toNat)
  | .priority => some (.int v.priority.toNat)
  | .volume => some (.int v.volume.toNat)
  | .dither => some (.int v.dither.toNat)
  | .flags => some (.int v.flags)
  | .sound => some (.str v.sound)
  | a => v.other a

/-- The event that the server should make of it. -/
def NoticeValues.event (v : NoticeValues) : Event where
  type := v.type.number
  loc := v.location
  prior := v.priority
  vol := v.volume
  dither := v.dither
  flags := Int32.ofInt v.flags
  soundLen := Int32.ofNat v.sound.length
  sound := some v.sound

/-! ## Packing -/

/-- The word for a type is no number. -/
theorem toInteger_numberOf_word (t : NoticeType) : (numberOf t.word).toInteger = 0 := by
  cases t <;> decide +kernel

theorem ofInt_toNat (u : UInt8) : UInt8.ofInt (u.toNat : ℤ) = u := by
  have hu := u.toNat_lt
  apply UInt8.toNat_inj.mp
  rw [UInt8.ofInt, UInt8.toNat_ofNat', Int.emod_eq_of_lt (by omega) (by omega), Int.toNat_natCast]
  omega

theorem toInt32_ofInt (n : ℤ) : (UInt32.ofInt n).toInt32 = Int32.ofInt n := by
  apply Int32.toBitVec_inj.mp
  show BitVec.ofNat 32 (n % 2 ^ 32).toNat = BitVec.ofInt 32 n
  apply BitVec.eq_of_toNat_eq
  rw [BitVec.toNat_ofNat, BitVec.toNat_ofInt]
  omega

/-- **The bytes of a notice.** Whatever its type, the first of them is zero. -/
theorem getContentEvent_toNotice (v : NoticeValues) :
    getContentEvent v.toNotice
      = [0, v.location, v.priority, v.volume, v.dither, 0, 0, 0] ++
          wordBytes (UInt32.ofInt v.flags) ++ wordBytes (UInt32.ofInt v.sound.length) ++
          v.sound := by
  have hint : ∀ u : UInt8, packC (some (.int u.toNat)) = u := ofInt_toNat
  have htype : packC (some (.str v.type.word)) = 0 := by
    show UInt8.ofInt (numberOf _).toInteger = 0
    rw [toInteger_numberOf_word]
    rfl
  show [packC (some (.str v.type.word)), packC (some (.int v.location.toNat)),
    packC (some (.int v.priority.toNat)), packC (some (.int v.volume.toNat)),
    packC (some (.int v.dither.toNat)), 0, 0, 0] ++ _ ++ _ ++ _ = _
  rw [htype, hint, hint, hint, hint]
  rfl

end Peep
