import Peep.Server.XmlNotice

/-!
# The two formats of a notice

What a client says in a notice should reach the engine in the same way in both formats: as the bytes
of an `EVENT` or as a document.

Both formats lose the type. A notice has a word for it, and the number that the server reads in the
word, in either format, is zero, which is the type `event`. A document without a sound has no text
in its element, and the server then enqueues an `EVENT` that it has not written. A name whose length
is not an `int`, or is the greatest one, does not arrive as the bytes of an `EVENT`.

## Choices

The document is handed to the parser whole (`serverProcessClientEventPacket_xml` has the packets
where it is). expat is taken to report each text in one call, and blanks in any number of calls.

## Main results

* `binary_iff` — the notices that arrive as the bytes of an `EVENT`
* `xml_iff` — the notices that arrive as a document
* `agree_iff` — the notices that arrive in both formats
-/

namespace Peep

open Bytes Decimal

/-- In both formats the server enqueues the event that the notice says, whatever the length in the
header of the packet and in the memory for the event. -/
def Agree (expat : List UInt8 → List XmlCall) (v : NoticeValues) : Prop :=
  ∀ (len : Int32) (memory : Event),
    serverProcessClientEventPacket (sendout v.toNotice false).1 len (sendout v.toNotice false).2
      = some [.event v.event] ∧
    serverProcessClientEvent expat memory (.xml (sendout v.toNotice true).2) = some v.event

variable {v : NoticeValues} {n : Notice} {m : NOTICE} {a : Attribute} {len : Int32}
  {out : List ClientEvent} {expat : List UInt8 → List XmlCall}

/-! ## The bytes of an event -/

theorem NoticeValues.zero_notMem_sound (v : NoticeValues) : (0 : UInt8) ∉ v.sound :=
  fun h => absurd (v.isNameChar_of_mem 0 h) (by decide)

theorem toInt_ofInt_length (h : v.sound.length < 2 ^ 31) :
    (Int32.ofInt v.sound.length).toInt = v.sound.length :=
  Int32.toInt_ofInt_of_le (by omega) (by omega)

theorem soundLen_getContentEvent (v : NoticeValues) :
    soundLen (getContentEvent v.toNotice) = Int32.ofInt v.sound.length := by
  rw [getContentEvent_toNotice, ← toInt32_ofInt, List.append_assoc]
  exact wordAt_wordBytes ([0, v.location, v.priority, v.volume, v.dither, 0, 0, 0] ++
    wordBytes (UInt32.ofInt v.flags)) v.sound _

theorem flags_getContentEvent (v : NoticeValues) :
    wordAt (getContentEvent v.toNotice) 8 = Int32.ofInt v.flags := by
  rw [getContentEvent_toNotice, ← toInt32_ofInt, List.append_assoc, List.append_assoc]
  exact wordAt_wordBytes [0, v.location, v.priority, v.volume, v.dither, 0, 0, 0] _ _

/-- What is decoded of the bytes, with `k` characters of the name. -/
theorem eventOfFields_getContentEvent (v : NoticeValues) (k : ℕ) :
    eventOfFields ((getContentEvent v.toNotice).take EVENT_FIXED)
        (((getContentEvent v.toNotice).drop EVENT_FIXED).take k)
      = { v.event with type := 0, sound := some (untilZero (v.sound.take k)) } := by
  have hflags : wordAt ((getContentEvent v.toNotice).take EVENT_FIXED) 8 = Int32.ofInt v.flags := by
    rw [wordAt_take (by decide), flags_getContentEvent]
  have hlen : wordAt ((getContentEvent v.toNotice).take EVENT_FIXED) 12
      = Int32.ofInt v.sound.length := by
    rw [wordAt_take (by decide)]
    exact soundLen_getContentEvent v
  rw [eventOfFields, hflags, hlen, getContentEvent_toNotice]
  rfl

/-- **The notices that arrive as the bytes of an `EVENT`.** -/
theorem binary_iff :
    serverProcessClientEventPacket PROT_CONTENT_EVENT len (getContentEvent v.toNotice)
        = some [.event v.event] ↔
      v.type = .event ∧ v.sound.length + 1 < 2 ^ 31 := by
  have hlength : (getContentEvent v.toNotice).length = EVENT_FIXED + v.sound.length := by
    rw [getContentEvent_toNotice, List.length_append]
    rfl
  rw [serverProcessClientEventPacket_event_eq_some_iff, soundLen_getContentEvent,
    eventOfFields_getContentEvent, Malformed, NameFits, hlength, soundLen_getContentEvent]
  constructor
  · rintro ⟨⟨-, hfits⟩, hout⟩
    have hevent := ClientEvent.event.inj (List.singleton_inj.mp hout)
    constructor
    · have htype : v.type.number = 0 := congrArg Event.type hevent
      rcases hv : v.type
      · rfl
      · rw [hv] at htype
        exact absurd htype (by decide)
    · -- a length that does not fit is negative or too small
      have hsound : v.sound = untilZero (v.sound.take (Int32.ofInt v.sound.length).toInt.toNat) :=
        Option.some.inj (congrArg Event.sound hevent)
      have hle := (untilZero_isPrefix
        (v.sound.take (Int32.ofInt v.sound.length).toInt.toNat)).length_le
      rw [← hsound, List.length_take] at hle
      omega
  · rintro ⟨htype, hlong⟩
    rw [toInt_ofInt_length (by omega), Int.toNat_natCast, List.take_length,
      untilZero_eq_self v.zero_notMem_sound]
    refine ⟨by omega, ?_⟩
    have hevent : v.event = { v.event with type := 0, sound := some v.sound } := by
      rw [NoticeValues.event, htype]
      rfl
    rw [← hevent]

/-! ## The document -/

/-- A digit is a character of names. -/
theorem isNameChar_of_isDigit {c : UInt8} (hc : isDigit c = true) : isNameChar c = true := by
  grind [isDigit, isNameChar]

/-- A number is written in characters of names. -/
theorem isNameChar_of_mem_decimal {k : ℤ} {c : UInt8} (hc : c ∈ decimal k) :
    isNameChar c = true := by
  rcases isDigit_or_of_mem_decimal hc with hdigit | rfl
  · exact isNameChar_of_isDigit hdigit
  · rfl

theorem isNameChar_of_mem_word {t : NoticeType} {c : UInt8} (hc : c ∈ t.word) :
    isNameChar c = true := by
  have hall : t.word.all isNameChar = true := by cases t <;> rfl
  exact List.all_eq_true.mp hall c hc

/-- `strtol` reads a number in decimal. -/
theorem strtol_decimal {k : ℤ} (hge : -2 ^ 63 ≤ k) (hlt : k < 2 ^ 63) : strtol (decimal k) = k := by
  rw [strtol, (isNumeral_decimal k).dropWhile_isspace, leadingInt_decimal]
  omega

theorem toUChar_atoiUChar_decimal (u : UInt8) : toUChar (atoiUChar (decimal u.toNat)) = u := by
  have hu := u.toNat_lt
  have hconv : ∀ u : UInt8, toUChar (Int32.ofInt u.toNat) = u := by
    intro u
    have hu := u.toNat_lt
    rw [toUChar, Int32.toInt_ofInt_of_le (by omega) (by omega)]
    exact ofInt_toNat u
  rw [atoiUChar, atoi, strtol_decimal (by omega) (by omega), hconv, hconv]

theorem toUChar_atoiUChar_word (t : NoticeType) : toUChar (atoiUChar t.word) = 0 := by
  cases t <;> decide

/-- What a notice says is text. -/
theorem NoticeValues.isTextChar_toNotice (v : NoticeValues) {w : Scalar}
    (hw : v.toNotice a = some w) {c : UInt8} (hc : c ∈ w.text) : isTextChar c = true := by
  have hname : isNameChar c = true → isTextChar c = true := by
    intro h
    rw [isTextChar, h]
    rfl
  have hint : ∀ k, w = .int k → isTextChar c = true := by
    rintro k rfl
    exact hname (isNameChar_of_mem_decimal hc)
  cases a
  case dither | flags | location | priority | volume => exact hint _ (Option.some.inj hw).symm
  case sound =>
    obtain rfl := Option.some.inj hw
    exact hname (v.isNameChar_of_mem c hc)
  case type =>
    obtain rfl := Option.some.inj hw
    exact hname (isNameChar_of_mem_word hc)
  case client | data | date | host | level | metric => exact v.isTextChar_of_mem _ w hw c hc

/-- There is no zero in a document. -/
theorem zero_notMem_serialize (h : ∀ a w, n a = some w → (0 : UInt8) ∉ w.text) :
    (0 : UInt8) ∉ serialize n := by
  have hname : ∀ a : Attribute, (0 : UInt8) ∉ a.name := by
    intro a
    cases a <;> decide
  have hattribute : ∀ a, (0 : UInt8) ∉ serializeAttribute n a := by
    intro a
    rcases hw : n a with - | w
    · rw [serializeAttribute, hw]
      exact List.not_mem_nil
    · have htext := h a w hw
      rw [serializeAttribute, hw]
      simp only [List.mem_append, not_or]
      split_ifs
      · simp only [List.mem_append, not_or]
        exact ⟨⟨⟨⟨⟨⟨by decide, hname a⟩, by decide⟩, ⟨⟨by decide, htext⟩, by decide⟩⟩, by decide⟩,
          hname a⟩, by decide⟩
      · exact ⟨⟨⟨⟨⟨⟨by decide, hname a⟩, by decide⟩, htext⟩, by decide⟩, hname a⟩, by decide⟩
  rw [serialize, List.mem_append, List.mem_append, List.mem_flatMap]
  rintro ((h0 | ⟨a, -, h0⟩) | h0)
  · exact absurd h0 (by decide)
  · exact hattribute a h0
  · exact absurd h0 (by decide)

/-- The document of a notice as it is parsed. -/
theorem untilZero_document (v : NoticeValues) :
    untilZero (serialize v.toNotice ++ EOL) = serialize v.toNotice ++ EOL := by
  refine untilZero_eq_self fun h0 => ?_
  rcases List.mem_append.mp h0 with h0 | h0
  · refine zero_notMem_serialize (fun a w hw h0 => ?_) h0
    exact absurd (v.isTextChar_toNotice hw h0) (by decide)
  · exact absurd h0 (by decide)

/-- **What the server makes of the document.** -/
theorem serverProcessClientEvent_document (memory : Event)
    (h : Reports (expat (serialize v.toNotice ++ EOL)) (noticeTokens v.toNotice)) :
    serverProcessClientEvent expat memory (.xml (serialize v.toNotice ++ EOL))
      = some (if v.sound = [] then memory else { v.event with type := 0 }) := by
  obtain ⟨info, hcalls, hfilled⟩ := foldlM_call ⟨noticeCreateNotice, none⟩ h
  have hmem : ∀ b : Attribute, b ∈ Attribute.sorted := by
    intro b
    cases b <;> decide
  have hslot : ∀ b w, v.toNotice b = some w → (∀ c ∈ w.text, isNameChar c = true) →
      w.text ≠ [] → info.notice.slot b = slotOf w.text b := by
    intro b w hw hname hne
    rw [hfilled.slot_of_mem b (hmem b) w hw hname, if_neg hne]
  have hint : ∀ b k, v.toNotice b = some (.int k) →
      info.notice.slot b = slotOf (decimal k) b := fun b k hk =>
    hslot b _ hk (fun c => isNameChar_of_mem_decimal) (decimal_ne_nil k)
  rw [serverProcessClientEvent, untilZero_document, xmlParseClientEvent, hcalls]
  show some (serverConvertNoticeToEngineEvent memory info.notice) = _
  rw [serverConvertNoticeToEngineEvent]
  by_cases hsound : v.sound = []
  · have hnone : info.notice.slot .sound = .inl none := by
      rw [hfilled.slot_of_mem .sound (hmem _) (.str v.sound) rfl v.isNameChar_of_mem]
      exact if_pos hsound
    rw [Sum.inl.inj hnone, if_pos hsound]
  · have hsome : info.notice.sound = some v.sound :=
      Sum.inl.inj (hslot .sound (.str v.sound) rfl v.isNameChar_of_mem hsound)
    have htype : info.notice.type = atoiUChar v.type.word :=
      Sum.inr.inj (hslot .type (.str v.type.word) rfl (fun c => isNameChar_of_mem_word)
        (by cases v.type <;> decide))
    have hlocation : info.notice.location = _ := Sum.inr.inj (hint .location _ rfl)
    have hpriority : info.notice.priority = _ := Sum.inr.inj (hint .priority _ rfl)
    have hvolume : info.notice.volume = _ := Sum.inr.inj (hint .volume _ rfl)
    have hdither : info.notice.dither = _ := Sum.inr.inj (hint .dither _ rfl)
    have hflags : info.notice.flags = atoi (decimal v.flags) := Sum.inr.inj (hint .flags _ rfl)
    have hrange := v.flags_range
    rw [hsome, if_neg hsound]
    show some (Event.mk _ _ _ _ _ _ _ _) = _
    rw [htype, hlocation, hpriority, hvolume, hdither, hflags, toUChar_atoiUChar_word,
      toUChar_atoiUChar_decimal, toUChar_atoiUChar_decimal, toUChar_atoiUChar_decimal,
      toUChar_atoiUChar_decimal, atoi, strtol_decimal (by omega) (by omega)]
    rfl

/-- **The notices that arrive as a document.** -/
theorem xml_iff (h : Reports (expat (serialize v.toNotice ++ EOL)) (noticeTokens v.toNotice)) :
    (∀ memory, serverProcessClientEvent expat memory (.xml (serialize v.toNotice ++ EOL))
        = some v.event) ↔
      v.type = .event ∧ v.sound ≠ [] := by
  simp only [serverProcessClientEvent_document _ h, Option.some.injEq]
  constructor
  · intro hall
    have hsound : v.sound ≠ [] := by
      intro hnil
      have hmemory := hall { v.event with dither := v.event.dither + 1 }
      rw [if_pos hnil] at hmemory
      have hdither : v.event.dither + 1 = v.event.dither := congrArg Event.dither hmemory
      simp at hdither
    have hevent := hall v.event
    rw [if_neg hsound] at hevent
    have htype : 0 = v.type.number := congrArg Event.type hevent
    refine ⟨?_, hsound⟩
    rcases hv : v.type
    · rfl
    · rw [hv] at htype
      exact absurd htype (by decide)
  · rintro ⟨htype, hsound⟩ memory
    rw [if_neg hsound, NoticeValues.event, htype]
    rfl

/-- **The notices that arrive in both formats.** -/
theorem agree_iff (h : Reports (expat (serialize v.toNotice ++ EOL)) (noticeTokens v.toNotice)) :
    Agree expat v ↔ v.type = .event ∧ v.sound ≠ [] ∧ v.sound.length + 1 < 2 ^ 31 := by
  have hparts : Agree expat v ↔
      (∀ len, serverProcessClientEventPacket PROT_CONTENT_EVENT len (getContentEvent v.toNotice)
        = some [.event v.event]) ∧
      ∀ memory, serverProcessClientEvent expat memory (.xml (serialize v.toNotice ++ EOL))
        = some v.event :=
    ⟨fun hagree => ⟨fun len => (hagree len v.event).1, fun memory => (hagree 0 memory).2⟩,
      fun hboth len memory => ⟨hboth.1 len, hboth.2 memory⟩⟩
  rw [hparts, xml_iff h]
  simp only [binary_iff]
  constructor
  · rintro ⟨hbinary, htype, hsound⟩
    exact ⟨htype, hsound, (hbinary 0).2⟩
  · rintro ⟨htype, hsound, hlong⟩
    exact ⟨fun _ => ⟨htype, hlong⟩, htype, hsound⟩

/-- A packet hands the parser the whole document, if its length fits into the header. -/
theorem serverProcessClientEventPacket_xml {body : List UInt8} (h : body.length < 2 ^ 31) :
    serverProcessClientEventPacket PROT_CONTENT_XML (Int32.ofInt body.length) body
      = some [.xml body] := by
  have hlen : (Int32.ofInt body.length).toInt = body.length :=
    Int32.toInt_ofInt_of_le (by omega) (by omega)
  rw [serverProcessClientEventPacket_xml_eq_some_iff, hlen, Int.toNat_natCast, List.take_length]
  exact ⟨by omega, rfl⟩

/-- expat on a document of elements without attributes: `inTag` between the brackets of a tag, with
what has been read of it or of a text in `acc`. -/
def plainExpatLoop : List UInt8 → Bool → List UInt8 → List XmlCall
  | [], _, _ => []
  | c :: rest, false, acc =>
    if c = 60 then
      (if acc = [] then [] else [⟨.text acc, c :: rest⟩]) ++ plainExpatLoop rest true []
    else plainExpatLoop rest false (acc ++ [c])
  | c :: rest, true, acc =>
    if c = 62 then
      ⟨if acc.head? = some 47 then .stop acc.tail else .start acc, rest⟩ ::
        plainExpatLoop rest false []
    else plainExpatLoop rest true (acc ++ [c])

/-- expat on such a document, with blanks behind its root. -/
def plainExpat (doc : List UInt8) : List XmlCall := plainExpatLoop doc false []

/-- A notice with the sound `a`. -/
def sampleValues (t : NoticeType) : NoticeValues where
  type := t
  location := 128
  priority := 1
  volume := 200
  dither := 0
  flags := 0
  flags_range := by decide
  sound := [97]
  isNameChar_of_mem := List.forall_mem_singleton.mpr rfl
  other := fun _ => none
  isTextChar_of_mem := nofun

/-- A notice of an event. -/
theorem agree_event : Agree plainExpat (sampleValues .event) :=
  (agree_iff ⟨by decide, by decide⟩).mpr ⟨rfl, by decide, by decide⟩

/-- A notice of a state. -/
theorem not_agree_state :
    Reports (plainExpat (serialize (sampleValues .state).toNotice ++ EOL))
        (noticeTokens (sampleValues .state).toNotice) ∧
      ¬ Agree plainExpat (sampleValues .state) := by
  refine ⟨⟨by decide, by decide⟩, fun hagree => ?_⟩
  have htype := (binary_iff.mp (hagree 0 (sampleValues .state).event).1).1
  exact absurd htype (by decide)

end Peep
