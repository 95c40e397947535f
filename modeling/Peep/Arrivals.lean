import Mathlib.Data.List.Nodup
import Peep.Formats

/-!
# What arrives of a notice

`Peep.Formats` is about notices whose type is a word. The clients of the package put a number there
(`$notice->type (0)` in `logparser`, `$notice->type (1)` in `sysmonitor`), and they do not fill in
every attribute. This module says for every such notice which event the engine hears, in both
formats.

A number that is given arrives as its lowest byte in either format. The formats differ in what is
not given: `pack` makes a zero of an undefined value, while the `NOTICE` of the server begins with
`-1` in each field, of which the lowest byte is `255`. So a notice without a priority is the most
urgent one when it is sent to a UDP server, and the least urgent one at a TCP server.

## Choices

As in `Peep.Client.Notice` and `Peep.Server.XmlNotice`. A notice is plain if its numbers and its
sound are words without markup, the other attributes are text without markup, and each number is
written in digits and fits into a `long`, or is one of the words for a type.

## Main results

* `serverProcessClientEventPacket_getContentEvent` — what arrives as the bytes of an `EVENT`
* `serverProcessClientEvent_serialize` — what arrives as a document
* `sameEvent_iff` — the notices of which the same event arrives in both formats
-/

namespace Peep

open Bytes Decimal

/-! ## Plain notices -/

/-- The attributes that are bytes in an `EVENT`. -/
def Attribute.bytes : List Attribute := [.type, .location, .priority, .volume, .dither]

/-- The attributes that the server reads for an event. -/
def Attribute.isRead (a : Attribute) : Prop := a ∈ Attribute.bytes ∨ a = .flags ∨ a = .sound

/-- The name of the sound of a notice. -/
def Notice.sound (n : Notice) : CString := ((n .sound).map Scalar.text).getD []

/-- The text of a number that both formats can say: digits, for a number that fits into a `long`,
or a word for a type. -/
def IsPlainNumber (s : CString) : Prop :=
  (IsNumeral s ∧ -2 ^ 63 ≤ leadingInt s ∧ leadingInt s < 2 ^ 63) ∨ ∃ ty : NoticeType, s = ty.word

/-- What the clients put into a notice. -/
structure Plain (n : Notice) : Prop where
  /-- What is read for the event is a word. -/
  isNameChar_of_mem : ∀ a, a.isRead → ∀ w, n a = some w → ∀ c ∈ w.text, isNameChar c = true
  /-- The rest is text. -/
  isTextChar_of_mem : ∀ a w, n a = some w → ∀ c ∈ w.text, isTextChar c = true
  /-- The numbers are written in digits. -/
  isPlainNumber : ∀ a, a ∈ Attribute.bytes ∨ a = .flags → ∀ w, n a = some w → IsPlainNumber w.text
  /-- The size of the sound is an `int`. -/
  sound_length : n.sound.length + 1 < 2 ^ 31

/-- A notice is plain with a word for its type. -/
theorem Plain.update_word {n : Notice} (hn : Plain n) (ty : NoticeType) :
    Plain (Function.update n .type (some (.str ty.word))) := by
  have hname : ∀ c ∈ ty.word, isNameChar c = true := fun c hc => isNameChar_of_mem_word hc
  have hcases : ∀ a w, Function.update n .type (some (.str ty.word)) a = some w →
      (a = .type ∧ w = .str ty.word) ∨ n a = some w := by
    intro a w hw
    by_cases ha : a = .type
    · subst ha
      simp only [Function.update_self, Option.some.injEq] at hw
      exact .inl ⟨rfl, hw.symm⟩
    · rw [Function.update_of_ne ha] at hw
      exact .inr hw
  refine ⟨fun a hread w hw => ?_, fun a w hw => ?_, fun a hbyte w hw => ?_, hn.sound_length⟩
  · obtain ⟨rfl, rfl⟩ | hw := hcases a w hw
    · exact hname
    · exact hn.isNameChar_of_mem a hread w hw
  · obtain ⟨rfl, rfl⟩ | hw := hcases a w hw
    · intro c hc
      rw [isTextChar, hname c hc]
      rfl
    · exact hn.isTextChar_of_mem a w hw
  · obtain ⟨rfl, rfl⟩ | hw := hcases a w hw
    · exact .inr ⟨ty, rfl⟩
    · exact hn.isPlainNumber a hbyte w hw

/-- An attribute is given, and not as an empty string. -/
def Notice.Given (n : Notice) (a : Attribute) : Prop := ∃ w, n a = some w ∧ w.text ≠ []

/-! ## What is heard -/

/-- The byte that the server has for an attribute of a document. -/
def xmlByte : Option Scalar → UInt8
  | none => 255
  | some w => if w.text = [] then 255 else UInt8.ofInt w.number

/-- The event that is heard if the attributes become bytes in that way. -/
def Notice.heard (byte : Option Scalar → UInt8) (n : Notice) : Event where
  type := byte (n .type)
  loc := byte (n .location)
  prior := byte (n .priority)
  vol := byte (n .volume)
  dither := byte (n .dither)
  flags := Int32.ofInt (((n .flags).map Scalar.number).getD 0)
  soundLen := Int32.ofNat n.sound.length
  sound := some n.sound

variable {n : Notice} {a : Attribute} {w : Scalar} {len : Int32} {memory : Event}
  {expat : List UInt8 → List XmlCall}

/-- Two ways to make bytes of the attributes that give the same event agree on each. -/
theorem heard_inj {byte byte' : Option Scalar → UInt8} :
    n.heard byte = n.heard byte' ↔ ∀ a ∈ Attribute.bytes, byte (n a) = byte' (n a) := by
  constructor
  · intro h
    simp only [Attribute.bytes, List.forall_mem_cons, List.not_mem_nil, false_implies,
      implies_true, and_true]
    exact ⟨congrArg Event.type h, congrArg Event.loc h, congrArg Event.prior h,
      congrArg Event.vol h, congrArg Event.dither h⟩
  · intro h
    simp only [Attribute.bytes, List.forall_mem_cons, List.not_mem_nil, false_implies,
      implies_true, and_true] at h
    obtain ⟨htype, hloc, hprior, hvol, hdither⟩ := h
    simp only [Notice.heard, htype, hloc, hprior, hvol, hdither]

theorem Plain.isNameChar_sound (hn : Plain n) {c : UInt8} (hc : c ∈ n.sound) :
    isNameChar c = true := by
  rw [Notice.sound] at hc
  cases hs : n .sound with
  | none => simp [hs] at hc
  | some w => exact hn.isNameChar_of_mem .sound (.inr (.inr rfl)) w hs c (by simpa [hs] using hc)

theorem Plain.zero_notMem_sound (hn : Plain n) : (0 : UInt8) ∉ n.sound :=
  fun h => absurd (hn.isNameChar_sound h) (by decide)

theorem toInt_ofNat_length {s : CString} (h : s.length < 2 ^ 31) :
    (Int32.ofInt s.length).toInt = s.length :=
  Int32.toInt_ofInt_of_le (by omega) (by omega)

/-! ## The bytes of an `EVENT` -/

theorem getContentEvent_eq (n : Notice) : getContentEvent n
    = [packC (n .type), packC (n .location), packC (n .priority), packC (n .volume),
        packC (n .dither), 0, 0, 0] ++ packN (n .flags) ++
        wordBytes (UInt32.ofInt n.sound.length) ++ n.sound := rfl

theorem length_getContentEvent (n : Notice) :
    (getContentEvent n).length = EVENT_FIXED + n.sound.length := by
  rw [getContentEvent_eq, List.length_append]
  rfl

theorem soundLen_of_getContentEvent (n : Notice) :
    soundLen (getContentEvent n) = Int32.ofInt n.sound.length := by
  rw [getContentEvent_eq, ← toInt32_ofInt, List.append_assoc]
  exact wordAt_wordBytes (_ ++ packN (n .flags)) n.sound _

theorem flags_of_getContentEvent (n : Notice) : wordAt (getContentEvent n) 8
    = Int32.ofInt (((n .flags).map Scalar.number).getD 0) := by
  rw [getContentEvent_eq, ← toInt32_ofInt, List.append_assoc, List.append_assoc]
  exact wordAt_wordBytes [packC (n .type), packC (n .location), packC (n .priority),
    packC (n .volume), packC (n .dither), 0, 0, 0] _ _

/-- **What arrives as the bytes of an `EVENT`.** What is not given is zero. -/
theorem serverProcessClientEventPacket_getContentEvent (hn : Plain n) :
    serverProcessClientEventPacket PROT_CONTENT_EVENT len (getContentEvent n)
      = some [.event (n.heard packC)] := by
  have hsize := hn.sound_length
  have hlen := toInt_ofNat_length (show n.sound.length < 2 ^ 31 by omega)
  rw [serverProcessClientEventPacket_event_eq_some_iff, Malformed, NameFits,
    length_getContentEvent, soundLen_of_getContentEvent, hlen, Int.toNat_natCast]
  refine ⟨by omega, ?_⟩
  have hflags : wordAt ((getContentEvent n).take EVENT_FIXED) 8
      = Int32.ofInt (((n .flags).map Scalar.number).getD 0) := by
    rw [wordAt_take (by decide), flags_of_getContentEvent]
  have hsoundLen : wordAt ((getContentEvent n).take EVENT_FIXED) 12
      = Int32.ofInt n.sound.length := by
    rw [wordAt_take (by decide)]
    exact soundLen_of_getContentEvent n
  have hname : ((getContentEvent n).drop EVENT_FIXED).take n.sound.length = n.sound := by
    rw [getContentEvent_eq]
    exact List.take_length
  rw [eventOfFields, hflags, hsoundLen, hname, untilZero_eq_self hn.zero_notMem_sound,
    getContentEvent_eq]
  rfl

/-! ## The document -/

theorem leadingInt_word (ty : NoticeType) : leadingInt ty.word = 0 := by
  cases ty <;> decide

/-- The number is the integer that the text begins with. -/
theorem number_eq_leadingInt (h : IsPlainNumber w.text) : w.number = leadingInt w.text := by
  cases w with
  | int k => exact (leadingInt_decimal k).symm
  | str s =>
    obtain ⟨hs, hge, hlt⟩ | ⟨ty, hty⟩ := h
    · exact toInteger_numberOf hs ⟨hge, hlt.trans (by decide)⟩
    · obtain rfl : s = ty.word := hty
      exact (toInteger_numberOf_word ty).trans (leadingInt_word ty).symm

theorem IsPlainNumber.strtol {s : CString} (h : IsPlainNumber s) : strtol s = leadingInt s := by
  obtain ⟨hs, hge, hlt⟩ | ⟨ty, rfl⟩ := h
  · rw [Peep.strtol, hs.dropWhile_isspace]
    omega
  · cases ty <;> decide

/-- `strtol` reads the number that a scalar is. -/
theorem strtol_text (h : IsPlainNumber w.text) : strtol w.text = w.number := by
  rw [h.strtol, number_eq_leadingInt h]

/-- The lowest byte of an `int` is that of the number it was cut from. -/
theorem ofInt_toInt_ofInt (k : ℤ) : UInt8.ofInt (Int32.ofInt k).toInt = UInt8.ofInt k := by
  apply UInt8.toNat_inj.mp
  rw [UInt8.ofInt, UInt8.ofInt, UInt8.toNat_ofNat', UInt8.toNat_ofNat', Int32.toInt_ofInt]
  have hdvd : (2 ^ 8 : ℤ) ∣ 2 ^ 32 := by decide
  have hmod : Int.bmod k (2 ^ 32) % 2 ^ 8 = k % 2 ^ 8 := by
    rw [← Int.emod_emod_of_dvd (Int.bmod k (2 ^ 32)) hdvd, ← Int.emod_emod_of_dvd k hdvd]
    congr 1
    exact Int.bmod_emod
  exact congrArg (fun z : ℤ => z.toNat % 2 ^ 8) hmod

theorem toUChar_atoiUChar_text (h : IsPlainNumber w.text) :
    toUChar (atoiUChar w.text) = UInt8.ofInt w.number := by
  have hbyte : ∀ u : UInt8, toUChar (Int32.ofInt u.toNat) = u := by
    intro u
    rw [toUChar, ofInt_toInt_ofInt]
    exact ofInt_toNat u
  rw [atoiUChar, hbyte, atoi, strtol_text h, toUChar, ofInt_toInt_ofInt]

/-- The attributes that a notice has. -/
def Notice.defined (n : Notice) : List Attribute := Attribute.sorted.filter fun a => (n a).isSome

theorem Notice.mem_defined : a ∈ n.defined ↔ (n a).isSome := by
  have hsorted : a ∈ Attribute.sorted := by cases a <;> decide
  simp [Notice.defined, hsorted]

theorem flatMap_attributeTokens_defined (n : Notice) :
    Attribute.sorted.flatMap (attributeTokens n) = n.defined.flatMap (attributeTokens n) := by
  rw [Notice.defined]
  induction Attribute.sorted with
  | nil => rfl
  | cons a as ih =>
    rw [List.flatMap_cons, ih]
    cases ha : n a with
    | none =>
      rw [List.filter_cons_of_neg (by rw [ha]; exact Bool.false_ne_true), attributeTokens, ha]
      rfl
    | some w => rw [List.filter_cons_of_pos (by rw [ha]; rfl), List.flatMap_cons]

/-- The fields after the calls for the document of a notice. -/
theorem exists_slot (hn : Plain n) (h : Reports (expat (serialize n ++ EOL)) (noticeTokens n)) :
    ∃ info, (expat (serialize n ++ EOL)).foldlM ParseInfo.call ⟨noticeCreateNotice, none⟩
        = some info ∧
      (∀ a, a.isRead → n.Given a → ∀ w, n a = some w → info.notice.slot a = slotOf w.text a) ∧
      ∀ a, a.isRead → ¬ n.Given a → info.notice.slot a = noticeCreateNotice.slot a := by
  obtain ⟨info, hcalls, hfilled⟩ := foldlM_call_of_flatMap ⟨noticeCreateNotice, none⟩ h
    (List.Nodup.filter _ (by decide)) (flatMap_attributeTokens_defined n)
  refine ⟨info, hcalls, ?_, ?_⟩
  · rintro a hread ⟨v, hv, hne⟩ w hw
    obtain rfl := Option.some.inj (hv.symm.trans hw)
    rw [hfilled.slot_of_mem a (Notice.mem_defined.mpr (by simp [hv])) v hv
      (hn.isNameChar_of_mem a hread v hv), if_neg hne]
  · intro a hread hgiven
    cases hv : n a with
    | none =>
      refine hfilled.slot_of_notMem a fun hmem => ?_
      have hsome := Notice.mem_defined.mp hmem
      rw [hv] at hsome
      exact absurd hsome Bool.false_ne_true
    | some w =>
      have hempty : w.text = [] := not_not.mp fun hne => hgiven ⟨w, hv, hne⟩
      rw [hfilled.slot_of_mem a (Notice.mem_defined.mpr (by simp [hv])) w hv
        (hn.isNameChar_of_mem a hread w hv), if_pos hempty]

/-- The byte of a field that is filled. -/
theorem xmlByte_of_given (hw : n a = some w) (hne : w.text ≠ []) :
    xmlByte (n a) = UInt8.ofInt w.number := by
  rw [hw, xmlByte, if_neg hne]

theorem xmlByte_of_not_given (h : ¬ n.Given a) : xmlByte (n a) = 255 := by
  cases hw : n a with
  | none => rfl
  | some w =>
    rw [xmlByte, if_pos]
    exact not_not.mp fun hne => h ⟨w, hw, hne⟩

/-- The field of a byte. -/
def NOTICE.byte (m : NOTICE) (a : Attribute) : UInt8 :=
  match m.slot a with
  | .inl _ => 0
  | .inr k => toUChar k

/-- **The bytes of a document.** -/
theorem byte_eq_xmlByte (hn : Plain n) {m : NOTICE} (ha : a ∈ Attribute.bytes)
    (hgiven : n.Given a → ∀ w, n a = some w → m.slot a = slotOf w.text a)
    (hnot : ¬ n.Given a → m.slot a = noticeCreateNotice.slot a) : m.byte a = xmlByte (n a) := by
  by_cases h : n.Given a
  · obtain ⟨w, hw, hne⟩ := h
    have hslot : slotOf w.text a = .inr (atoiUChar w.text) := by
      simp only [Attribute.bytes, List.mem_cons, List.not_mem_nil, or_false] at ha
      obtain rfl | rfl | rfl | rfl | rfl := ha <;> rfl
    rw [xmlByte_of_given hw hne, NOTICE.byte, hgiven ⟨w, hw, hne⟩ w hw, hslot]
    exact toUChar_atoiUChar_text (hn.isPlainNumber a (.inl ha) w hw)
  · rw [xmlByte_of_not_given h, NOTICE.byte, hnot h]
    simp only [Attribute.bytes, List.mem_cons, List.not_mem_nil, or_false] at ha
    obtain rfl | rfl | rfl | rfl | rfl := ha <;> rfl

theorem Plain.untilZero_document (hn : Plain n) :
    untilZero (serialize n ++ EOL) = serialize n ++ EOL := by
  refine untilZero_eq_self fun h0 => ?_
  obtain h0 | h0 := List.mem_append.mp h0
  · refine zero_notMem_serialize (fun a w hw h0 => ?_) h0
    exact absurd (hn.isTextChar_of_mem a w hw 0 h0) (by decide)
  · exact absurd h0 (by decide)

theorem Notice.given_sound_iff : n.Given .sound ↔ n.sound ≠ [] := by
  rw [Notice.Given, Notice.sound]
  cases n .sound <;> simp

/-- **What arrives as a document.** What is not given is `255`, and without a sound the event is
what was in memory. -/
theorem serverProcessClientEvent_serialize (hn : Plain n) (memory : Event)
    (h : Reports (expat (serialize n ++ EOL)) (noticeTokens n)) :
    serverProcessClientEvent expat memory (.xml (serialize n ++ EOL))
      = some (if n.sound = [] then memory else n.heard xmlByte) := by
  obtain ⟨info, hcalls, hgiven, hnot⟩ := exists_slot hn h
  have hbyte : ∀ a ∈ Attribute.bytes, info.notice.byte a = xmlByte (n a) := fun a ha =>
    byte_eq_xmlByte hn ha (hgiven a (.inl ha)) (hnot a (.inl ha))
  rw [serverProcessClientEvent, hn.untilZero_document, xmlParseClientEvent, hcalls]
  show some (serverConvertNoticeToEngineEvent memory info.notice) = _
  rw [serverConvertNoticeToEngineEvent]
  by_cases hsound : n.sound = []
  · have hnone : info.notice.slot .sound = .inl none :=
      hnot .sound (.inr (.inr rfl)) fun hg => Notice.given_sound_iff.mp hg hsound
    rw [Sum.inl.inj hnone, if_pos hsound]
  · obtain ⟨w, hw, hne⟩ := Notice.given_sound_iff.mpr hsound
    have htext : n.sound = w.text := by rw [Notice.sound, hw]; rfl
    have hsome : info.notice.sound = some n.sound := by
      rw [htext]
      exact Sum.inl.inj (hgiven .sound (.inr (.inr rfl)) ⟨w, hw, hne⟩ w hw)
    have hflags : info.notice.flags = Int32.ofInt (((n .flags).map Scalar.number).getD 0) := by
      by_cases hg : n.Given .flags
      · obtain ⟨v, hv, hvne⟩ := hg
        have hslot : info.notice.flags = atoi v.text :=
          Sum.inr.inj (hgiven .flags (.inr (.inl rfl)) ⟨v, hv, hvne⟩ v hv)
        rw [hslot, atoi, strtol_text (hn.isPlainNumber .flags (.inr rfl) v hv), hv]
        rfl
      · have hslot : info.notice.flags = 0 := Sum.inr.inj (hnot .flags (.inr (.inl rfl)) hg)
        rw [hslot]
        cases hv : n .flags with
        | none => rfl
        | some v =>
          -- an empty string counts as zero
          have hempty : v.text = [] := not_not.mp fun hne => hg ⟨v, hv, hne⟩
          cases v with
          | int k => exact absurd hempty (decimal_ne_nil k)
          | str s =>
            obtain rfl : s = [] := hempty
            rfl
    rw [hsome, if_neg hsound]
    show some (Event.mk (info.notice.byte .type) (info.notice.byte .location)
      (info.notice.byte .priority) (info.notice.byte .volume) (info.notice.byte .dither)
      info.notice.flags _ _) = _
    rw [hbyte _ (by decide), hbyte _ (by decide), hbyte _ (by decide), hbyte _ (by decide),
      hbyte _ (by decide), hflags]
    rfl

/-! ## Both formats -/

/-- A byte is the same in both formats exactly if it is given. -/
theorem xmlByte_eq_packC_iff : xmlByte (n a) = packC (n a) ↔ n.Given a := by
  by_cases h : n.Given a
  · obtain ⟨w, hw, hne⟩ := h
    refine iff_of_true ?_ ⟨w, hw, hne⟩
    rw [xmlByte_of_given hw hne, hw]
    rfl
  · refine iff_of_false ?_ h
    rw [xmlByte_of_not_given h]
    cases hw : n a with
    | none => decide
    | some w =>
      have hempty : w.text = [] := not_not.mp fun hne => h ⟨w, hw, hne⟩
      cases w with
      | int k => exact absurd hempty (decimal_ne_nil k)
      | str s =>
        obtain rfl : s = [] := hempty
        decide

/-- **The same event arrives in both formats** exactly if every byte of it is given. -/
theorem heard_eq_iff : n.heard xmlByte = n.heard packC ↔ ∀ a ∈ Attribute.bytes, n.Given a := by
  simp only [heard_inj, xmlByte_eq_packC_iff]

/-- One event is what arrives in both formats, whatever the length in the header of the packet and
in the memory for the event. -/
def SameEvent (expat : List UInt8 → List XmlCall) (n : Notice) : Prop :=
  ∃ e, (∀ len, serverProcessClientEventPacket (sendout n false).1 len (sendout n false).2
      = some [.event e]) ∧
    ∀ memory, serverProcessClientEvent expat memory (.xml (sendout n true).2) = some e

/-- **The notices of which the same event arrives**: those with a sound and all bytes given. -/
theorem sameEvent_iff (hn : Plain n)
    (h : Reports (expat (serialize n ++ EOL)) (noticeTokens n)) :
    SameEvent expat n ↔ n.sound ≠ [] ∧ ∀ a ∈ Attribute.bytes, n.Given a := by
  have hbinary : ∀ len, serverProcessClientEventPacket (sendout n false).1 len
      (sendout n false).2 = some [.event (n.heard packC)] := fun len =>
    serverProcessClientEventPacket_getContentEvent hn
  have hxml : ∀ memory, serverProcessClientEvent expat memory (.xml (sendout n true).2)
      = some (if n.sound = [] then memory else n.heard xmlByte) := fun memory =>
    serverProcessClientEvent_serialize hn memory h
  constructor
  · rintro ⟨e, hbin, hdoc⟩
    obtain rfl : n.heard packC = e := by
      simpa using (hbinary 0).symm.trans (hbin 0)
    by_cases hsound : n.sound = []
    · -- two different contents of the memory cannot both be the event
      have hmemory : ∀ memory, memory = n.heard packC := fun memory => by
        have := (hxml memory).symm.trans (hdoc memory)
        rwa [if_pos hsound, Option.some.injEq] at this
      have htwo := (hmemory ⟨0, 0, 0, 0, 0, 0, 0, none⟩).trans
        (hmemory ⟨1, 0, 0, 0, 0, 0, 0, none⟩).symm
      exact absurd (congrArg Event.type htwo) (by decide)
    · have hboth := (hxml (n.heard packC)).symm.trans (hdoc (n.heard packC))
      rw [if_neg hsound, Option.some.injEq] at hboth
      exact ⟨hsound, heard_eq_iff.mp hboth⟩
  · rintro ⟨hsound, hgiven⟩
    refine ⟨n.heard packC, hbinary, fun memory => ?_⟩
    rw [hxml, if_neg hsound, heard_eq_iff.mpr hgiven]

/-- A notice as `sysmonitor` sends it about a state, without flags. -/
def stateNotice (sound : CString) (volume : ℤ) : Notice
  | .type => some (.int 1)
  | .location => some (.int 128)
  | .priority => some (.int 0)
  | .volume => some (.int volume)
  | .dither => some (.int 50)
  | .sound => some (.str sound)
  | _ => none

theorem plain_stateNotice {sound : CString} {volume : ℤ}
    (hsound : ∀ c ∈ sound, isNameChar c = true) (hsize : sound.length + 1 < 2 ^ 31)
    (hvolume : -2 ^ 63 ≤ volume ∧ volume < 2 ^ 63) : Plain (stateNotice sound volume) := by
  have hint : ∀ k : ℤ, ∀ c ∈ (Scalar.int k).text, isNameChar c = true := fun k c hc =>
    isNameChar_of_mem_decimal hc
  have hname : ∀ a w, stateNotice sound volume a = some w → ∀ c ∈ w.text, isNameChar c = true := by
    intro a w hw
    cases a
    case sound =>
      obtain rfl := Option.some.inj hw
      exact hsound
    case type | location | priority | volume | dither =>
      obtain rfl := Option.some.inj hw
      exact hint _
    all_goals cases hw
  refine ⟨fun a _ => hname a, fun a w hw c hc => ?_, fun a hread w hw => ?_, hsize⟩
  · rw [isTextChar, hname a w hw c hc]
    rfl
  · have hnumber : ∀ k : ℤ, -2 ^ 63 ≤ k ∧ k < 2 ^ 63 → IsPlainNumber (Scalar.int k).text := by
      rintro k ⟨hge, hlt⟩
      refine .inl ⟨isNumeral_decimal k, ?_⟩
      rw [Scalar.text, leadingInt_decimal]
      exact ⟨hge, hlt⟩
    cases a
    case sound => exact absurd hread (by decide)
    case volume =>
      obtain rfl := Option.some.inj hw
      exact hnumber _ hvolume
    case type | location | priority | dither =>
      obtain rfl := Option.some.inj hw
      exact hnumber _ (by decide)
    all_goals cases hw

/-- The load. -/
def loadNotice : Notice := stateNotice (ascii "load") 200

theorem plain_loadNotice : Plain loadNotice :=
  plain_stateNotice (by decide) (by decide) (by decide)

/-- Everything that is heard of the load is given. -/
theorem sameEvent_loadNotice : SameEvent plainExpat loadNotice := by
  have hreports : Reports (plainExpat (serialize loadNotice ++ EOL)) (noticeTokens loadNotice) :=
    ⟨by decide, by decide⟩
  refine (sameEvent_iff plain_loadNotice hreports).mpr ⟨by decide, ?_⟩
  simp only [Attribute.bytes, List.forall_mem_cons, List.not_mem_nil, false_implies, implies_true,
    and_true]
  exact ⟨⟨_, rfl, by decide⟩, ⟨_, rfl, by decide⟩, ⟨_, rfl, by decide⟩, ⟨_, rfl, by decide⟩,
    ⟨_, rfl, by decide⟩⟩

end Peep
