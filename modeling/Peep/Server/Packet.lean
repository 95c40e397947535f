import Peep.Event
import Peep.Library.Bytes

/-!
# Client event packets

`serverProcessClientEventPacket` (`server.c`) turns the body of a client's packet into an event for
the engine queue. With XML content the text of the notice is copied and parsed. With event content
the body is an `EVENT` as it lies in memory, without the pointer at its end, followed by the name of
the sound; the length of the name is one of the fields.

Three lengths are involved: the number of bytes received, `len` of the packet's header, and
`sound_len`. The function compares none of them with another. It copies `sizeof (EVENT_BODY) -
sizeof (char *)` bytes and then `sound_len` bytes, whatever the length of the body, and never
rejects a packet. For the name it allocates `sound_len + 1` bytes, which is negative for the
greatest `sound_len` there is.

## Choices

The body is the list of the bytes received. Behind them is unallocated memory (`tcp_server.c`, where
the buffer is as long as the header says) or what an earlier datagram left (`udp_server.c`), so
`none` is a copy that goes beyond them. Parsing a notice is not modelled here: the result is the
text that is handed to the parser.

## Main results

* `serverProcessClientEventPacket_event_eq_some_iff` — the bodies that are decoded
* `staysInside_iff` — the lengths for which the decoder stays inside the body
-/

namespace Peep

open Bytes

/-- `PROT_CONTENT_XML`. -/
def PROT_CONTENT_XML : UInt8 := 1

/-- `PROT_CONTENT_EVENT`. -/
def PROT_CONTENT_EVENT : UInt8 := 2

/-- `sizeof (EVENT_BODY) - sizeof (char *)`: the size of the fields before the name of the sound. -/
def EVENT_FIXED : ℕ := 16

/-- What the server makes of the body of a client's packet. -/
inductive ClientEvent
  /-- The text of a notice, to be parsed and enqueued. -/
  | xml (notice : List UInt8)
  /-- An event, to be enqueued. -/
  | event (event : Event)

/-- The `EVENT` whose fields are those bytes, with the name that was copied. -/
def eventOfFields (fixed sound : List UInt8) : Event where
  type := fixed.getD 0 0
  loc := fixed.getD 1 0
  prior := fixed.getD 2 0
  vol := fixed.getD 3 0
  dither := fixed.getD 4 0
  -- the bytes `5` to `7` are `reserved`
  flags := wordAt fixed 8
  soundLen := wordAt fixed 12
  sound := some (untilZero sound)

/-- `serverProcessClientEventPacket`: what is enqueued. -/
def serverProcessClientEventPacket (content : UInt8) (len : Int32) (body : List UInt8) :
    Option (List ClientEvent) :=
  if content = PROT_CONTENT_XML then do
    let notice ← copySigned? body 0 len
    some [.xml notice]
  else if content = PROT_CONTENT_EVENT then do
    let fixed ← copy? body 0 EVENT_FIXED
    -- the name has a zero behind it
    let _ ← malloc (wordAt fixed 12 + 1)
    let sound ← copySigned? body EVENT_FIXED (wordAt fixed 12)
    some [.event (eventOfFields fixed sound)]
  else some []

/-- The name that an enqueued event carries, or the text of the notice it comes from. -/
def ClientEvent.text : ClientEvent → List UInt8
  | .xml notice => notice
  | .event e => e.sound.getD []

/-- `sound_len` of an event body. -/
def soundLen (body : List UInt8) : Int32 := wordAt body 12

/-- The body is shorter than its fixed fields, or the name has a negative length or goes beyond the
end of the body. -/
def Malformed (body : List UInt8) : Prop :=
  body.length < EVENT_FIXED ∨ (soundLen body).toInt < 0 ∨
    (body.length : ℤ) < EVENT_FIXED + (soundLen body).toInt

instance (body : List UInt8) : Decidable (Malformed body) :=
  inferInstanceAs (Decidable (_ ∨ _ ∨ _))

/-- The size of the name with the zero behind it is an `int`. -/
def NameFits (body : List UInt8) : Prop := (soundLen body).toInt + 1 < 2 ^ 31

/-- What is asked of the decoder: it copies nothing but bytes received, what it takes for a name is
part of the body, and it enqueues nothing for a malformed body. -/
def StaysInside (content : UInt8) (len : Int32) (body : List UInt8) : Prop :=
  ∃ out, serverProcessClientEventPacket content len body = some out ∧
    (∀ e ∈ out, e.text <:+: body) ∧
    (content = PROT_CONTENT_EVENT → Malformed body → out = [])

/-- The condition on the lengths. -/
def LengthsAgree (content : UInt8) (len : Int32) (body : List UInt8) : Prop :=
  (content = PROT_CONTENT_XML → 0 ≤ len.toInt ∧ len.toInt ≤ body.length) ∧
    (content = PROT_CONTENT_EVENT → ¬ Malformed body ∧ NameFits body)

variable {body : List UInt8} {len : Int32} {out : List ClientEvent}

theorem wordAt_take {i n : ℕ} (h : i + 4 ≤ n) : wordAt (body.take n) i = wordAt body i := by
  have hget : ∀ j < n, (body.take n).getD j 0 = body.getD j 0 := fun j hj => by
    rw [List.getD_eq_getElem?_getD, List.getD_eq_getElem?_getD, List.getElem?_take_of_lt hj]
  rw [wordAt, wordAt, hget i (by omega), hget (i + 1) (by omega), hget (i + 2) (by omega),
    hget (i + 3) (by omega)]

theorem malloc_add_one_isSome_iff {n : Int32} (hpos : 0 ≤ n.toInt) :
    (∃ b, malloc (n + 1) = some b) ↔ n.toInt + 1 < 2 ^ 31 := by
  have hlt := n.toInt_lt
  simp only [malloc_eq_some_iff, exists_and_left, exists_eq, and_true]
  rw [Int32.toInt_add, Int32.toInt_one]
  rcases (show n.toInt + 1 ≤ 2 ^ 31 by omega).eq_or_lt with heq | hlt
  · rw [heq]
    decide
  · rw [Int.bmod_eq_of_le (by omega) (by omega)]
    omega

/-- **The bodies that are decoded** are those whose name ends within them, if its size is an
`int`. -/
theorem serverProcessClientEventPacket_event_eq_some_iff :
    serverProcessClientEventPacket PROT_CONTENT_EVENT len body = some out ↔
      (¬ Malformed body ∧ NameFits body) ∧ out = [.event (eventOfFields (body.take EVENT_FIXED)
        ((body.drop EVENT_FIXED).take (soundLen body).toInt.toNat))] := by
  have hbranch : serverProcessClientEventPacket PROT_CONTENT_EVENT len body
      = (copy? body 0 EVENT_FIXED).bind fun fixed =>
          (malloc (wordAt fixed 12 + 1)).bind fun _ =>
            (copySigned? body EVENT_FIXED (wordAt fixed 12)).bind fun sound =>
              some [.event (eventOfFields fixed sound)] := rfl
  rw [hbranch]
  simp only [Option.bind_eq_some_iff, copy?_eq_some_iff, copySigned?_eq_some_iff, List.drop_zero,
    Nat.zero_add, Option.some.injEq]
  constructor
  · rintro ⟨fixed, ⟨hlen, rfl⟩, b, hb, sound, ⟨hpos, hle, rfl⟩, rfl⟩
    rw [wordAt_take (by decide), ← soundLen] at hb hpos hle ⊢
    refine ⟨⟨?_, (malloc_add_one_isSome_iff hpos).mp ⟨b, hb⟩⟩, rfl⟩
    rw [Malformed]
    omega
  · rintro ⟨⟨hwell, hfits⟩, rfl⟩
    rw [Malformed] at hwell
    refine ⟨_, ⟨by omega, rfl⟩, ?_⟩
    rw [wordAt_take (by decide), ← soundLen]
    obtain ⟨b, hb⟩ := (malloc_add_one_isSome_iff (by omega)).mpr hfits
    exact ⟨b, hb, _, ⟨by omega, by omega, rfl⟩, rfl⟩

theorem serverProcessClientEventPacket_xml_eq_some_iff :
    serverProcessClientEventPacket PROT_CONTENT_XML len body = some out ↔
      (0 ≤ len.toInt ∧ len.toInt ≤ body.length) ∧ out = [.xml (body.take len.toInt.toNat)] := by
  have hbranch : serverProcessClientEventPacket PROT_CONTENT_XML len body
      = (copySigned? body 0 len).bind fun notice => some [.xml notice] := rfl
  rw [hbranch]
  simp only [Option.bind_eq_some_iff, copySigned?_eq_some_iff, List.drop_zero, Nat.zero_add,
    Option.some.injEq]
  constructor
  · rintro ⟨notice, ⟨hpos, hle, rfl⟩, rfl⟩
    exact ⟨⟨hpos, by omega⟩, rfl⟩
  · rintro ⟨⟨hpos, hle⟩, rfl⟩
    exact ⟨_, ⟨hpos, by omega, rfl⟩, rfl⟩

/-- The name of a decoded event is part of the body. -/
theorem text_eventOfFields_isInfix {fixed : List UInt8} {k n : ℕ} :
    (ClientEvent.event (eventOfFields fixed ((body.drop k).take n))).text <:+: body :=
  (untilZero_isPrefix _).isInfix.trans
    ((List.take_prefix n _).isInfix.trans (List.drop_suffix k body).isInfix)

/-- **When the decoder stays inside the body**: exactly if the lengths agree. -/
theorem staysInside_iff (content : UInt8) (len : Int32) (body : List UInt8) :
    StaysInside content len body ↔ LengthsAgree content len body := by
  by_cases hxml : content = PROT_CONTENT_XML
  · subst hxml
    simp only [StaysInside, LengthsAgree, serverProcessClientEventPacket_xml_eq_some_iff]
    constructor
    · rintro ⟨out, ⟨hlen, -⟩, -, -⟩
      exact ⟨fun _ => hlen, fun h => absurd h (by decide)⟩
    · rintro ⟨hlen, -⟩
      refine ⟨_, ⟨hlen trivial, rfl⟩, ?_, fun h => absurd h (by decide)⟩
      simpa [ClientEvent.text] using (List.take_prefix _ body).isInfix
  · by_cases hevent : content = PROT_CONTENT_EVENT
    · subst hevent
      simp only [StaysInside, LengthsAgree, serverProcessClientEventPacket_event_eq_some_iff]
      constructor
      · rintro ⟨out, ⟨hwell, -⟩, -, -⟩
        exact ⟨fun h => absurd h (by decide), fun _ => hwell⟩
      · rintro ⟨-, hwell⟩
        refine ⟨_, ⟨hwell trivial, rfl⟩, ?_, fun _ hmal => absurd hmal (hwell trivial).1⟩
        exact List.forall_mem_singleton.mpr text_eventOfFields_isInfix
    · -- other contents are ignored
      have hout : serverProcessClientEventPacket content len body = some [] := by
        rw [serverProcessClientEventPacket, if_neg hxml, if_neg hevent]
      exact ⟨fun _ => ⟨fun h => absurd h hxml, fun h => absurd h hevent⟩,
        fun _ => ⟨[], hout, by simp, fun h => absurd h hevent⟩⟩

/-- **An empty body** is decoded as an event. -/
theorem not_staysInside_empty : ¬ StaysInside PROT_CONTENT_EVENT 0 [] := by
  rintro ⟨out, hout, -, -⟩
  exact absurd hout (by simp [serverProcessClientEventPacket, copy?, EVENT_FIXED, PROT_CONTENT_XML,
    PROT_CONTENT_EVENT])

end Peep
