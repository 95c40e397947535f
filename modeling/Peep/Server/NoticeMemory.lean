import Peep.Library.Blocks
import Peep.Server.NoticeRuns
import Peep.Server.Packet

/-!
# The memory of a notice

What `serverProcessClientEvent` allocates for a document, and what it releases: a copy of the
document, the `NOTICE`, what the handlers of the parser need, the strings of the notice, the event,
the sound of the event and the element of the engine's queue that the event is copied to. The
handlers are those of `Peep.Server.XmlNotice`, here with the blocks that they allocate.

All that is released was allocated and is released once. The element of the queue and the sound of
the event stay. They are meant to, as the engine releases them; without a sound, the engine gets
what was in the memory of the event. But `xmlParseClientChar` also allocates a string for each text
of the host, the data, the client or the sound and does not look whether there is one already, so of
the strings for a field all but the last are lost.

## Choices

A negative size cannot be allocated and a negative length cannot be copied; other memory can be
allocated, and `realloc` moves what it enlarges. The memory of expat is not modelled.

## Main results

* `owns_noticeMemory` — the blocks that stay
* `noticeLedger` — and how many of them are lost
-/

namespace Peep

open Bytes Decimal Program Blocks

/-! ## What is allocated and released -/

/-- The pointers that the parser of a notice works with. -/
structure NoticeMemory where
  /-- `current_tag`: the tag, and the block that it is in. -/
  currentTag : Option (CString × ℕ)
  /-- The strings made for a field, the last one first: that is the one in the notice. -/
  strings : Attribute → List ℕ

/-- The fields that are strings, in the order in which their tags are tested. -/
def stringAttributes : List Attribute := [.host, .data, .client, .sound]

namespace NoticeMemory

/-- The pointer to the block of a tag. -/
def tagPointer (m : NoticeMemory) : Pointer := m.currentTag.elim .null fun t => .start t.2

/-- `xmlParseClientStart`: the memory of the tag is enlarged. -/
def xmlParseClientStart (m : NoticeMemory) (tag : CString) : Program Arena NoticeMemory := do
  free m.tagPointer
  let b ← malloc
  return { m with currentTag := some (tag, b) }

/-- A string is made for the field of a tag, if there is one. -/
def makeString (m : NoticeMemory) (tag : CString) : Program Arena NoticeMemory :=
  match stringAttributes.find? fun a => a.isTag tag with
  | none => return m
  | some a => do
    let b ← malloc
    return { m with strings := Function.update m.strings a (b :: m.strings a) }

/-- `xmlParseClientChar`. -/
def xmlParseClientChar (m : NoticeMemory) (text behind : List UInt8) :
    Program Arena NoticeMemory := do
  let str ← malloc
  match cleaned (text, behind) with
  | none => do
    free (.start str)
    return m
  | some _ => do
    -- `strcasecmp` reads the tag
    let tag ← ofOption m.currentTag
    let m ← m.makeString tag.1
    free (.start str)
    return m

/-- The handler is called. -/
def call (m : NoticeMemory) (c : XmlCall) : Program Arena NoticeMemory :=
  match c.token with
  | .start tag => m.xmlParseClientStart tag
  | .text text => m.xmlParseClientChar text c.behind
  | .stop _ => return m

end NoticeMemory

/-- `xmlParseClientEvent`: the strings of the notice. -/
def parseMemory (calls : List XmlCall) : Program Arena (Attribute → List ℕ) := do
  let parseInfo ← malloc
  let m ← calls.foldlM NoticeMemory.call ⟨none, fun _ => []⟩
  free m.tagPointer
  free (.start parseInfo)
  return m.strings

/-- The pointer to the last of some strings. -/
def lastString (l : List ℕ) : Pointer := l.head?.elim .null .start

/-- `serverConvertNoticeToEngineEvent`: the pointer to the sound of the event. -/
def convertMemory (strings : Attribute → List ℕ) : Program Arena Pointer :=
  if strings .sound = [] then return .wild
  else do
    let sound ← malloc
    return .start sound

/-- `noticeFreeNotice`. -/
def noticeFreeNotice (notice : ℕ) (strings : Attribute → List ℕ) : Program Arena Unit := do
  free (lastString (strings .host))
  free (lastString (strings .client))
  free (lastString (strings .sound))
  free (lastString (strings .data))
  free (.start notice)

/-- An event in the queue of the engine. -/
structure Enqueued where
  /-- Its element of the queue. -/
  element : ℕ
  /-- Its sound. -/
  sound : Pointer

/-- `engineEnqueue`, for an event with that sound. -/
def enqueueMemory (sound : Pointer) : Program Arena Enqueued := do
  let element ← malloc
  return ⟨element, sound⟩

/-- The copy of a message with a zero behind it, in memory that is allocated for it. -/
def copyMessage (msg : List UInt8) (msgLen : Int32) : Option (List UInt8) := do
  let _ ← Bytes.malloc (msgLen + 1)
  copySigned? msg 0 msgLen

/-- `serverProcessClientEvent` for a document: the event that is enqueued, and the strings that were
made for the notice. -/
def noticeMemory (msg : List UInt8) (msgLen : Int32) (calls : List XmlCall) :
    Program Arena (Enqueued × (Attribute → List ℕ)) := do
  let noticeString ← malloc
  let notice ← malloc
  let _ ← ofOption (copyMessage msg msgLen)
  let strings ← parseMemory calls
  free (.start noticeString)
  let event ← malloc
  let sound ← convertMemory strings
  let enqueued ← enqueueMemory sound
  free (.start event)
  noticeFreeNotice notice strings
  return (enqueued, strings)

/-- The length of a message is that of bytes received, and with a zero behind it an `int`. -/
def Copied (msg : List UInt8) (msgLen : Int32) : Prop :=
  0 ≤ msgLen.toInt ∧ msgLen.toInt ≤ msg.length ∧ msgLen.toInt + 1 < 2 ^ 31

instance (msg : List UInt8) (msgLen : Int32) : Decidable (Copied msg msgLen) :=
  inferInstanceAs (Decidable (_ ∧ _ ∧ _))

/-! ## What stays -/

/-- The blocks of an event in the queue. -/
def Enqueued.blocks (e : Enqueued) : Multiset ℕ := {e.element} + owned e.sound

/-- Some strings of each field. -/
def allStrings (strings : Attribute → List ℕ) : Multiset ℕ :=
  (stringAttributes.map fun a => (strings a : Multiset ℕ)).sum

/-- The strings that the notice does not point to. -/
def lostStrings (strings : Attribute → List ℕ) : Multiset ℕ := allStrings fun a => (strings a).tail

/-- The blocks of the parser. -/
def NoticeMemory.blocks (m : NoticeMemory) : Multiset ℕ := owned m.tagPointer + allStrings m.strings

variable {msg : List UInt8} {msgLen : Int32} {calls : List XmlCall} {m : NoticeMemory}
  {strings : Attribute → List ℕ} {a : Attribute} {tag : CString}

/-- **The messages that are copied.** -/
theorem copyMessage_isSome_iff : (∃ s, copyMessage msg msgLen = some s) ↔ Copied msg msgLen := by
  have hunfold : copyMessage msg msgLen
      = (Bytes.malloc (msgLen + 1)).bind fun _ => copySigned? msg 0 msgLen := rfl
  simp only [hunfold, Option.bind_eq_some_iff, copySigned?_eq_some_iff]
  constructor
  · rintro ⟨s, b, hb, hpos, hle, -⟩
    exact ⟨hpos, by omega, (malloc_add_one_isSome_iff hpos).mp ⟨b, hb⟩⟩
  · rintro ⟨hpos, hle, hfits⟩
    obtain ⟨b, hb⟩ := (malloc_add_one_isSome_iff hpos).mpr hfits
    exact ⟨_, b, hb, hpos, by omega, rfl⟩

theorem tagPointer_cases (m : NoticeMemory) :
    m.tagPointer = .null ∨ ∃ b, m.tagPointer = .start b := by
  cases h : m.currentTag with
  | none => exact .inl (by simp [NoticeMemory.tagPointer, h])
  | some t => exact .inr ⟨t.2, by simp [NoticeMemory.tagPointer, h]⟩

theorem owns_free_lastString (l : List ℕ) :
    Owns (l : Multiset ℕ) (free (lastString l)) fun _ => (l.tail : Multiset ℕ) := by
  cases l with
  | nil => exact owns_free_null
  | cons b l =>
    refine ((owns_free b).frame (l : Multiset ℕ)).congr ?_ fun _ => zero_add _
    rw [Multiset.singleton_add, Multiset.cons_coe]

/-- One more string for a field. -/
theorem allStrings_update (ha : a ∈ stringAttributes) (b : ℕ) :
    allStrings (Function.update strings a (b :: strings a)) = allStrings strings + {b} := by
  simp only [stringAttributes, List.mem_cons, List.not_mem_nil, or_false] at ha
  obtain rfl | rfl | rfl | rfl := ha <;>
    simp only [allStrings, stringAttributes, List.map_cons, List.map_nil, List.sum_cons,
      List.sum_nil, Function.update_self, ne_eq, reduceCtorEq, not_false_eq_true,
      Function.update_of_ne, ← Multiset.cons_coe, ← Multiset.singleton_add] <;>
    abel

/-- **A string is made.** -/
theorem owns_makeString (m : NoticeMemory) (tag : CString) :
    Owns m.blocks (m.makeString tag) NoticeMemory.blocks := by
  rw [NoticeMemory.makeString]
  cases hfind : stringAttributes.find? fun a => a.isTag tag with
  | none => exact owns_pure m
  | some a =>
    refine Owns.malloc_bind fun b => ?_
    refine (owns_pure _).congr ?_ fun _ => rfl
    rw [NoticeMemory.blocks, NoticeMemory.blocks,
      allStrings_update (List.mem_of_find?_eq_some hfind), add_assoc]
    rfl

/-- **The handlers keep track of their blocks**, once there is a tag. -/
theorem owns_call (m : NoticeMemory) (c : XmlCall)
    (htag : m.currentTag ≠ none ∨ ∃ tag, c.token = .start tag) :
    Owns m.blocks (m.call c) NoticeMemory.blocks := by
  obtain ⟨token, behind⟩ := c
  cases token with
  | start tag =>
    refine ((owns_free_owned (tagPointer_cases m)).bind_frame fun _ => ?_)
    refine Owns.malloc_bind fun b => ?_
    refine (owns_pure _).congr ?_ fun _ => rfl
    simp only [NoticeMemory.blocks, NoticeMemory.tagPointer, Option.elim_some, owned]
    abel
  | stop tag => exact owns_pure m
  | text text =>
    have hsome : m.currentTag ≠ none := by
      obtain h | ⟨tag, h⟩ := htag
      · exact h
      · cases h
    obtain ⟨t, ht⟩ := Option.ne_none_iff_exists'.mp hsome
    refine Owns.malloc_bind fun str => ?_
    cases cleaned (text, behind) with
    | none => exact Owns.free_bind (owns_pure m)
    | some string =>
      rw [ht]
      refine (owns_makeString m t.1).bind_frame fun m' => ?_
      exact Owns.free_bind (owns_pure m')

/-! ## What is in the fields -/

/-- The tag behind which the next call comes. -/
def tagAfter (tag : Option CString) (c : XmlCall) : Option CString :=
  match c.token with
  | .start tag => some tag
  | _ => tag

/-- The strings that a call makes for a field. -/
def made (a : Attribute) (tag : Option CString) (c : XmlCall) : ℕ :=
  match c.token with
  | .text text => if tag.any a.isTag && (cleaned (text, c.behind)).isSome then 1 else 0
  | _ => 0

/-- The strings that some calls make for a field. -/
def stringsMade (a : Attribute) : Option CString → List XmlCall → ℕ
  | _, [] => 0
  | tag, c :: calls => made a tag c + stringsMade a (tagAfter tag c) calls

/-- What is known of the parser after a call. -/
def NoticeMemory.Follows (m : NoticeMemory) (tag : Option CString) (count : Attribute → ℕ)
    (m' : NoticeMemory) : Prop :=
  m'.currentTag.map Prod.fst = tag ∧
    ∀ a ∈ stringAttributes, (m'.strings a).length = (m.strings a).length + count a

/-- **The field of a tag** is the one whose tag is tested true. -/
theorem find?_isTag (ha : a ∈ stringAttributes) :
    (stringAttributes.find? fun b => b.isTag tag) = some a ↔ a.isTag tag = true := by
  have hfound : ∀ b, (stringAttributes.find? fun b => b.isTag tag) = some b →
      b.isTag tag = true := fun _ hb => List.find?_some (p := fun b : Attribute => b.isTag tag) hb
  constructor
  · exact hfound a
  · intro h
    cases hfind : stringAttributes.find? fun b => b.isTag tag with
    | none => exact absurd h (List.find?_eq_none.mp hfind a ha)
    | some b => rw [Attribute.eq_of_isTag (hfound b hfind) h]

theorem yields_makeString (m : NoticeMemory) (tag : CString) :
    Yields (m.Follows (m.currentTag.map Prod.fst) fun a => if a.isTag tag then 1 else 0)
      (m.makeString tag) := by
  rw [NoticeMemory.makeString]
  cases hfind : stringAttributes.find? fun a => a.isTag tag with
  | none =>
    refine yields_pure ⟨rfl, fun a ha => ?_⟩
    have hnot := List.find?_eq_none.mp hfind a ha
    simp [hnot]
  | some b =>
    refine yields_bind _ fun block => yields_pure ⟨rfl, fun a ha => ?_⟩
    by_cases hab : a = b
    · subst hab
      simp [(find?_isTag ha).mp hfind]
    · have hnot : ¬ a.isTag tag = true := fun h =>
        hab (Option.some.inj (((find?_isTag ha).mpr h).symm.trans hfind))
      simp [Function.update_of_ne hab, hnot]

/-- **What a call does to the fields.** -/
theorem yields_call (m : NoticeMemory) (c : XmlCall) :
    Yields (m.Follows (tagAfter (m.currentTag.map Prod.fst) c)
      fun a => made a (m.currentTag.map Prod.fst) c) (m.call c) := by
  obtain ⟨token, behind⟩ := c
  cases token with
  | start tag =>
    exact yields_bind _ fun _ => yields_bind _ fun _ => yields_pure ⟨rfl, fun _ _ => rfl⟩
  | stop tag => exact yields_pure ⟨rfl, fun _ _ => rfl⟩
  | text text =>
    refine yields_bind _ fun str => ?_
    cases hclean : cleaned (text, behind) with
    | none =>
      refine yields_bind _ fun _ => yields_pure ⟨rfl, fun a _ => ?_⟩
      simp [made, hclean]
    | some string =>
      refine Yields.bind (yields_ofOption fun t ht => ht) fun t ht => ?_
      refine Yields.bind (yields_makeString m t.1) fun m' hm' => ?_
      refine yields_bind _ fun _ => yields_pure ⟨hm'.1, fun a ha => ?_⟩
      rw [hm'.2 a ha]
      simp [made, hclean, ht]

/-- **What some calls do to the fields.** -/
theorem yields_foldlM (calls : List XmlCall) (m : NoticeMemory) :
    Yields (fun m' => ∀ a ∈ stringAttributes, (m'.strings a).length
        = (m.strings a).length + stringsMade a (m.currentTag.map Prod.fst) calls)
      (calls.foldlM NoticeMemory.call m) := by
  induction calls generalizing m with
  | nil => exact yields_pure fun _ _ => rfl
  | cons c calls ih =>
    rw [List.foldlM_cons]
    refine (yields_call m c).bind fun m₁ hm₁ => (ih m₁).mono fun m' hm' a ha => ?_
    rw [hm' a ha, hm₁.2 a ha, hm₁.1, stringsMade, Nat.add_assoc]

/-- There is a tag once there was one. -/
theorem yields_tag (m : NoticeMemory) (c : XmlCall)
    (htag : m.currentTag ≠ none ∨ ∃ tag, c.token = .start tag) :
    Yields (fun m' => m'.currentTag ≠ none) (m.call c) := by
  refine (yields_call m c).mono fun m' hm' hnone => ?_
  have hafter := hm'.1
  rw [hnone, tagAfter] at hafter
  obtain ⟨token, behind⟩ := c
  cases token with
  | start tag => cases hafter
  | stop tag | text text =>
    obtain h | ⟨tag, h⟩ := htag
    · exact h (Option.map_eq_none_iff.mp hafter.symm)
    · cases h

/-! ## The whole notice -/

/-- **The parser** leaves the strings of the notice. -/
theorem owns_parseMemory (hbegins : BeginsWithTag calls) :
    Owns 0 (parseMemory calls) allStrings := by
  have hstart : NoticeMemory.blocks ⟨none, fun _ => []⟩ = 0 := rfl
  have hloop : Owns (NoticeMemory.blocks ⟨none, fun _ => []⟩)
      (calls.foldlM NoticeMemory.call ⟨none, fun _ => []⟩) NoticeMemory.blocks := by
    cases calls with
    | nil => exact owns_pure _
    | cons c calls =>
      have hc : (⟨none, fun _ => []⟩ : NoticeMemory).currentTag ≠ none ∨
          ∃ tag, c.token = .start tag := .inr (hbegins c rfl)
      rw [List.foldlM_cons]
      refine (owns_call _ c hc).bind_of_yields (yields_tag _ c hc) fun m hm => ?_
      exact owns_foldlM (fun m c hm => owns_call m c (.inl hm))
        (fun m c hm => yields_tag m c (.inl hm)) calls m hm
  refine Owns.malloc_bind fun parseInfo => ?_
  rw [hstart] at hloop
  refine hloop.bind_frame fun m => ?_
  refine Owns.congr (A := owned m.tagPointer + (allStrings m.strings + {parseInfo})) ?_
    (by rw [NoticeMemory.blocks, add_assoc]) fun _ => rfl
  refine (owns_free_owned (tagPointer_cases m)).bind_frame fun _ => ?_
  rw [zero_add]
  exact Owns.free_bind (owns_pure _)

theorem owns_convertMemory (strings : Attribute → List ℕ) :
    Owns 0 (convertMemory strings) owned := by
  refine owns_ite (fun _ => fun h _ hlive => ⟨.wild, h, rfl, hlive⟩) fun _ => ?_
  exact Owns.malloc_bind fun b => (owns_pure (Pointer.start b)).congr (zero_add _).symm fun _ => rfl

/-- **What `noticeFreeNotice` forgets.** -/
theorem owns_noticeFreeNotice (notice : ℕ) (strings : Attribute → List ℕ) :
    Owns (allStrings strings + {notice}) (noticeFreeNotice notice strings)
      fun _ => lostStrings strings := by
  let all a : Multiset ℕ := strings a
  let rest a : Multiset ℕ := (strings a).tail
  have hall : allStrings strings = all .host + all .data + all .client + all .sound := by
    simp [allStrings, stringAttributes, all]
  have hrest : lostStrings strings = rest .host + rest .data + rest .client + rest .sound := by
    simp [lostStrings, allStrings, stringAttributes, rest]
  have hfree (a : Attribute) : Owns (all a) (free (lastString (strings a))) fun _ => rest a :=
    owns_free_lastString (strings a)
  refine (hfree .host).bind_of_eq (R := all .client + all .sound + all .data + {notice})
    (by rw [hall]; abel) fun _ => ?_
  refine (hfree .client).bind_of_eq (R := rest .host + all .sound + all .data + {notice})
    (by abel) fun _ => ?_
  refine (hfree .sound).bind_of_eq (R := rest .host + rest .client + all .data + {notice})
    (by abel) fun _ => ?_
  refine (hfree .data).bind_of_eq (R := rest .host + rest .client + rest .sound + {notice})
    (by abel) fun _ => ?_
  refine ((owns_free notice).frame (lostStrings strings)).congr ?_ fun _ => zero_add _
  rw [hrest]
  abel

/-- The element of the queue. -/
theorem owns_enqueueMemory (sound : Pointer) :
    Owns (owned sound) (enqueueMemory sound) Enqueued.blocks := by
  refine Owns.malloc_bind fun element => ?_
  exact (owns_pure (B := Enqueued.blocks) ⟨element, sound⟩).congr (add_comm _ _) fun _ => rfl

/-- **What a document leaves**: its event in the queue, and the strings that are lost. -/
theorem owns_noticeMemory (hcopied : Copied msg msgLen) (hbegins : BeginsWithTag calls) :
    Owns 0 (noticeMemory msg msgLen calls) fun r => r.1.blocks + lostStrings r.2 := by
  obtain ⟨copy, hcopy⟩ := copyMessage_isSome_iff.mpr hcopied
  refine Owns.malloc_bind fun noticeString => Owns.malloc_bind fun notice => ?_
  rw [hcopy, ofOption_some, pure_bind_apply]
  refine (owns_parseMemory hbegins).bind_of_eq (R := {notice} + {noticeString}) (by abel)
    fun strings => ?_
  rw [← add_assoc]
  refine Owns.free_bind (Owns.malloc_bind fun event => ?_)
  refine (owns_convertMemory strings).bind_of_eq (R := allStrings strings + {notice} + {event})
    (by abel) fun sound => ?_
  refine (owns_enqueueMemory sound).bind_frame fun enqueued => ?_
  rw [← add_assoc]
  refine Owns.free_bind ?_
  refine (owns_noticeFreeNotice notice strings).bind_of_eq (R := enqueued.blocks) (by abel)
    fun _ => ?_
  exact (owns_pure (enqueued, strings)).congr (add_comm _ _) fun _ => rfl

/-- Whether the document was copied, how many strings are made for each field, and whether the event
has a sound. -/
theorem yields_noticeMemory (msg : List UInt8) (msgLen : Int32) (calls : List XmlCall) :
    Yields (fun r => Copied msg msgLen ∧
        (∀ a ∈ stringAttributes, (r.2 a).length = stringsMade a none calls) ∧
        (r.1.sound = .wild ↔ stringsMade .sound none calls = 0)) (noticeMemory msg msgLen calls) := by
  have hparse : Yields (fun strings => ∀ a ∈ stringAttributes,
      (strings a).length = stringsMade a none calls) (parseMemory calls) := by
    refine yields_bind _ fun _ => (yields_foldlM calls ⟨none, fun _ => []⟩).bind fun m hm => ?_
    refine yields_bind _ fun _ => yields_bind _ fun _ => yields_pure fun a ha => ?_
    rw [hm a ha]
    exact Nat.zero_add _
  have hcopy : Yields (fun _ => Copied msg msgLen) (ofOption (copyMessage msg msgLen)
      : Program Arena (List UInt8)) :=
    yields_ofOption fun copy hcopy => copyMessage_isSome_iff.mp ⟨copy, hcopy⟩
  refine yields_bind _ fun _ => yields_bind _ fun _ => hcopy.bind fun _ hcopied => ?_
  refine hparse.bind fun strings hstrings => yields_bind _ fun _ => yields_bind _ fun _ => ?_
  have hsound : Yields (fun p => p = .wild ↔ stringsMade .sound none calls = 0)
      (convertMemory strings) := by
    have hlength := hstrings .sound (by decide)
    by_cases hnil : strings .sound = []
    · rw [convertMemory, if_pos hnil]
      refine yields_pure (iff_of_true rfl ?_)
      rw [← hlength, hnil]
      rfl
    · rw [convertMemory, if_neg hnil]
      refine yields_bind _ fun b => yields_pure (iff_of_false (by simp) ?_)
      rw [← hlength]
      exact fun h => hnil (List.length_eq_zero_iff.mp h)
  have henqueue (sound : Pointer) : Yields (fun e => e.sound = sound) (enqueueMemory sound) :=
    yields_bind _ fun _ => yields_pure rfl
  refine hsound.bind fun sound hsound => (henqueue sound).bind fun enqueued henqueued => ?_
  rw [← henqueued] at hsound
  exact yields_bind _ fun _ => yields_bind _ fun _ => yields_pure ⟨hcopied, hstrings, hsound⟩

/-- Of the strings for a field, all but one are lost. -/
theorem card_lostStrings (strings : Attribute → List ℕ) : (lostStrings strings).card
    = (stringAttributes.map fun a => (strings a).length - 1).sum := by
  simp [lostStrings, allStrings, stringAttributes]

/-- A notice that has two texts for its host. -/
def twoHosts : List XmlCall :=
  [⟨.start (ascii "notice"), []⟩, ⟨.start (ascii "host"), []⟩, ⟨.text (ascii "a"), []⟩,
    ⟨.text (ascii "b"), []⟩, ⟨.stop (ascii "host"), []⟩, ⟨.stop (ascii "notice"), []⟩]

theorem beginsWithTag_twoHosts : BeginsWithTag twoHosts :=
  fun _ hc => ⟨ascii "notice", Option.some.inj hc ▸ rfl⟩

end Peep
