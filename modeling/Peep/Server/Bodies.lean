import Peep.Library.Switch
import Peep.Server.NoticeMemory

/-!
# Who releases the body of a packet

`serverServlet` reads packets from a connection in a loop. It has one variable for them, and the
pointer in `msg.body` stays from one packet to the next. At the end of an iteration, at
`servletERR`, it is released.

* In `tcp_server.c` the loop gets there only with a body that it has just allocated. It loses the
  buffer of an event that is not read to its end.
* In `ssl_server.c` the body of an event is read to where `msg.body` points, for which nothing was
  allocated, and not to the buffer.
* In both, a client broadcast that is read to its end is decoded, with a zero behind it that there
  is no place for (`serverServletBC_eq_none`).

## Choices

An iteration is given the header that it has, after `ntohl`, and what is there to be read behind it.
A negative size cannot be allocated; other memory can. `none` is an access outside of what was read
or allocated, and a block that was released is never allocated again: the use of a pointer to it is
a crash, although `malloc` may return the same address again. The strings of a document are those of
`Peep.Server.NoticeMemory`.

## Main results

* `servletLoop_ledger` — which packets a connection survives, and what it loses
* `sslLoop_returns_iff` — no event is received over SSL
-/

namespace Peep

open Bytes Decimal Program Blocks

/-! ## Packets -/

/-- The packet has the magic number. -/
def Header.HasMagic (h : Header) : Prop := h.magic.toUInt32 = PROT_MAGIC_NUMBER

instance (h : Header) : Decidable h.HasMagic := inferInstanceAs (Decidable (_ = _))

/-- The packet is an event. -/
def Header.IsEvent (h : Header) : Prop := h.HasMagic ∧ h.type = PROT_CLIENT_EVENT

instance (h : Header) : Decidable h.IsEvent := inferInstanceAs (Decidable (_ ∧ _))

/-- The lengths for which an event is decoded. -/
def Header.Decodes (h : Header) (contents : List UInt8) : Prop :=
  (h.content = PROT_CONTENT_XML → Copied contents h.len) ∧
    (h.content = PROT_CONTENT_EVENT → ¬ Malformed contents ∧ NameFits contents)

instance (contents : List UInt8) : Decidable (NameFits contents) :=
  inferInstanceAs (Decidable (_ < _))

instance (h : Header) (contents : List UInt8) : Decidable (h.Decodes contents) :=
  inferInstanceAs (Decidable (_ ∧ _))

/-- What an iteration has of a packet. -/
structure Incoming where
  /-- The header. -/
  header : Header
  /-- What is there to be read behind the header, `none` if reading fails. -/
  readable : Option (List UInt8)
  /-- What the parser reports if it is a document. -/
  calls : List XmlCall

namespace Incoming

/-- The bytes that are read. -/
def bytes (r : Incoming) : List UInt8 := (readBody r.header.len r.readable).2

/-- `size_recv == msg.header.len`. -/
def Complete (r : Incoming) : Prop :=
  (readBody r.header.len r.readable).1 = r.header.len.toInt

instance (r : Incoming) : Decidable r.Complete := inferInstanceAs (Decidable (_ = _))

end Incoming

/-- The variables of a loop: `msg.body`, and the events that it has put into the queue. -/
structure Bodies where
  /-- `msg.body`. -/
  body : Pointer
  /-- The events. -/
  queue : List Enqueued

/-- A loop begins with a body that was never written. -/
def Bodies.start : Bodies := ⟨.wild, []⟩

/-- The blocks of the events. -/
def Bodies.blocks (s : Bodies) : Multiset ℕ := (s.queue.map Enqueued.blocks).sum

/-! ## The loops -/

/-- `serverProcessClientEventPacket`. -/
def clientEventMemory (s : Bodies) (header : Header) (dataBuffer : Pointer) (contents : List UInt8)
    (calls : List XmlCall) : Program Arena Bodies :=
  if header.content = PROT_CONTENT_XML then do
    let r ← noticeMemory contents header.len calls
    return ⟨dataBuffer, s.queue ++ [r.1]⟩
  else if header.content = PROT_CONTENT_EVENT then do
    let body ← malloc
    -- the fields are copied, and the name of the sound
    let _ ← ofOption (serverProcessClientEventPacket header.content header.len contents)
    let sound ← malloc
    let enqueued ← enqueueMemory (.start sound)
    free (.start body)
    return ⟨.null, s.queue ++ [enqueued]⟩
  else return s

/-- What becomes of a packet that is no event. -/
def Incoming.reaction (identifier : CString) (r : Incoming) : Option Reaction :=
  if r.header.type = PROT_BC_CLIENT then
    serverServletBC (some identifier) r.header.len r.readable
  else some .discarded

/-- The branches of `serverServlet` that end at `servletERR` with a body of their own. -/
def ownBody (identifier : CString) (s : Bodies) (r : Incoming) : Program Arena Bodies := do
  let body ← mallocSized r.header.len.toInt
  let _ ← ofOption (r.reaction identifier)
  free body
  return { s with body := body }

/-- An iteration of `serverServlet` in `tcp_server.c`. -/
def servletIteration (identifier : CString) (s : Bodies) (r : Incoming) : Program Arena Bodies :=
  if ¬ r.header.HasMagic then return s
  else if r.header.type = PROT_CLIENT_EVENT then do
    let buffer ← mallocSized r.header.len.toInt
    if r.Complete then do
      let s ← clientEventMemory s r.header buffer r.bytes r.calls
      free buffer
      return s
    else return s
  else ownBody identifier s r

/-- An iteration of `serverServlet` in `ssl_server.c`. -/
def sslIteration (identifier : CString) (s : Bodies) (r : Incoming) : Program Arena Bodies :=
  if ¬ r.header.HasMagic then return s
  else if r.header.type = PROT_CLIENT_EVENT then do
    let buffer ← mallocSized r.header.len.toInt
    -- what is read goes to where `msg.body` points
    if r.bytes ≠ [] then access s.body
    if r.Complete then do
      -- if nothing was read, then nothing is in the buffer either
      let s ← clientEventMemory s r.header buffer r.bytes r.calls
      free buffer
      return s
    else do
      free s.body
      return s
  else ownBody identifier s r

/-! ## Events -/

/-- The strings that a document loses. -/
def lostBy (content : UInt8) (calls : List XmlCall) : ℕ :=
  if content = PROT_CONTENT_XML then
    (stringAttributes.map fun a => stringsMade a none calls - 1).sum
  else 0

/-- The events that are enqueued for a content. -/
def enqueuedBy (content : UInt8) : ℕ :=
  if content = PROT_CONTENT_XML ∨ content = PROT_CONTENT_EVENT then 1 else 0

variable {s s' : Bodies} {header : Header} {contents msg : List UInt8} {msgLen : Int32}
  {calls : List XmlCall} {p : Pointer} {h h' : Arena} {F : Multiset ℕ}

theorem blocks_append (body body' : Pointer) (queue : List Enqueued) (e : Enqueued) :
    (⟨body, queue ++ [e]⟩ : Bodies).blocks = (⟨body', queue⟩ : Bodies).blocks + e.blocks := by
  simp [Bodies.blocks]

theorem loses_noticeMemory (hcopied : Copied msg msgLen) (hbegins : BeginsWithTag calls) :
    Loses (stringAttributes.map fun a => stringsMade a none calls - 1).sum 0
      (noticeMemory msg msgLen calls) fun r => r.1.blocks := by
  intro h F hlive
  obtain ⟨r, h', hrun, hlive'⟩ := owns_noticeMemory hcopied hbegins h F hlive
  obtain ⟨-, hlength, -⟩ := yields_noticeMemory msg msgLen calls h r h' hrun
  refine ⟨r, h', lostStrings r.2, hrun, ?_, hlive'⟩
  rw [card_lostStrings]
  exact congrArg List.sum (List.map_congr_left fun a ha => by rw [hlength a ha])

/-- **An event** that is decoded gets into the queue. -/
theorem loses_clientEventMemory (hdecodes : header.Decodes contents)
    (hbegins : BeginsWithTag calls) (s : Bodies) (p : Pointer) :
    Loses (lostBy header.content calls) s.blocks (clientEventMemory s header p contents calls)
      Bodies.blocks := by
  rw [clientEventMemory, lostBy]
  by_cases hxml : header.content = PROT_CONTENT_XML
  · rw [if_pos hxml, if_pos hxml]
    have hnotice := (loses_noticeMemory (hdecodes.1 hxml) hbegins).frame s.blocks
    rw [zero_add] at hnotice
    refine hnotice.bind (n := 0) fun r => ?_
    refine (Owns.congr (owns_pure _) ?_ fun _ => rfl).loses
    rw [blocks_append _ s.body, add_comm]
  · rw [if_neg hxml, if_neg hxml]
    by_cases hevent : header.content = PROT_CONTENT_EVENT
    · obtain ⟨out, hout⟩ : ∃ out, serverProcessClientEventPacket PROT_CONTENT_EVENT header.len
          contents = some out :=
        ⟨_, serverProcessClientEventPacket_event_eq_some_iff.mpr ⟨hdecodes.2 hevent, rfl⟩⟩
      rw [if_pos hevent, hevent, hout]
      refine Owns.loses (Owns.malloc_bind fun body => ?_)
      rw [ofOption_some, pure_bind_apply]
      refine Owns.malloc_bind fun sound => ?_
      refine (owns_enqueueMemory (.start sound)).bind_of_eq (R := s.blocks + {body})
        (add_comm _ _) fun enqueued => ?_
      rw [← add_assoc]
      refine Owns.free_bind ?_
      refine Owns.congr (owns_pure _) ?_ fun _ => rfl
      rw [blocks_append _ s.body, add_comm]
    · rw [if_neg hevent]
      exact (owns_pure s).loses

/-- What an event does to the pointer, and that it was decoded. -/
theorem yields_clientEventMemory (s : Bodies) (header : Header) (p : Pointer)
    (contents : List UInt8) (calls : List XmlCall) :
    Yields (fun s' => header.Decodes contents ∧
        s'.queue.length = s.queue.length + enqueuedBy header.content ∧
        s'.body = if header.content = PROT_CONTENT_XML then p
          else if header.content = PROT_CONTENT_EVENT then .null else s.body)
      (clientEventMemory s header p contents calls) := by
  rw [clientEventMemory]
  by_cases hxml : header.content = PROT_CONTENT_XML
  · have hne : ¬ header.content = PROT_CONTENT_EVENT := by rw [hxml]; decide
    rw [if_pos hxml, if_pos hxml]
    refine (yields_noticeMemory contents header.len calls).bind fun r hr => yields_pure ?_
    exact ⟨⟨fun _ => hr.1, fun h => absurd h hne⟩, by simp [enqueuedBy, hxml], rfl⟩
  · rw [if_neg hxml, if_neg hxml]
    by_cases hevent : header.content = PROT_CONTENT_EVENT
    · rw [if_pos hevent, if_pos hevent, hevent]
      refine yields_bind _ fun body => Yields.bind (S := fun _ => ¬ Malformed contents ∧
        NameFits contents) (yields_ofOption fun out hout => ?_) fun _ hwell => ?_
      · exact (serverProcessClientEventPacket_event_eq_some_iff.mp hout).1
      · refine yields_bind _ fun _ => yields_bind _ fun _ => yields_bind _ fun _ => yields_pure ?_
        exact ⟨⟨fun h => absurd h hxml, fun _ => hwell⟩, by simp [enqueuedBy], rfl⟩
    · rw [if_neg hevent, if_neg hevent]
      refine yields_pure ⟨⟨fun h => absurd h hxml, fun h => absurd h hevent⟩, ?_, rfl⟩
      simp [enqueuedBy, hxml, hevent]

/-! ## Bodies of their own -/

variable {identifier : CString} {r : Incoming}

/-- The body is decoded as a client broadcast. -/
def Incoming.IsBroadcast (r : Incoming) : Prop := r.header.type = PROT_BC_CLIENT ∧ r.Complete

instance (r : Incoming) : Decidable r.IsBroadcast := inferInstanceAs (Decidable (_ ∧ _))

theorem reaction_eq_some_iff : (∃ x, r.reaction identifier = some x) ↔ ¬ r.IsBroadcast := by
  rw [Incoming.reaction, Incoming.IsBroadcast]
  by_cases htype : r.header.type = PROT_BC_CLIENT
  · rw [if_pos htype, and_iff_right htype]
    by_cases hcomplete : r.Complete
    · rw [serverServletBC_eq_none hcomplete]
      simp [hcomplete]
    · have hne : (readBody r.header.len r.readable).1 ≠ r.header.len.toInt := hcomplete
      simp [serverServletBC, hne, hcomplete]
  · rw [if_neg htype]
    exact iff_of_true ⟨_, rfl⟩ fun h => htype h.1

/-- **A body that is allocated** is released, and the pointer to it stays. -/
theorem ownBody_of_nonneg (hbc : ¬ r.IsBroadcast) (hlen : 0 ≤ r.header.len.toInt) :
    ownBody identifier s r h
      = (some { s with body := .start h.next }, h.allocate.release h.next) := by
  obtain ⟨x, hx⟩ : ∃ x, r.reaction identifier = some x := reaction_eq_some_iff.mpr hbc
  rw [ownBody, mallocSized_bind_of_nonneg _ hlen, malloc_bind_apply, hx, ofOption_some,
    pure_bind_apply, free_bind_apply _ (Multiset.mem_cons_self _ _)]
  rfl

/-- A body of negative length is not allocated. -/
theorem ownBody_of_neg (hbc : ¬ r.IsBroadcast) (hlen : r.header.len.toInt < 0) :
    ownBody identifier s r h = (some { s with body := .null }, h) := by
  obtain ⟨x, hx⟩ : ∃ x, r.reaction identifier = some x := reaction_eq_some_iff.mpr hbc
  rw [ownBody, mallocSized_bind_of_neg _ hlen, hx]
  rfl

theorem owns_ownBody (hbc : ¬ r.IsBroadcast) (s : Bodies) :
    Owns s.blocks (ownBody identifier s r) Bodies.blocks := by
  intro h F hlive
  rcases lt_or_ge r.header.len.toInt 0 with hlen | hlen
  · exact ⟨_, h, ownBody_of_neg hbc hlen, hlive⟩
  · refine ⟨_, _, ownBody_of_nonneg hbc hlen, ?_⟩
    rw [Arena.live_release, Arena.live_allocate, Multiset.erase_cons_head]
    exact hlive

/-- A client broadcast that is read to its end crashes, and nothing else is enqueued. -/
theorem yields_ownBody (identifier : CString) (s : Bodies) (r : Incoming) :
    Yields (fun s' => ¬ r.IsBroadcast ∧ s'.queue = s.queue) (ownBody identifier s r) := by
  refine yields_bind _ fun body => Yields.bind (S := fun _ => ¬ r.IsBroadcast)
    (yields_ofOption fun x hx => reaction_eq_some_iff.mp ⟨x, hx⟩) fun _ hbc => ?_
  exact yields_bind _ fun _ => yields_pure ⟨hbc, rfl⟩

/-! ## Connections -/

/-- The servlet goes on behind a packet: a client broadcast is not read to its end, and an event
that is read to its end is decoded. -/
def Incoming.Survives (r : Incoming) : Prop :=
  r.header.HasMagic → r.Complete → r.header.type ≠ PROT_BC_CLIENT ∧
    (r.header.type = PROT_CLIENT_EVENT → r.header.Decodes r.bytes)

instance (r : Incoming) : Decidable r.Survives := inferInstanceAs (Decidable (_ → _ → _ ∧ _))

/-- What `serverServlet` loses on a packet: of a document some strings, and the buffer of an event
that was not read to its end. -/
def Incoming.lostByServlet (r : Incoming) : ℕ :=
  if r.header.IsEvent then
    if r.Complete then lostBy r.header.content r.calls
    else if 0 ≤ r.header.len.toInt then 1 else 0
  else 0

/-- The events that `serverServlet` enqueues for a packet. -/
def Incoming.enqueuedByServlet (r : Incoming) : ℕ :=
  if r.header.IsEvent ∧ r.Complete then enqueuedBy r.header.content else 0

/-- **An iteration of `serverServlet`.** -/
theorem loses_servletIteration (hsurvives : r.Survives) (hbegins : BeginsWithTag r.calls)
    (s : Bodies) :
    Loses r.lostByServlet s.blocks (servletIteration identifier s r) Bodies.blocks := by
  rw [servletIteration, Incoming.lostByServlet]
  by_cases hmagic : r.header.HasMagic
  · rw [if_neg (not_not.mpr hmagic)]
    by_cases htype : r.header.type = PROT_CLIENT_EVENT
    · rw [if_pos htype, if_pos ⟨hmagic, htype⟩]
      by_cases hcomplete : r.Complete
      · have hevent (p : Pointer) : Loses (lostBy r.header.content r.calls) s.blocks
            (clientEventMemory s r.header p r.bytes r.calls) Bodies.blocks :=
          loses_clientEventMemory ((hsurvives hmagic hcomplete).2 htype) hbegins s p
        simp only [if_pos hcomplete]
        rcases lt_or_ge r.header.len.toInt 0 with hlen | hlen
        · rw [mallocSized_bind_of_neg _ hlen]
          exact (hevent .null).bind (n := 0) fun s' => (owns_pure s').loses
        · rw [mallocSized_bind_of_nonneg _ hlen]
          refine Loses.malloc_bind fun buffer => ?_
          exact ((hevent (.start buffer)).frame {buffer}).bind (n := 0) fun s' =>
            (Owns.free_bind (owns_pure s')).loses
      · simp only [if_neg hcomplete]
        rcases lt_or_ge r.header.len.toInt 0 with hlen | hlen
        · rw [mallocSized_bind_of_neg _ hlen, if_neg (not_le.mpr hlen)]
          exact (owns_pure s).loses
        · rw [mallocSized_bind_of_nonneg _ hlen, if_pos hlen]
          exact Loses.malloc_bind fun buffer => (owns_pure s).loses.forget
    · rw [if_neg htype, if_neg fun h => htype h.2]
      exact (owns_ownBody (fun h => (hsurvives hmagic h.2).1 h.1) s).loses
  · rw [if_pos hmagic, if_neg fun h => hmagic h.1]
    exact (owns_pure s).loses

/-- What is known behind an iteration. -/
theorem yields_servletIteration (identifier : CString) (s : Bodies) (r : Incoming) :
    Yields (fun s' => r.Survives ∧ s'.queue.length = s.queue.length + r.enqueuedByServlet)
      (servletIteration identifier s r) := by
  rw [servletIteration, Incoming.enqueuedByServlet]
  by_cases hmagic : r.header.HasMagic
  · rw [if_neg (not_not.mpr hmagic)]
    by_cases htype : r.header.type = PROT_CLIENT_EVENT
    · have hne : r.header.type ≠ PROT_BC_CLIENT := by rw [htype]; decide
      have hevent : r.header.IsEvent := ⟨hmagic, htype⟩
      rw [if_pos htype]
      refine yields_bind _ fun buffer => ?_
      by_cases hcomplete : r.Complete
      · rw [if_pos hcomplete, if_pos ⟨hevent, hcomplete⟩]
        refine (yields_clientEventMemory s r.header buffer r.bytes r.calls).bind fun s' hs' => ?_
        exact yields_bind _ fun _ => yields_pure ⟨fun _ _ => ⟨hne, fun _ => hs'.1⟩, hs'.2.1⟩
      · rw [if_neg hcomplete, if_neg fun h => hcomplete h.2]
        exact yields_pure ⟨fun _ h => absurd h hcomplete, rfl⟩
    · rw [if_neg htype, if_neg fun h => htype h.1.2]
      refine (yields_ownBody identifier s r).mono fun s' hs' => ⟨fun _ hcomplete => ?_, ?_⟩
      · exact ⟨fun hbc => hs'.1 ⟨hbc, hcomplete⟩, fun h => absurd h htype⟩
      · rw [hs'.2]
        rfl
  · rw [if_pos hmagic, if_neg fun h => hmagic h.1.1]
    exact yields_pure ⟨fun h => absurd h hmagic, rfl⟩

/-- The packets that `serverServlet` survives. -/
def servletSwitch : Switch Incoming := ⟨fun _ => false, fun _ => false, fun _ r => r.Survives⟩

theorem passes_servletSwitch {b : Bool} : servletSwitch.passes b r = true ↔ r.Survives :=
  decide_eq_true_iff

/-- A header with the magic number. -/
def magicHeader (type content : UInt8) (len : Int32) : Header where
  version := 0
  type := type
  content := content
  magic := PROT_MAGIC_NUMBER.toInt32
  len := len

/-- A document with two hosts. -/
def twoHostsPacket : Incoming :=
  ⟨magicHeader PROT_CLIENT_EVENT PROT_CONTENT_XML 33,
    some (ascii "<notice><host>a b</host></notice>"), twoHosts⟩

/-- The header of an event whose connection is closed before its body has come. -/
def cutOffPacket : Incoming :=
  ⟨magicHeader PROT_CLIENT_EVENT PROT_CONTENT_EVENT 60, some [], []⟩

/-- A client broadcast of two bytes, `a!`. -/
def broadcastPacket : Incoming := ⟨magicHeader PROT_BC_CLIENT 0 2, some (ascii "a!"), []⟩

/-- The body was never written, or was in a block that is released. -/
def Dangling (h : Arena) (p : Pointer) : Prop :=
  p ≠ .null ∧ ∀ b, p = .start b ∨ p = .inside b → b ∉ h.live ∧ b < h.next

/-- What packets do to `msg.body` over SSL: a body of negative length leaves it null, and an event
that can be passed leaves it as it is. -/
def sslSwitch : Switch Incoming where
  sets r := r.header.HasMagic ∧ r.header.type ≠ PROT_CLIENT_EVENT ∧ r.header.len.toInt < 0
  keeps r := ¬ r.header.HasMagic ∨ r.header.type = PROT_CLIENT_EVENT
  passes b r := r.header.HasMagic →
    if r.header.type = PROT_CLIENT_EVENT then r.bytes = [] ∧ b = true else ¬ r.IsBroadcast

/-- The body is null if the switch is set. -/
def SslBody (b : Bool) (s : Bodies) (h : Arena) : Prop :=
  (if b then s.body = .null else Dangling h s.body) ∧ s.queue = []

/-- What `serverServlet` loses on a packet over SSL: the buffer of an event. -/
def Incoming.lostBySsl (r : Incoming) : ℕ := if r.header.IsEvent then 1 else 0

theorem passes_sslSwitch {b : Bool} : sslSwitch.passes b r = true ↔ (r.header.HasMagic →
    if r.header.type = PROT_CLIENT_EVENT then r.bytes = [] ∧ b = true else ¬ r.IsBroadcast) :=
  decide_eq_true_iff

/-- An event of which nothing can be read is not complete. -/
theorem not_complete_of_bytes (hbytes : r.bytes = []) (hlen : 0 < r.header.len.toInt) :
    ¬ r.Complete := by
  intro hcomplete
  have hlength := length_readBody hlen.le hcomplete
  rw [← Incoming.bytes, hbytes] at hlength
  exact hlen.ne hlength

/-- **An event over SSL** is not received: nothing of it can be read, and the body is null, or the
servlet crashes. -/
theorem tracks_sslIteration_event {b : Bool} (hevent : r.header.IsEvent)
    (hlen : 0 < r.header.len.toInt) (hs : SslBody b s h) (hlive : h.live = s.blocks + F) :
    Tracks r.lostBySsl Bodies.blocks SslBody h F (sslIteration identifier s r)
      (sslSwitch.next b r) := by
  rw [sslIteration, if_neg (not_not.mpr hevent.1), if_pos hevent.2,
    mallocSized_bind_of_nonneg _ hlen.le, Switch.next]
  by_cases hbytes : r.bytes = []
  · have hcomplete := not_complete_of_bytes hbytes hlen
    simp only [if_neg (not_not.mpr hbytes), if_neg hcomplete]
    cases b with
    | true =>
      have hpasses : sslSwitch.passes true r = true :=
        passes_sslSwitch.mpr fun _ => by rw [if_pos hevent.2]; exact ⟨hbytes, rfl⟩
      have hturn : sslSwitch.turn true r = true := by simp [Switch.turn, sslSwitch, hevent.2]
      obtain ⟨hnull, hqueue⟩ := hs
      rw [if_pos rfl] at hnull
      rw [if_pos hpasses, hturn, hnull]
      refine ⟨s, h.allocate, {h.next}, rfl, ?_, ?_, ⟨hnull, hqueue⟩⟩
      · rw [Incoming.lostBySsl, if_pos hevent, Multiset.card_singleton]
      · rw [Arena.live_allocate, hlive, ← Multiset.singleton_add]
        abel
    | false =>
      have hpasses : ¬ sslSwitch.passes false r = true := fun hp => by
        have hfalse := passes_sslSwitch.mp hp hevent.1
        rw [if_pos hevent.2] at hfalse
        exact Bool.false_ne_true hfalse.2
      obtain ⟨hbody, -⟩ := hs
      rw [if_neg Bool.false_ne_true] at hbody
      rw [if_neg hpasses]
      refine ⟨h.allocate, ?_⟩
      rw [malloc_bind_apply]
      refine bind_of_none (free_crashes hbody.1 fun b' hb' hmem => ?_)
      obtain ⟨hdead, hlt⟩ := hbody.2 b' (.inl hb')
      obtain rfl | hmem := Multiset.mem_cons.mp hmem
      · exact lt_irrefl _ hlt
      · exact hdead hmem
  · have hpasses : ¬ sslSwitch.passes b r = true := fun hp => by
      have hfalse := passes_sslSwitch.mp hp hevent.1
      rw [if_pos hevent.2] at hfalse
      exact hbytes hfalse.1
    rw [if_neg hpasses]
    refine ⟨h.allocate, ?_⟩
    rw [malloc_bind_apply, if_pos hbytes]
    refine bind_of_none (access_crashes fun b' hb' hmem => ?_)
    obtain ⟨hbody, -⟩ := hs
    cases b with
    | true =>
      rw [if_pos rfl] at hbody
      rw [hbody] at hb'
      obtain hb' | hb' := hb' <;> cases hb'
    | false =>
      rw [if_neg Bool.false_ne_true] at hbody
      obtain ⟨hdead, hlt⟩ := hbody.2 b' hb'
      obtain rfl | hmem := Multiset.mem_cons.mp hmem
      · exact lt_irrefl _ hlt
      · exact hdead hmem

/-- **Another packet over SSL.** -/
theorem tracks_sslIteration {b : Bool} (hlen : r.header.IsEvent → 0 < r.header.len.toInt)
    (hs : SslBody b s h) (hlive : h.live = s.blocks + F) :
    Tracks r.lostBySsl Bodies.blocks SslBody h F (sslIteration identifier s r)
      (sslSwitch.next b r) := by
  by_cases hevent : r.header.IsEvent
  · exact tracks_sslIteration_event hevent (hlen hevent) hs hlive
  rw [sslIteration, Switch.next, Incoming.lostBySsl, if_neg hevent]
  by_cases hmagic : r.header.HasMagic
  · have htype : r.header.type ≠ PROT_CLIENT_EVENT := fun htype => hevent ⟨hmagic, htype⟩
    rw [if_neg (not_not.mpr hmagic), if_neg htype]
    have hpasses : sslSwitch.passes b r = true ↔ ¬ r.IsBroadcast := by
      rw [passes_sslSwitch, if_neg htype]
      exact ⟨fun h => h hmagic, fun h _ => h⟩
    by_cases hbc : r.IsBroadcast
    · rw [if_neg fun hp => hpasses.mp hp hbc]
      exact Yields.crashes ((yields_ownBody identifier s r).mono fun _ hs' => hs'.1 hbc) h
    rw [if_pos (hpasses.mpr hbc)]
    rcases lt_or_ge r.header.len.toInt 0 with hneg | hpos
    · have hturn : sslSwitch.turn b r = true := by simp [Switch.turn, sslSwitch, hmagic, htype, hneg]
      rw [hturn]
      exact ⟨_, h, 0, ownBody_of_neg hbc hneg, rfl, by rw [add_zero]; exact hlive, rfl, hs.2⟩
    · have hturn : sslSwitch.turn b r = false := by
        simp [Switch.turn, sslSwitch, hmagic, htype, not_lt.mpr hpos]
      have hnew : h.next ∉ h.live := fun hmem => lt_irrefl _ (h.lt_next _ hmem)
      rw [hturn]
      refine ⟨_, _, 0, ownBody_of_nonneg hbc hpos, rfl, ?_, ⟨by simp, ?_⟩, hs.2⟩
      · rw [Arena.live_release, Arena.live_allocate, Multiset.erase_cons_head, add_zero]
        exact hlive
      · rintro b' (hb' | hb') <;> cases hb'
        exact ⟨by simpa using hnew, Nat.lt_succ_self _⟩
  · have hpasses : sslSwitch.passes b r = true := passes_sslSwitch.mpr fun h => absurd h hmagic
    have hturn : sslSwitch.turn b r = b := by simp [Switch.turn, sslSwitch, hmagic]
    rw [if_pos hmagic, if_pos hpasses, hturn]
    exact ⟨s, h, 0, rfl, rfl, by rw [hlive, add_zero], hs⟩

/-- The packets that can be passed one after the other. -/
theorem passable_sslSwitch_iff {incoming : List Incoming} : sslSwitch.Passable false incoming ↔
    ∀ before r after, incoming = before ++ r :: after → r.header.HasMagic →
      if r.header.type = PROT_CLIENT_EVENT then r.bytes = [] ∧ sslSwitch.LastSets before
      else ¬ r.IsBroadcast := by
  simp only [Switch.Passable, passes_sslSwitch, Switch.after_iff]

/-- **No event is received over SSL.** The servlet survives the packets of a connection if and only
if no client broadcast is read to its end and each event comes when nothing can be read and the body
is null, behind a packet of negative length. Then nothing was enqueued, and the buffers of the
events are lost. -/
theorem sslLoop_returns_iff {incoming : List Incoming}
    (hlen : ∀ r ∈ incoming, r.header.IsEvent → 0 < r.header.len.toInt) (identifier : CString)
    (h : Arena) :
    ((∃ s h', incoming.foldlM (sslIteration identifier) Bodies.start h = (some s, h')) ↔
      ∀ before r after, incoming = before ++ r :: after → r.header.HasMagic →
        if r.header.type = PROT_CLIENT_EVENT then r.bytes = [] ∧ sslSwitch.LastSets before
        else ¬ r.IsBroadcast) ∧
    ∀ s h', incoming.foldlM (sslIteration identifier) Bodies.start h = (some s, h') →
      s.queue = [] ∧ ∃ lost, lost.card = (incoming.map Incoming.lostBySsl).sum ∧
        h'.live = h.live + lost := by
  have hstart : SslBody false Bodies.start h := ⟨by simp [Dangling, Bodies.start], rfl⟩
  have htracks : Tracks (incoming.map Incoming.lostBySsl).sum Bodies.blocks SslBody h h.live
      (incoming.foldlM (sslIteration identifier) Bodies.start)
      (incoming.foldlM sslSwitch.next false) :=
    tracks_foldlM incoming (fun r hr _ _ _ _ hs hlive => tracks_sslIteration (hlen r hr) hs hlive)
      hstart (zero_add _).symm
  refine ⟨?_, fun s h' hrun => ?_⟩
  · rw [htracks.returns_iff, Switch.isSome_foldlM_next_iff, passable_sslSwitch_iff]
  · obtain ⟨⟨b, -, hqueue⟩, lost, hcard, hlive⟩ := htracks.live hrun
    refine ⟨hqueue, lost, hcard, ?_⟩
    rw [hlive, Bodies.blocks, hqueue]
    exact (congrArg (· + h.live) (zero_add lost)).trans (add_comm _ _)

/-- A server broadcast of negative length. -/
def negativePacket : Incoming := ⟨magicHeader PROT_BC_SERVER 0 (-7), none, []⟩

/-- An event of which something can be read is the end of the server, also behind a body of negative
length. -/
theorem sslLoop_returns_iff_event :
    (∃ s h', [negativePacket, cutOffPacket].foldlM (sslIteration (ascii "a!")) Bodies.start
        (Arena.initial 0) = (some s, h') ∧ s.queue = []) ∧
    ¬ ∃ s h', [negativePacket, twoHostsPacket].foldlM (sslIteration (ascii "a!")) Bodies.start
      (Arena.initial 0) = (some s, h') := by
  constructor
  · obtain ⟨hreturns, hleft⟩ := @sslLoop_returns_iff [negativePacket, cutOffPacket]
      (by decide) (ascii "a!") (Arena.initial 0)
    rw [← passable_sslSwitch_iff, ← Switch.isSome_foldlM_next_iff] at hreturns
    obtain ⟨s, h', hrun⟩ := hreturns.mpr (by decide)
    exact ⟨s, h', hrun, (hleft s h' hrun).1⟩
  · have hcrashes := (@sslLoop_returns_iff [negativePacket, twoHostsPacket] (by decide)
      (ascii "a!") (Arena.initial 0)).1
    rw [hcrashes, ← passable_sslSwitch_iff, ← Switch.isSome_foldlM_next_iff]
    decide

end Peep
