import Peep.Server.Bodies
import Peep.Server.Leases

/-!
# The memory of the UDP server

`serverRealStart` (`udp_server.c`) also keeps `msg.body` from one datagram to the next, and releases
it at `servletERR`. It gets there from a datagram without the magic number, too, with whatever the
pointer is then: never written, released before, or in the middle of the buffer for datagrams, where
an event in XML has left it. It is null only behind an event that is no document.

A client broadcast with a class gets a lease, unless there is one for its address and port. The
broadcast socket of the other servers is read by `receiveUDPPacket`, in which `msg` is cleared
first.

## Choices

As in `Peep.Server.Bodies` and `Peep.Server.Datagram`. The identifier of the server is set, as it is
once the server has been initialized. An alarm, at which leases are released, is not modelled here
but in `Peep.Server.LeaseRuns`.

## Main results

* `udpLoop_ledger` — the datagrams that are dealt with, and what is left of them
* `next_eq_serverRealStart` — the runs are those of `Peep.Server.Datagram`
* `receiveUDPPacketMemory_ledger` — the broadcast socket
-/

namespace Peep

open Bytes Decimal Program Blocks

/-- A datagram that arrives. -/
structure Arrived where
  /-- Where it comes from. -/
  sender : Sender
  /-- Its bytes. -/
  datagram : List UInt8
  /-- What the parser reports if it is a document. -/
  calls : List XmlCall

/-- The header of a datagram. -/
def Arrived.header? (d : Arrived) : Option Header := Peep.header? (received d.datagram)

/-- The variables of `serverRealStart`, and the leases. -/
structure UdpBodies extends Bodies where
  /-- Whose leases there are, and their blocks, the last one first. -/
  leases : List (Sender × ℕ)

/-- The loop begins without leases. -/
def UdpBodies.start : UdpBodies := ⟨Bodies.start, []⟩

/-- The blocks of the events and the leases. -/
def UdpBodies.blocks (s : UdpBodies) : Multiset ℕ :=
  s.toBodies.blocks + (s.leases.map Prod.snd : List ℕ)

/-! ## Broadcasts -/

/-- The loop of `serverProcessClientBC` and `serverProcessBC`, with the name that
`serverContainsIDClass` makes. -/
def processClassesMemory (identifier : Option CString) : Buffer → Program Arena Bool
  | [] => crash
  | none :: _ => crash
  | some c :: rest =>
    if c = 0 || isspace c then return false
    else if c = PROT_CLASSDELIM then do
      let cls ← ofOption (string? (some 0 :: rest))
      let myclass ← malloc
      free (.start myclass)
      if serverContainsIDClass identifier cls then return true
      else processClassesMemory identifier rest
    else processClassesMemory identifier rest

/-- A client broadcast is copied and decoded: whether a class was found. -/
def broadcastMemory (identifier : CString) (header : Header) (contents : List UInt8) :
    Program Arena Bool := do
  let buffer ← ofOption (bodyBuffer (header.len + 1) header.len contents)
  let terminated ← ofOption (write? buffer header.len 0)
  processClassesMemory (some identifier) terminated

/-- The value of that. -/
def broadcast? (identifier : CString) (header : Header) (contents : List UInt8) : Option Bool :=
  (bodyBuffer (header.len + 1) header.len contents).bind fun buffer =>
    processIDString (some identifier) buffer header.len

/-- `serverRespondToClient` and `serverNotifyClientLease`: the buffer of a message. -/
def sendMemory : Program Arena Unit := do
  let buffer ← malloc
  free (.start buffer)

/-- `serverAddClient` up to its messages. -/
def UdpBodies.addLease (s : UdpBodies) (sender : Sender) : Program Arena UdpBodies :=
  if sender ∈ s.leases.map Prod.fst then return s
  else do
    let lease ← malloc
    return { s with leases := (sender, lease) :: s.leases }

/-- The branches of `serverRealStart` for packets that are no events. -/
def packetMemory (identifier : CString) (s : UdpBodies) (header : Header) (contents : List UInt8)
    (sender : Sender) : Program Arena UdpBodies :=
  if header.type = PROT_BC_CLIENT then do
    let ours ← broadcastMemory identifier header contents
    if ours then do
      let s ← s.addLease sender
      sendMemory
      sendMemory
      return s
    else return s
  else do
    let _ ← ofOption (processPacket (some identifier) header contents)
    return s

/-- An iteration of the loop of `serverRealStart`. -/
def udpIteration (identifier : CString) (dataBuffer : ℕ) (s : UdpBodies) (d : Arrived) :
    Program Arena UdpBodies := do
  let header ← ofOption d.header?
  if ¬ header.HasMagic then do
    free s.body
    return s
  else if header.type = PROT_CLIENT_EVENT then do
    let bodies ← clientEventMemory s.toBodies header (.inside dataBuffer) (contents d.datagram)
      d.calls
    return { s with toBodies := bodies }
  else do
    let body ← malloc
    let s ← packetMemory identifier s header (contents d.datagram) d.sender
    free (.start body)
    return { s with body := .start body }

/-- `receiveUDPPacket`. -/
def receiveUDPPacketMemory (identifier : CString) (datagram : List UInt8) :
    Program Arena Unit := do
  let header ← ofOption (header? (received datagram))
  if ¬ header.HasMagic then return ()
  else if header.type = PROT_BC_CLIENT then do
    let body ← malloc
    let ours ← broadcastMemory identifier header (contents datagram)
    if ours then sendMemory
    free (.start body)
  else free .null

/-! ## What the decoders need -/

variable {identifier : Option CString} {id : CString} {buffer : Buffer} {ours : Bool}
  {header : Header} {datagram : List UInt8} {sender : Sender} {s : UdpBodies} {h : Arena}
  {F : Multiset ℕ}

theorem owns_sendMemory : Owns 0 sendMemory fun _ => 0 :=
  Owns.malloc_bind fun buffer => (owns_free buffer).congr (zero_add _).symm fun _ => rfl

theorem yields_processClassesMemory (identifier : Option CString) (buffer : Buffer) :
    Yields (fun ours => processClasses identifier buffer = some ours)
      (processClassesMemory identifier buffer) := by
  induction buffer with
  | nil => exact yields_crash
  | cons c rest ih =>
    cases c with
    | none => exact yields_crash
    | some c =>
      rw [processClassesMemory, processClasses]
      by_cases hstop : (c = 0 || isspace c) = true
      · rw [if_pos hstop, if_pos hstop]
        exact yields_pure rfl
      rw [if_neg hstop, if_neg hstop]
      by_cases hdelim : c = PROT_CLASSDELIM
      · rw [if_pos hdelim, if_pos hdelim]
        refine Yields.bind (yields_ofOption fun cls hcls => hcls) fun cls hcls => ?_
        rw [hcls, Option.bind_eq_bind, Option.bind_some]
        refine yields_bind _ fun _ => yields_bind _ fun _ => ?_
        by_cases hfound : serverContainsIDClass identifier cls = true
        · rw [if_pos hfound, if_pos hfound]
          exact yields_pure rfl
        · rw [if_neg hfound, if_neg hfound]
          exact ih
      · rw [if_neg hdelim, if_neg hdelim]
        exact ih

/-- The names that are made for the classes are released. -/
theorem owns_processClassesMemory (hours : processClasses identifier buffer = some ours) :
    Owns 0 (processClassesMemory identifier buffer) fun _ => 0 := by
  induction buffer with
  | nil => cases hours
  | cons c rest ih =>
    cases c with
    | none => cases hours
    | some c =>
      rw [processClasses] at hours
      rw [processClassesMemory]
      by_cases hstop : (c = 0 || isspace c) = true
      · rw [if_pos hstop]
        exact owns_pure (B := fun _ => 0) false
      rw [if_neg hstop] at hours ⊢
      by_cases hdelim : c = PROT_CLASSDELIM
      · rw [if_pos hdelim] at hours ⊢
        obtain ⟨cls, hcls, hrest⟩ := Option.bind_eq_some_iff.mp hours
        rw [hcls, ofOption_some, pure_bind_apply]
        refine Owns.malloc_bind fun myclass => Owns.free_bind ?_
        by_cases hfound : serverContainsIDClass identifier cls = true
        · rw [if_pos hfound]
          exact owns_pure (B := fun _ => 0) true
        · rw [if_neg hfound] at hrest ⊢
          exact ih hrest
      · rw [if_neg hdelim] at hours ⊢
        exact ih hours

theorem yields_broadcastMemory (id : CString) (header : Header) (contents : List UInt8) :
    Yields (fun ours => broadcast? id header contents = some ours)
      (broadcastMemory id header contents) := by
  refine Yields.bind (yields_ofOption fun b hb => hb) fun b hb => ?_
  refine Yields.bind (yields_ofOption fun t ht => ht) fun t ht => ?_
  refine (yields_processClassesMemory (some id) t).mono fun ours hours => ?_
  rw [broadcast?, hb, Option.bind_some, processIDString, ht]
  exact hours

/-- **A client broadcast** that is decoded leaves nothing allocated. -/
theorem owns_broadcastMemory {contents : List UInt8}
    (hours : broadcast? id header contents = some ours) :
    Owns 0 (broadcastMemory id header contents) fun _ => 0 := by
  obtain ⟨b, hb, hid⟩ := Option.bind_eq_some_iff.mp hours
  obtain ⟨t, ht, hclasses⟩ := Option.bind_eq_some_iff.mp hid
  rw [broadcastMemory, hb, ofOption_some, pure_bind_apply, ht, ofOption_some, pure_bind_apply]
  exact owns_processClassesMemory hclasses

/-! ## The lengths of datagrams -/

/-- The lengths for which a datagram is dealt with: what is copied of it was received. -/
def Header.WithinBounds (h : Header) (body : List UInt8) : Prop :=
  if h.type = PROT_CLIENT_EVENT then h.Decodes body
  else 0 ≤ h.len.toInt ∧ h.len.toInt ≤ body.length

instance (h : Header) (body : List UInt8) : Decidable (h.WithinBounds body) :=
  inferInstanceAs (Decidable (if h.type = PROT_CLIENT_EVENT then h.Decodes body
    else 0 ≤ h.len.toInt ∧ h.len.toInt ≤ body.length))

/-- A body is filled if its length is that of bytes received. -/
theorem exists_bodyBuffer_iff {size len : Int32} {body : List UInt8}
    (hsize : 0 ≤ len.toInt → len.toInt ≤ body.length → len.toInt ≤ size.toInt) :
    (∃ b, bodyBuffer size len body = some b) ↔ 0 ≤ len.toInt ∧ len.toInt ≤ body.length := by
  simp only [bodyBuffer_eq_some_iff, exists_and_left, exists_eq, and_true]
  exact ⟨fun h => ⟨h.1, h.2.1⟩, fun h => ⟨h.1, h.2, hsize h.1 h.2⟩⟩

/-- **The client broadcasts that are decoded.** -/
theorem exists_broadcast_iff : (∃ ours, broadcast? id header (contents datagram) = some ours) ↔
    0 ≤ header.len.toInt ∧ header.len.toInt ≤ (contents datagram).length := by
  rw [← exists_bodyBuffer_iff (@le_add_one_of_contents header.len datagram)]
  constructor
  · rintro ⟨ours, hours⟩
    obtain ⟨b, hb, -⟩ := Option.bind_eq_some_iff.mp hours
    exact ⟨b, hb⟩
  · rintro ⟨b, hb⟩
    obtain ⟨hlen, rfl⟩ := bodyBuffer_add_one length_contents_le hb
    obtain ⟨ours, hours⟩ := @exists_processIDString (some id) _ _ none [] hlen
    exact ⟨ours, Option.bind_eq_some_iff.mpr ⟨_, hb, hours⟩⟩

theorem exists_serverProcessBC_iff : (∃ x, ((bodyBuffer (header.len + 1) header.len
    (contents datagram)).bind fun body => serverProcessBC (some id) body header.len) = some x) ↔
      0 ≤ header.len.toInt ∧ header.len.toInt ≤ (contents datagram).length := by
  rw [← @exists_broadcast_iff id, broadcast?]
  simp only [serverProcessBC, Option.bind_eq_some_iff, Option.map_eq_some_iff]
  constructor
  · rintro ⟨x, b, hb, ours, hours, -⟩
    exact ⟨ours, b, hb, hours⟩
  · rintro ⟨ours, b, hb, hours⟩
    exact ⟨_, b, hb, ours, hours, rfl⟩

/-- **The packets that are copied.** -/
theorem exists_processPacket_iff (hevent : header.type ≠ PROT_CLIENT_EVENT) :
    (∃ x, processPacket (some id) header (contents datagram) = some x) ↔
      0 ≤ header.len.toInt ∧ header.len.toInt ≤ (contents datagram).length := by
  have hcopied (size : Int32) (r : Reaction) (hsize : 0 ≤ header.len.toInt →
      header.len.toInt ≤ (contents datagram).length → header.len.toInt ≤ size.toInt) :
      (∃ x, ((bodyBuffer size header.len (contents datagram)).bind fun _ => some r) = some x) ↔
        0 ≤ header.len.toInt ∧ header.len.toInt ≤ (contents datagram).length := by
    rw [← exists_bodyBuffer_iff hsize]
    cases bodyBuffer size header.len (contents datagram) <;> simp
  rw [processPacket]
  by_cases hserver : header.type = PROT_BC_SERVER
  · rw [if_pos hserver]
    exact hcopied _ _ le_add_one_of_contents
  rw [if_neg hserver]
  by_cases hclient : header.type = PROT_BC_CLIENT
  · rw [if_pos hclient]
    exact exists_serverProcessBC_iff
  rw [if_neg hclient]
  by_cases hserverAlive : header.type = PROT_SERVER_STILL_ALIVE
  · rw [if_pos hserverAlive]
    exact hcopied _ _ fun _ _ => le_rfl
  rw [if_neg hserverAlive]
  by_cases hclientAlive : header.type = PROT_CLIENT_STILL_ALIVE
  · rw [if_pos hclientAlive]
    exact hcopied _ _ fun _ _ => le_rfl
  rw [if_neg hclientAlive, if_neg hevent]
  exact hcopied _ _ fun _ _ => le_rfl

/-! ## Leases -/

theorem owns_addLease (s : UdpBodies) (sender : Sender) :
    Owns s.blocks (s.addLease sender) UdpBodies.blocks := by
  refine owns_ite (fun _ => owns_pure s) fun _ => Owns.malloc_bind fun lease => ?_
  refine Owns.congr (owns_pure _) ?_ fun _ => rfl
  rw [UdpBodies.blocks, UdpBodies.blocks, List.map_cons, ← Multiset.cons_coe,
    ← Multiset.singleton_add]
  abel

/-- **A lease** is added for a sender who has none. -/
theorem yields_addLease (s : UdpBodies) (sender : Sender) :
    Yields (fun s' => s'.toBodies = s.toBodies ∧
      s'.leases.map Prod.fst = (s.leases.map Prod.fst).insert sender) (s.addLease sender) := by
  rw [UdpBodies.addLease]
  by_cases hmem : sender ∈ s.leases.map Prod.fst
  · rw [if_pos hmem]
    exact yields_pure ⟨rfl, (List.insert_of_mem hmem).symm⟩
  · rw [if_neg hmem]
    exact yields_bind _ fun lease => yields_pure ⟨rfl, (List.insert_of_not_mem hmem).symm⟩

/-- **A packet that is no event** leaves its lease. -/
theorem owns_packetMemory (hevent : header.type ≠ PROT_CLIENT_EVENT)
    (hlen : 0 ≤ header.len.toInt ∧ header.len.toInt ≤ (contents datagram).length) (s : UdpBodies)
    (sender : Sender) :
    Owns s.blocks (packetMemory id s header (contents datagram) sender) UdpBodies.blocks := by
  rw [packetMemory]
  by_cases hclient : header.type = PROT_BC_CLIENT
  · rw [if_pos hclient]
    obtain ⟨ours, hours⟩ : ∃ ours, broadcast? id header (contents datagram) = some ours :=
      exists_broadcast_iff.mpr hlen
    refine (owns_broadcastMemory hours).bind_of_eq (zero_add _).symm fun ours => ?_
    rw [zero_add]
    refine owns_ite (fun _ => (owns_addLease s sender).bind fun s' => ?_) fun _ => owns_pure s
    refine owns_sendMemory.bind_of_eq (zero_add _).symm fun _ => ?_
    refine owns_sendMemory.bind_of_eq rfl fun _ => ?_
    exact (owns_pure s').congr (zero_add _).symm fun _ => rfl
  · rw [if_neg hclient]
    obtain ⟨x, hx⟩ : ∃ x, processPacket (some id) header (contents datagram) = some x :=
      (exists_processPacket_iff hevent).mpr hlen
    rw [hx]
    exact owns_pure s

/-- The packet is a client broadcast with a class, for which there is a lease then. -/
def Arrived.Joins (id : CString) (d : Arrived) : Prop :=
  ∃ header ∈ d.header?, header.HasMagic ∧ header.type = PROT_BC_CLIENT ∧
    broadcast? id header (contents d.datagram) = some true

instance (id : CString) (d : Arrived) : Decidable (d.Joins id) :=
  inferInstanceAs (Decidable (∃ header ∈ d.header?, _ ∧ _ ∧ _))

/-- Whose leases there are behind a datagram. -/
def joined (id : CString) (senders : List Sender) (d : Arrived) : List Sender :=
  if d.Joins id then senders.insert d.sender else senders

/-- What a packet that is no event does to the leases, and that its length is within bounds. -/
theorem yields_packetMemory (hevent : header.type ≠ PROT_CLIENT_EVENT) (id : CString)
    (s : UdpBodies) (sender : Sender) :
    Yields (fun s' => (0 ≤ header.len.toInt ∧ header.len.toInt ≤ (contents datagram).length) ∧
        s'.toBodies = s.toBodies ∧ s'.leases.map Prod.fst
          = if header.type = PROT_BC_CLIENT ∧ broadcast? id header (contents datagram) = some true
            then (s.leases.map Prod.fst).insert sender else s.leases.map Prod.fst)
      (packetMemory id s header (contents datagram) sender) := by
  rw [packetMemory]
  by_cases hclient : header.type = PROT_BC_CLIENT
  · rw [if_pos hclient]
    refine (yields_broadcastMemory id header (contents datagram)).bind fun ours hours => ?_
    have hlen := exists_broadcast_iff.mp ⟨ours, hours⟩
    cases ours with
    | true =>
      rw [if_pos rfl, if_pos ⟨hclient, hours⟩]
      refine (yields_addLease s sender).bind fun s' hs' => ?_
      exact yields_bind _ fun _ => yields_bind _ fun _ => yields_pure ⟨hlen, hs'⟩
    | false =>
      rw [if_neg Bool.false_ne_true, if_neg fun h => by simp [hours] at h]
      exact yields_pure ⟨hlen, rfl, rfl⟩
  · rw [if_neg hclient, if_neg fun h => hclient h.1]
    refine Yields.bind (yields_ofOption fun x hx => hx) fun x hx => ?_
    exact yields_pure ⟨(exists_processPacket_iff hevent).mp ⟨x, hx⟩, rfl, rfl⟩

/-! ## Datagrams -/

/-- What datagrams do to `msg.body`: an event that is no document leaves it null, and a packet
without the magic number can be passed only then. -/
def udpSwitch : Switch Arrived where
  sets d := ∃ h ∈ d.header?, h.IsEvent ∧ h.content = PROT_CONTENT_EVENT
  keeps d := ∃ h ∈ d.header?, ¬ h.HasMagic ∨
    h.IsEvent ∧ h.content ≠ PROT_CONTENT_EVENT ∧ h.content ≠ PROT_CONTENT_XML
  passes b d := ∃ h ∈ d.header?,
    if h.HasMagic then h.WithinBounds (contents d.datagram) else b = true

/-- The body is null if the switch is set, and otherwise one that must not be released. -/
def UdpBody (b : Bool) (s : UdpBodies) (h : Arena) : Prop :=
  if b then s.body = .null else s.body ≠ .null ∧ ∀ c, s.body = .start c → c ∉ h.live

/-- What `serverRealStart` loses on a datagram. -/
def Arrived.lost (d : Arrived) : ℕ :=
  match d.header? with
  | none => 0
  | some h => if h.IsEvent then lostBy h.content d.calls else 0

/-- The events that it enqueues for a datagram. -/
def Arrived.enqueued (d : Arrived) : ℕ :=
  match d.header? with
  | none => 0
  | some h => if h.IsEvent then enqueuedBy h.content else 0

variable {b : Bool} {d : Arrived}

theorem joins_iff (hheader : d.header? = some header) : d.Joins id ↔ header.HasMagic ∧
    header.type = PROT_BC_CLIENT ∧ broadcast? id header (contents d.datagram) = some true := by
  simp [Arrived.Joins, hheader]

theorem passes_udpSwitch (hheader : d.header? = some header) : udpSwitch.passes b d = true ↔
    if header.HasMagic then header.WithinBounds (contents d.datagram) else b = true := by
  simp [udpSwitch, hheader]

theorem turn_udpSwitch (hheader : d.header? = some header) : udpSwitch.turn b d =
    (decide (header.IsEvent ∧ header.content = PROT_CONTENT_EVENT) ||
      (decide (¬ header.HasMagic ∨ header.IsEvent ∧ header.content ≠ PROT_CONTENT_EVENT ∧
        header.content ≠ PROT_CONTENT_XML) && b)) := by
  simp [Switch.turn, udpSwitch, hheader]

/-- What is known behind an iteration. -/
theorem yields_udpIteration (id : CString) (dataBuffer : ℕ) (s : UdpBodies) (d : Arrived) :
    Yields (fun s' => s'.queue.length = s.queue.length + d.enqueued ∧
        s'.leases.map Prod.fst = joined id (s.leases.map Prod.fst) d)
      (udpIteration id dataBuffer s d) := by
  refine Yields.bind (yields_ofOption fun header hheader => hheader) fun header hheader => ?_
  rw [Arrived.enqueued, hheader]
  simp only [joined, joins_iff hheader]
  by_cases hmagic : header.HasMagic
  · rw [if_neg (not_not.mpr hmagic)]
    by_cases htype : header.type = PROT_CLIENT_EVENT
    · have hclient : header.type ≠ PROT_BC_CLIENT := by rw [htype]; decide
      rw [if_pos htype, if_pos ⟨hmagic, htype⟩, if_neg fun h => hclient h.2.1]
      refine (yields_clientEventMemory s.toBodies header (.inside dataBuffer)
        (contents d.datagram) d.calls).bind fun bodies hbodies => ?_
      exact yields_pure ⟨hbodies.2.1, rfl⟩
    · rw [if_neg htype, if_neg fun h => htype h.2]
      refine yields_bind _ fun body => ?_
      refine (yields_packetMemory htype id s d.sender).bind fun s' hs' => ?_
      refine yields_bind _ fun _ => yields_pure ⟨?_, ?_⟩
      · rw [hs'.2.1]
        rfl
      · rw [hs'.2.2]
        simp only [hmagic, true_and]
  · rw [if_pos hmagic, if_neg fun h => hmagic h.1, if_neg fun h => hmagic h.1]
    exact yields_bind _ fun _ => yields_pure ⟨rfl, rfl⟩

/-- A packet that is no event, with a body of its own. -/
theorem tracks_packet (hheader : d.header? = some header) (hmagic : header.HasMagic)
    (htype : header.type ≠ PROT_CLIENT_EVENT) (hlive : h.live = s.blocks + F) (dataBuffer : ℕ) :
    Tracks d.lost UdpBodies.blocks UdpBody h F (udpIteration id dataBuffer s d)
      (udpSwitch.next b d) := by
  have hpasses : udpSwitch.passes b d = true ↔
      0 ≤ header.len.toInt ∧ header.len.toInt ≤ (contents d.datagram).length := by
    rw [passes_udpSwitch hheader, if_pos hmagic, Header.WithinBounds, if_neg htype]
  rw [udpIteration, hheader, ofOption_some, pure_bind_apply, if_neg (not_not.mpr hmagic),
    if_neg htype, Switch.next]
  by_cases hlen : 0 ≤ header.len.toInt ∧ header.len.toInt ≤ (contents d.datagram).length
  · have hturn : udpSwitch.turn b d = false := by
      simp [turn_udpSwitch hheader, Header.IsEvent, hmagic, htype]
    obtain ⟨s', h', hrun, hlive'⟩ := owns_packetMemory htype hlen s d.sender h.allocate
      ({h.next} + F) (by rw [Arena.live_allocate, hlive, ← Multiset.singleton_add]; abel)
    have hbody : h.next ∈ h'.live := by rw [hlive']; simp
    rw [if_pos (hpasses.mpr hlen), hturn]
    refine ⟨{ s' with body := .start h.next }, h'.release h.next, 0, ?_, ?_, ?_, ?_⟩
    · rw [malloc_bind_apply, bind_of_some hrun, free_bind_apply _ hbody]
      rfl
    · rw [Arrived.lost, hheader]
      exact (if_neg fun h => htype h.2).symm
    · rw [Arena.live_release, hlive', Multiset.singleton_add, Multiset.add_cons,
        Multiset.erase_cons_head, add_zero]
      rfl
    · refine ⟨by simp, ?_⟩
      rintro c hc
      obtain rfl : h.next = c := by simpa using hc
      exact h'.nodup.notMem_erase
  · rw [if_neg fun hp => hlen (hpasses.mp hp)]
    refine Yields.crashes (yields_bind _ fun body => ?_) h
    exact (yields_packetMemory htype id s d.sender).bind fun s' hs' => (hlen hs'.1).elim

/-- The pointer behind an event. -/
theorem udpBody_clientEventMemory {bodies : Bodies} {h' : Arena} {dataBuffer : ℕ}
    (hheader : d.header? = some header) (hevent : header.IsEvent) (hs : UdpBody b s h)
    (hrun : clientEventMemory s.toBodies header (.inside dataBuffer) (contents d.datagram) d.calls h
      = (some bodies, h')) :
    UdpBody (udpSwitch.turn b d) { s with toBodies := bodies } h' := by
  obtain ⟨-, -, hbody⟩ := yields_clientEventMemory s.toBodies header (.inside dataBuffer)
    (contents d.datagram) d.calls h bodies h' hrun
  rw [turn_udpSwitch hheader]
  by_cases hxml : header.content = PROT_CONTENT_XML
  · have hne : PROT_CONTENT_XML ≠ PROT_CONTENT_EVENT := by decide
    rw [if_pos hxml] at hbody
    simp [UdpBody, hevent.1, hxml, hne, hbody]
  · rw [if_neg hxml] at hbody
    by_cases hcontent : header.content = PROT_CONTENT_EVENT
    · rw [if_pos hcontent] at hbody
      simp [UdpBody, hevent, hcontent, hbody]
    · rw [clientEventMemory, if_neg hxml, if_neg hcontent] at hrun
      obtain ⟨rfl, rfl⟩ : s.toBodies = bodies ∧ h = h' := by simpa using hrun
      simpa [hevent, hxml, hcontent] using hs

/-- An event. -/
theorem tracks_event (hheader : d.header? = some header) (hevent : header.IsEvent)
    (hbegins : BeginsWithTag d.calls) (hs : UdpBody b s h) (hlive : h.live = s.blocks + F)
    (dataBuffer : ℕ) :
    Tracks d.lost UdpBodies.blocks UdpBody h F (udpIteration id dataBuffer s d)
      (udpSwitch.next b d) := by
  have hpasses : udpSwitch.passes b d = true ↔ header.Decodes (contents d.datagram) := by
    rw [passes_udpSwitch hheader, if_pos hevent.1, Header.WithinBounds, if_pos hevent.2]
  have hyields := yields_clientEventMemory s.toBodies header (.inside dataBuffer)
    (contents d.datagram) d.calls
  rw [udpIteration, hheader, ofOption_some, pure_bind_apply, if_neg (not_not.mpr hevent.1),
    if_pos hevent.2, Switch.next]
  by_cases hdecodes : header.Decodes (contents d.datagram)
  · rw [if_pos (hpasses.mpr hdecodes)]
    obtain ⟨bodies, h', L, hrun, hcard, hlive'⟩ := loses_clientEventMemory hdecodes hbegins
      s.toBodies (.inside dataBuffer) h ((s.leases.map Prod.snd : List ℕ) + F)
      (by rw [hlive, UdpBodies.blocks, add_assoc])
    obtain ⟨-, -, hbody⟩ := hyields h bodies h' hrun
    refine ⟨{ s with toBodies := bodies }, h', L, ?_, ?_, ?_, ?_⟩
    · rw [bind_of_some hrun]
      rfl
    · rw [hcard, Arrived.lost, hheader]
      exact (if_pos hevent).symm
    · rw [hlive', UdpBodies.blocks]
      abel
    · exact udpBody_clientEventMemory hheader hevent hs hrun
  · rw [if_neg fun hp => hdecodes (hpasses.mp hp)]
    exact Yields.crashes (hyields.bind fun s' hs' => (hdecodes hs'.1).elim) h

/-- **An iteration of `serverRealStart`.** -/
theorem tracks_udpIteration (hbegins : BeginsWithTag d.calls) (hs : UdpBody b s h)
    (hlive : h.live = s.blocks + F) (dataBuffer : ℕ) :
    Tracks d.lost UdpBodies.blocks UdpBody h F (udpIteration id dataBuffer s d)
      (udpSwitch.next b d) := by
  cases hheader : d.header? with
  | none =>
    have hpasses : ¬ udpSwitch.passes b d = true := by simp [udpSwitch, hheader]
    rw [Switch.next, if_neg hpasses, udpIteration, hheader]
    exact ⟨h, rfl⟩
  | some header =>
    by_cases hmagic : header.HasMagic
    · by_cases htype : header.type = PROT_CLIENT_EVENT
      · exact tracks_event hheader ⟨hmagic, htype⟩ hbegins hs hlive dataBuffer
      · exact tracks_packet hheader hmagic htype hlive dataBuffer
    · have hpasses : udpSwitch.passes b d = true ↔ b = true := by
        rw [passes_udpSwitch hheader, if_neg hmagic]
      rw [udpIteration, hheader, ofOption_some, pure_bind_apply, if_pos hmagic, Switch.next]
      cases b with
      | true =>
        have hturn : udpSwitch.turn true d = true := by simp [turn_udpSwitch hheader, hmagic]
        have hnull : s.body = .null := hs
        rw [if_pos (hpasses.mpr rfl), hturn, hnull]
        refine ⟨s, h, 0, rfl, ?_, by rw [hlive, add_zero], hs⟩
        rw [Arrived.lost, hheader]
        exact (if_neg fun h => hmagic h.1).symm
      | false =>
        have hstale : s.body ≠ .null ∧ ∀ c, s.body = .start c → c ∉ h.live := hs
        rw [if_neg fun hp => Bool.false_ne_true (hpasses.mp hp)]
        exact ⟨h, bind_of_none (free_crashes hstale.1 hstale.2)⟩

/-- The senders that have a lease behind some datagrams. -/
theorem mem_foldl_joined {sender : Sender} (arrived : List Arrived) (senders : List Sender) :
    sender ∈ arrived.foldl (joined id) senders ↔
      sender ∈ senders ∨ ∃ d ∈ arrived, d.Joins id ∧ d.sender = sender := by
  induction arrived generalizing senders with
  | nil => simp
  | cons d arrived ih =>
    rw [List.foldl_cons, ih, joined]
    by_cases hjoins : d.Joins id
    · have hcons : (∃ e ∈ d :: arrived, e.Joins id ∧ e.sender = sender) ↔
          sender = d.sender ∨ ∃ e ∈ arrived, e.Joins id ∧ e.sender = sender := by
        simp [hjoins, eq_comm]
      rw [if_pos hjoins, List.mem_insert_iff, hcons, or_assoc, or_left_comm]
    · simp [hjoins]

theorem nodup_foldl_joined (arrived : List Arrived) {senders : List Sender}
    (h : senders.Nodup) : (arrived.foldl (joined id) senders).Nodup := by
  induction arrived generalizing senders with
  | nil => exact h
  | cons d arrived ih =>
    rw [List.foldl_cons]
    refine ih ?_
    rw [joined]
    split_ifs
    · exact h.insert
    · exact h

/-- The datagrams that can be passed one after the other. -/
theorem passable_udpSwitch_iff {arrived : List Arrived} : udpSwitch.Passable false arrived ↔
    ∀ before d after, arrived = before ++ d :: after → ∃ header, d.header? = some header ∧
      if header.HasMagic then header.WithinBounds (contents d.datagram)
      else udpSwitch.LastSets before := by
  simp only [Switch.Passable, ← Switch.after_iff]
  refine forall_congr' fun before => forall_congr' fun d => forall_congr' fun after =>
    imp_congr_right fun _ => ?_
  cases hheader : d.header? with
  | none => simp [udpSwitch, hheader]
  | some header => rw [passes_udpSwitch hheader]; simp

/-- A datagram of a client at port 2001. -/
def datagramWith (type content : UInt8) (magic : UInt32) (body : List UInt8) : Arrived where
  sender := ⟨1, 2001⟩
  datagram := [0, type, content, 0, 0, 0, 0, 0] ++ wordBytes magic ++
    wordBytes (UInt32.ofNat body.length) ++ body
  calls := []

/-- An event without a sound. -/
def silentEvent : Arrived :=
  datagramWith PROT_CLIENT_EVENT PROT_CONTENT_EVENT PROT_MAGIC_NUMBER (List.replicate 16 0)

/-- A datagram without the magic number. -/
def foreignDatagram : Arrived := datagramWith PROT_CLIENT_EVENT 0 0 []

/-- A client broadcast with a class. -/
def broadcastDatagram : Arrived := datagramWith PROT_BC_CLIENT 0 PROT_MAGIC_NUMBER (ascii "a!")

/-- **The events that are decoded** from a datagram. -/
theorem exists_event_iff {len : Int32} {content : UInt8} :
    (∃ out, serverProcessClientEventPacket content len (contents datagram) = some out) ↔
      (content = PROT_CONTENT_XML → Copied (contents datagram) len) ∧
        (content = PROT_CONTENT_EVENT →
          ¬ Malformed (contents datagram) ∧ NameFits (contents datagram)) := by
  have hsize : (contents datagram).length ≤ 496 := length_contents_le
  by_cases hxml : content = PROT_CONTENT_XML
  · subst hxml
    have hne : PROT_CONTENT_XML ≠ PROT_CONTENT_EVENT := by decide
    simp only [serverProcessClientEventPacket_xml_eq_some_iff, exists_and_left, exists_eq, and_true,
      forall_const, hne, false_implies, Copied]
    exact ⟨fun h => ⟨h.1, h.2, by omega⟩, fun h => ⟨h.1, h.2.1⟩⟩
  by_cases hevent : content = PROT_CONTENT_EVENT
  · subst hevent
    have hne : PROT_CONTENT_EVENT ≠ PROT_CONTENT_XML := by decide
    simp [serverProcessClientEventPacket_event_eq_some_iff, hne]
  · rw [serverProcessClientEventPacket, if_neg hxml, if_neg hevent]
    exact iff_of_true ⟨_, rfl⟩ ⟨fun h => absurd h hxml, fun h => absurd h hevent⟩

/-- **The datagrams that are dealt with.** -/
theorem isSome_processPacket_iff :
    (processPacket (some id) header (contents datagram)).isSome ↔
      header.WithinBounds (contents datagram) := by
  rw [Option.isSome_iff_exists, Header.WithinBounds]
  by_cases htype : header.type = PROT_CLIENT_EVENT
  · rw [if_pos htype, Header.Decodes, ← exists_event_iff, processPacket]
    rw [if_neg (by rw [htype]; decide), if_neg (by rw [htype]; decide),
      if_neg (by rw [htype]; decide), if_neg (by rw [htype]; decide), if_pos htype]
    cases serverProcessClientEventPacket header.content header.len (contents datagram) <;> simp
  · rw [if_neg htype]
    exact exists_processPacket_iff htype

/-- The pointer behind a packet with the magic number. -/
theorem after_eq_null_iff (hheader : d.header? = some header) (hmagic : header.HasMagic) :
    decide (BodyState.after (if b then .null else .stale) header = .null)
      = udpSwitch.turn b d := by
  rw [turn_udpSwitch hheader, BodyState.after]
  by_cases htype : header.type = PROT_CLIENT_EVENT
  · have hevent : header.IsEvent := ⟨hmagic, htype⟩
    by_cases hcontent : header.content = PROT_CONTENT_EVENT
    · simp [htype, hcontent, hevent]
    by_cases hxml : header.content = PROT_CONTENT_XML
    · have hne : PROT_CONTENT_XML ≠ PROT_CONTENT_EVENT := by decide
      simp [htype, hxml, hne, hmagic]
    · cases b <;> simp [htype, hcontent, hxml, hevent]
  · simp [htype, Header.IsEvent, hmagic]

/-- **The runs are those of the loop without its memory.** -/
theorem next_eq_serverRealStart (id : CString) (b : Bool) (d : Arrived) : udpSwitch.next b d =
    (serverRealStart (some id) (if b then .null else .stale) (received d.datagram)).map fun x =>
      decide (x.2 = .null) := by
  rw [Switch.next, serverRealStart]
  cases hheader : d.header? with
  | none =>
    have hnone : Peep.header? (received d.datagram) = none := hheader
    rw [hnone, if_neg (by simp [udpSwitch, hheader])]
    rfl
  | some header =>
    have hsome : Peep.header? (received d.datagram) = some header := hheader
    rw [hsome, Option.bind_eq_bind, Option.bind_some]
    by_cases hmagic : header.HasMagic
    · have hmagic' : header.magic.toUInt32 = PROT_MAGIC_NUMBER := hmagic
      have hpasses : udpSwitch.passes b d = true ↔
          (processPacket (some id) header (contents d.datagram)).isSome := by
        rw [passes_udpSwitch hheader, if_pos hmagic, isSome_processPacket_iff]
      rw [if_neg (not_not.mpr hmagic'), drop_received, Option.map_map]
      cases hpacket : processPacket (some id) header (contents d.datagram) with
      | none =>
        rw [hpacket] at hpasses
        exact if_neg fun hp => Bool.false_ne_true (hpasses.mp hp)
      | some x =>
        rw [hpacket] at hpasses
        rw [if_pos (hpasses.mpr rfl), ← after_eq_null_iff hheader hmagic]
        rfl
    · have hmagic' : header.magic.toUInt32 ≠ PROT_MAGIC_NUMBER := hmagic
      have hpasses : udpSwitch.passes b d = true ↔ b = true := by
        rw [passes_udpSwitch hheader, if_neg hmagic]
      rw [if_pos hmagic']
      cases b with
      | true => simp [hpasses.mpr rfl, turn_udpSwitch hheader, hmagic]
      | false => simp [hpasses]

/-! ## The broadcast socket -/

/-- **The datagrams that are read from the broadcast socket.** -/
theorem isSome_receiveUDPPacket_iff :
    (receiveUDPPacket (some id) (received datagram)).isSome ↔
      ∃ header, header? (received datagram) = some header ∧
        (header.HasMagic → header.type = PROT_BC_CLIENT →
          ∃ ours, broadcast? id header (contents datagram) = some ours) := by
  rw [receiveUDPPacket]
  cases hheader : header? (received datagram) with
  | none => simp
  | some header =>
    simp only [Option.bind_eq_bind, Option.bind_some, Option.some.injEq, exists_eq_left',
      drop_received, Header.HasMagic]
    split_ifs with hmagic hserver hclient
    · exact iff_of_true rfl fun h => absurd h hmagic
    · exact iff_of_true rfl fun _ h => by rw [hserver] at h; cases h
    · rw [Option.isSome_iff_exists, broadcast?]
      simp only [not_not.mp hmagic, hclient, forall_const]
      constructor
      · rintro ⟨x, hx⟩
        obtain ⟨b, hb, -⟩ := Option.bind_eq_some_iff.mp hx
        obtain ⟨hlen, rfl⟩ := bodyBuffer_add_one length_contents_le hb
        obtain ⟨ours, hours⟩ := @exists_processIDString (some id) _ _ none [] hlen
        exact ⟨ours, Option.bind_eq_some_iff.mpr ⟨_, hb, hours⟩⟩
      · rintro ⟨x, hx⟩
        obtain ⟨b, hb, -⟩ := Option.bind_eq_some_iff.mp hx
        obtain ⟨hlen, rfl⟩ := bodyBuffer_add_one length_contents_le hb
        obtain ⟨ours, hours⟩ := @exists_processIDString (some id) _ _ (some 0) [] hlen
        refine ⟨.respond ours, Option.bind_eq_some_iff.mpr ⟨_, hb, ?_⟩⟩
        rw [write?_length_map hlen, Option.bind_some, serverProcessClientBC, hours]
        rfl
    · exact iff_of_true rfl fun _ h => absurd h hclient

/-- **The broadcast socket** neither loses a body nor releases one twice: it goes out of bounds
exactly where the function without its memory does. -/
theorem receiveUDPPacketMemory_ledger (id : CString) (datagram : List UInt8) (h : Arena) :
    ((∃ h', receiveUDPPacketMemory id datagram h = (some (), h')) ↔
      (receiveUDPPacket (some id) (received datagram)).isSome) ∧
    ∀ h', receiveUDPPacketMemory id datagram h = (some (), h') → h'.live = h.live := by
  have hyields : Yields (fun _ => (receiveUDPPacket (some id) (received datagram)).isSome)
      (receiveUDPPacketMemory id datagram) := by
    rw [isSome_receiveUDPPacket_iff]
    refine Yields.bind (yields_ofOption fun header hheader => hheader) fun header hheader => ?_
    by_cases hmagic : header.HasMagic
    · rw [if_neg (not_not.mpr hmagic)]
      by_cases hclient : header.type = PROT_BC_CLIENT
      · rw [if_pos hclient]
        refine yields_bind _ fun body => ?_
        refine (yields_broadcastMemory id header (contents datagram)).bind fun ours hours => ?_
        exact fun _ _ _ _ => ⟨header, hheader, fun _ _ => ⟨ours, hours⟩⟩
      · exact fun _ _ _ _ => ⟨header, hheader, fun _ h => absurd h hclient⟩
    · exact fun _ _ _ _ => ⟨header, hheader, fun h => absurd h hmagic⟩
  have howns (hsome : (receiveUDPPacket (some id) (received datagram)).isSome) :
      Owns 0 (receiveUDPPacketMemory id datagram) fun _ => 0 := by
    obtain ⟨header, hheader, hbroadcast⟩ := isSome_receiveUDPPacket_iff.mp hsome
    rw [receiveUDPPacketMemory, hheader, ofOption_some, pure_bind_apply]
    refine owns_ite (fun _ => owns_pure (B := fun _ => 0) ()) fun hmagic => ?_
    refine owns_ite (fun hclient => Owns.malloc_bind fun body => ?_) fun _ => owns_free_null
    obtain ⟨ours, hours⟩ := hbroadcast (not_not.mp hmagic) hclient
    refine (owns_broadcastMemory hours).bind_of_eq rfl fun ours => ?_
    have hfree : Owns (0 + {body}) (free (.start body)) fun _ => 0 :=
      (owns_free body).congr (zero_add _).symm fun _ => rfl
    exact owns_ite (fun _ => owns_sendMemory.bind_of_eq rfl fun _ => hfree) fun _ => hfree
  refine ⟨⟨?_, fun hsome => ?_⟩, fun h' hrun => ?_⟩
  · rintro ⟨h', hrun⟩
    exact hyields h () h' hrun
  · obtain ⟨⟨⟩, h', hrun, -⟩ := howns hsome h h.live (zero_add _).symm
    exact ⟨h', hrun⟩
  · obtain ⟨⟨⟩, h'', hrun', hlive⟩ := howns (hyields h () h' hrun) h h.live (zero_add _).symm
    obtain rfl : h'' = h' := by simpa using hrun'.symm.trans hrun
    rw [hlive, zero_add]

end Peep
