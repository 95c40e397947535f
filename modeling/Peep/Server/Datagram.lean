import Peep.Server.Packet

/-!
# Datagrams, broadcasts and their bodies

Three loops of the server take messages from the network. `receiveUDPPacket` (`server.c`) reads the
broadcast socket of the TCP server; the loop of `serverRealStart` (`udp_server.c`) reads the socket
of the UDP server; `serverServlet` (`tcp_server.c`) reads a connection, and only its branch for
client broadcasts is modelled here. Each of them allocates a body, fills it and hands it on. Client
broadcasts end in `serverProcessClientBC` or `serverProcessBC`, which are the same function but for
what they do for a client of one of our classes.

The size of what was received is known in all three loops. The UDP loops do not look at it; they
take `len` of the header for it. The loop of the UDP server keeps `msg.body` from one datagram to
the next, and releases it for a datagram without the magic number.

## Choices

`none` is an access outside the bytes received or outside the memory allocated, and the release of
a pointer to what is not allocated. A negative size passed to `malloc` is beyond every allocation,
so the result is the null pointer; other allocations succeed. The byte order of the header is that
of the network. Of `msg.body` all that matters between two datagrams is whether it is null.

## Main results

* `bodyBuffer_eq_some_iff` — the lengths for which the body of a datagram is allocated and filled
* `exists_processIDString` — a client broadcast that fits is decoded to its end
* `framed_iff` — the messages that are handled within their bounds
-/

namespace Peep

open Bytes

/-! ## Messages -/

/-- The types of packets. -/
def PROT_BC_SERVER : UInt8 := 1

/-- `PROT_BC_CLIENT`. -/
def PROT_BC_CLIENT : UInt8 := 2

/-- `PROT_CLIENT_EVENT`. -/
def PROT_CLIENT_EVENT : UInt8 := 4

/-- `PROT_SERVER_STILL_ALIVE`. -/
def PROT_SERVER_STILL_ALIVE : UInt8 := 8

/-- `PROT_CLIENT_STILL_ALIVE`. -/
def PROT_CLIENT_STILL_ALIVE : UInt8 := 16

/-- `PROT_MAGIC_NUMBER`. -/
def PROT_MAGIC_NUMBER : UInt32 := 0xDEADBEEF

/-- `PROT_CLASSDELIM`, the character `!`. -/
def PROT_CLASSDELIM : UInt8 := 33

/-- `MAX_UDP_PACKET_SIZE`. -/
def MAX_UDP_PACKET_SIZE : ℕ := 512

/-- `sizeof (HEADER)`. -/
def HEADER_SIZE : ℕ := 16

/-- `HEADER`, without what is reserved. -/
structure Header where
  /-- `version`. -/
  version : UInt8
  /-- `type`. -/
  type : UInt8
  /-- `content`. -/
  content : UInt8
  /-- `magic`. -/
  magic : Int32
  /-- `len`: the declared length of the body. -/
  len : Int32

/-- The header whose bytes are those, in the byte order of the host. -/
def headerOf (bytes : List UInt8) : Header where
  version := bytes.getD 0 0
  type := bytes.getD 1 0
  content := bytes.getD 2 0
  magic := wordAt bytes 8
  len := wordAt bytes 12

/-- The header at the start of what was received. -/
def header? (received : List UInt8) : Option Header :=
  (copy? received 0 HEADER_SIZE).map headerOf

/-- What a server does with a message. -/
inductive Reaction
  /-- It is discarded. -/
  | discarded
  /-- `serverRespondToClient`, if the client is of one of our classes. -/
  | respond (ours : Bool)
  /-- `serverAddClient`, if the client is of one of our classes. -/
  | addClient (ours : Bool)
  /-- `serverUpdateClient`. -/
  | updateClient
  /-- The body is decoded, and these events are enqueued. -/
  | enqueue (events : List ClientEvent)

/-- What `msg.body` of the UDP server points to, between two datagrams. -/
inductive BodyState
  /-- It is `NULL`. -/
  | null
  /-- It must not be released: it was never written, has been released, or points into the buffer
  for datagrams. -/
  | stale
  deriving DecidableEq

/-- A message from the network. -/
inductive Message
  /-- A datagram on the broadcast socket. -/
  | broadcast (datagram : List UInt8)
  /-- A datagram on the socket of the UDP server, and `msg.body` before it. -/
  | udp (msgBody : BodyState) (datagram : List UInt8)
  /-- A client broadcast on a connection: `len` of its header, and the bytes that are there to be
  read after it, `none` if reading fails. -/
  | tcp (len : Int32) (readable : Option (List UInt8))

/-! ## The decoders of client broadcasts -/

/-- `isspace`. -/
def isspace (c : UInt8) : Bool := c = 32 || (9 ≤ c && c ≤ 13)

/-- `serverContainsIDClass`. -/
def serverContainsIDClass (identifier : Option (List UInt8)) (cls : List UInt8) : Bool :=
  match identifier with
  | none => false
  | some id => decide (cls ++ [PROT_CLASSDELIM] <:+: id)

/-- The loop of both decoders, from `q` on: the list is the memory from `q` to the end of the body.
The result is whether a class was found. -/
def processClasses (identifier : Option (List UInt8)) : Buffer → Option Bool
  | [] => none
  | none :: _ => none
  | some c :: rest =>
    if c = 0 || isspace c then some false
    else if c = PROT_CLASSDELIM then do
      -- the delimiter is overwritten, and the class is looked for from there on
      let cls ← string? (some 0 :: rest)
      if serverContainsIDClass identifier cls then some true else processClasses identifier rest
    else processClasses identifier rest

/-- What `serverProcessClientBC` and `serverProcessBC` have in common: write a zero at `id_len`,
then look for a class. -/
def processIDString (identifier : Option (List UInt8)) (idString : Buffer) (idLen : Int32) :
    Option Bool := do
  let terminated ← write? idString idLen 0
  processClasses identifier terminated

/-- `serverProcessClientBC`. -/
def serverProcessClientBC (identifier : Option (List UInt8)) (idString : Buffer) (idLen : Int32) :
    Option Reaction :=
  (processIDString identifier idString idLen).map .respond

/-- `serverProcessBC`. -/
def serverProcessBC (identifier : Option (List UInt8)) (idString : Buffer) (idLen : Int32) :
    Option Reaction :=
  (processIDString identifier idString idLen).map .addClient

/-! ## The loops -/

/-- `msg.body = malloc (size); memcpy (msg.body, body, len)`. -/
def bodyBuffer (size len : Int32) (body : List UInt8) : Option Buffer := do
  let buffer ← malloc size
  let bytes ← copySigned? body 0 len
  fill? buffer bytes

/-- What `recvfrom` stores of a datagram. -/
def received (datagram : List UInt8) : List UInt8 := datagram.take MAX_UDP_PACKET_SIZE

/-- `receiveUDPPacket`. -/
def receiveUDPPacket (identifier : Option (List UInt8)) (buffer : List UInt8) :
    Option Reaction := do
  let header ← header? buffer
  if header.magic.toUInt32 ≠ PROT_MAGIC_NUMBER then some .discarded
  else if header.type = PROT_BC_SERVER then some .discarded
  else if header.type = PROT_BC_CLIENT then do
    let body ← bodyBuffer (header.len + 1) header.len (buffer.drop HEADER_SIZE)
    let body ← write? body header.len 0
    serverProcessClientBC identifier body header.len
  else some .discarded

/-- The `switch` of `serverRealStart` in `udp_server.c`. -/
def processPacket (identifier : Option (List UInt8)) (header : Header) (contents : List UInt8) :
    Option Reaction :=
  if header.type = PROT_BC_SERVER then do
    let _ ← bodyBuffer (header.len + 1) header.len contents
    some .discarded
  else if header.type = PROT_BC_CLIENT then do
    let body ← bodyBuffer (header.len + 1) header.len contents
    serverProcessBC identifier body header.len
  else if header.type = PROT_SERVER_STILL_ALIVE then do
    let _ ← bodyBuffer header.len header.len contents
    some .discarded
  else if header.type = PROT_CLIENT_STILL_ALIVE then do
    let _ ← bodyBuffer header.len header.len contents
    some .updateClient
  else if header.type = PROT_CLIENT_EVENT then
    (serverProcessClientEventPacket header.content header.len contents).map .enqueue
  else do
    let _ ← bodyBuffer header.len header.len contents
    some .discarded

/-- `msg.body` after the `switch` and `servletERR`: an event releases its body, or leaves it in the
buffer for datagrams, and every other packet releases the body that it has allocated. -/
def BodyState.after (msgBody : BodyState) (header : Header) : BodyState :=
  if header.type = PROT_CLIENT_EVENT then
    if header.content = PROT_CONTENT_EVENT then .null
    else if header.content = PROT_CONTENT_XML then .stale
    else msgBody
  else .stale

/-- One iteration of the loop of `serverRealStart` in `udp_server.c`, with `msg.body` before and
after it. -/
def serverRealStart (identifier : Option (List UInt8)) (msgBody : BodyState)
    (dataBuffer : List UInt8) : Option (Reaction × BodyState) := do
  let header ← header? dataBuffer
  if header.magic.toUInt32 ≠ PROT_MAGIC_NUMBER then
    -- `servletERR` releases what an earlier datagram has left
    if msgBody = .null then some (.discarded, .null) else none
  else (processPacket identifier header (dataBuffer.drop HEADER_SIZE)).map fun reaction =>
    (reaction, msgBody.after header)

/-- What `read` returns for a body of `len` bytes, and the bytes that it stores. -/
def readBody (len : Int32) (readable : Option (List UInt8)) : ℤ × List UInt8 :=
  match readable with
  | none => (-1, [])
  -- nothing can be read to a null pointer
  | some bytes => if len.toInt < 0 then (-1, []) else
    ((bytes.take len.toInt.toNat).length, bytes.take len.toInt.toNat)

/-- The branch of `serverServlet` for client broadcasts. -/
def serverServletBC (identifier : Option (List UInt8)) (len : Int32)
    (readable : Option (List UInt8)) : Option Reaction :=
  let sizeRecv := readBody len readable
  if sizeRecv.1 ≠ len.toInt then some .discarded
  else do
    let buffer ← malloc len
    let body ← fill? buffer sizeRecv.2
    serverProcessClientBC identifier body len

/-- What becomes of a message. -/
def handle (identifier : Option (List UInt8)) : Message → Option Reaction
  | .broadcast datagram => receiveUDPPacket identifier (received datagram)
  | .udp msgBody datagram => (serverRealStart identifier msgBody (received datagram)).map Prod.fst
  | .tcp len readable => serverServletBC identifier len readable

/-! ## What is asked of the loops -/

/-- The function completes, accessing nothing out of bounds, and unless the lengths agree it
discards the message. -/
def Handled (result : Option Reaction) (agree : Prop) : Prop :=
  ∃ r, result = some r ∧ (¬ agree → r = .discarded)

/-- The bytes received behind the header. -/
def contents (datagram : List UInt8) : List UInt8 := (received datagram).drop HEADER_SIZE

/-- The declared length of the body is the number of bytes received for it. -/
def Message.LenAgrees : Message → Prop
  | .broadcast datagram | .udp _ datagram => ∀ h, header? (received datagram) = some h →
      h.len.toInt = (contents datagram).length
  | .tcp len readable => len.toInt = (readBody len readable).2.length

/-- The message is handled within its bounds. -/
def Framed (identifier : Option (List UInt8)) (m : Message) : Prop :=
  Handled (handle identifier m) m.LenAgrees

/-- The condition on the header and the contents of a datagram for the UDP server. -/
def UdpWellFramed (h : Header) (body : List UInt8) : Prop :=
  if h.type = PROT_BC_CLIENT ∨ h.type = PROT_CLIENT_STILL_ALIVE then h.len.toInt = body.length
  else if h.type = PROT_CLIENT_EVENT then
    h.len.toInt = body.length ∧ (h.content = PROT_CONTENT_EVENT → ¬ Malformed body)
  else 0 ≤ h.len.toInt ∧ h.len.toInt ≤ body.length

/-- The condition on a message. -/
def Message.WellFramed : Message → Prop
  | .broadcast datagram => ∃ h, header? (received datagram) = some h ∧
      (h.magic.toUInt32 = PROT_MAGIC_NUMBER → h.type = PROT_BC_CLIENT →
        h.len.toInt = (contents datagram).length)
  | .udp msgBody datagram => ∃ h, header? (received datagram) = some h ∧
      if h.magic.toUInt32 = PROT_MAGIC_NUMBER then UdpWellFramed h (contents datagram)
      else msgBody = .null
  | .tcp len readable => len.toInt ≠ -1 ∧
      ∀ bytes, readable = some bytes → 0 ≤ len.toInt → (bytes.length : ℤ) < len.toInt

/-! ## Bodies -/

variable {identifier : Option (List UInt8)} {size len : Int32} {body datagram : List UInt8}
  {buffer : Buffer}

theorem drop_received : (received datagram).drop HEADER_SIZE = contents datagram := rfl

theorem length_contents_le : (contents datagram).length ≤ 496 := by
  rw [contents, received, List.length_drop, List.length_take, HEADER_SIZE, MAX_UDP_PACKET_SIZE]
  omega

/-- The part of a body that a declared length within it covers. -/
theorem length_take_toNat (hle : len.toInt ≤ body.length) :
    (body.take len.toInt.toNat).length = len.toInt.toNat := by
  rw [List.length_take]
  omega

/-- **The bodies that are filled**: those whose declared length is not beyond what was received. -/
theorem bodyBuffer_eq_some_iff : bodyBuffer size len body = some buffer ↔
    (0 ≤ len.toInt ∧ len.toInt ≤ body.length ∧ len.toInt ≤ size.toInt) ∧
      buffer = (body.take len.toInt.toNat).map some ++
        List.replicate (size.toInt.toNat - len.toInt.toNat) none := by
  have hunfold : bodyBuffer size len body = (malloc size).bind fun b =>
      (copySigned? body 0 len).bind fun bytes => fill? b bytes := rfl
  rw [hunfold]
  simp only [Option.bind_eq_some_iff, malloc_eq_some_iff, copySigned?_eq_some_iff,
    fill?_eq_some_iff, List.drop_zero, Nat.zero_add]
  constructor
  · rintro ⟨b, ⟨hsize, rfl⟩, bytes, ⟨hpos, hle, rfl⟩, hfits, rfl⟩
    have hlength := length_take_toNat (by omega : len.toInt ≤ body.length)
    rw [hlength, List.length_replicate] at hfits
    refine ⟨by omega, ?_⟩
    rw [hlength, List.drop_replicate]
  · rintro ⟨⟨hpos, hle, hsize⟩, rfl⟩
    have hlength := length_take_toNat hle
    refine ⟨_, ⟨by omega, rfl⟩, _, ⟨hpos, by omega, rfl⟩, ?_, ?_⟩
    · rw [hlength, List.length_replicate]
      omega
    · rw [hlength, List.drop_replicate]

/-- The loop of the decoders ends at the first zero, if not before. -/
theorem exists_processClasses (identifier : Option (List UInt8)) (bytes : List UInt8)
    (rest : Buffer) :
    ∃ ours, processClasses identifier (bytes.map some ++ some 0 :: rest) = some ours := by
  induction bytes with
  | nil => exact ⟨false, rfl⟩
  | cons c bytes ih =>
    rw [List.map_cons, List.cons_append, processClasses]
    split_ifs with hstop hdelim
    · exact ⟨false, rfl⟩
    · simp only [string?, if_true, Option.bind_eq_bind, Option.bind_some]
      split_ifs with hfound
      · exact ⟨true, rfl⟩
      · exact ih
    · exact ih

theorem write?_length_map {bytes : List UInt8} {x : Option UInt8} {rest : Buffer}
    (hlen : len.toInt = bytes.length) :
    write? (bytes.map some ++ x :: rest) len 0 = some (bytes.map some ++ some 0 :: rest) := by
  refine write?_eq_some_iff.mpr ⟨?_, ?_⟩
  · rw [List.length_append, List.length_map, List.length_cons]
    omega
  · rw [hlen, Int.toNat_natCast, List.set_append_right _ _ (by simp)]
    simp

/-- **A client broadcast that fits is decoded**: the body has a place behind its last byte. -/
theorem exists_processIDString {bytes : List UInt8} {x : Option UInt8} {rest : Buffer}
    (hlen : len.toInt = bytes.length) :
    ∃ ours, processIDString identifier (bytes.map some ++ x :: rest) len = some ours := by
  obtain ⟨ours, hours⟩ := exists_processClasses identifier bytes rest
  exact ⟨ours, by rw [processIDString, write?_length_map hlen]; exact hours⟩

/-- The allocation that has a place for a terminating zero. -/
theorem toInt_add_one (hpos : 0 ≤ len.toInt) (hle : len.toInt ≤ 496) :
    (len + 1).toInt = len.toInt + 1 := by
  rw [Int32.toInt_add, Int32.toInt_one, Int.bmod_eq_of_le (by omega) (by omega)]

/-- The body of a client broadcast as the UDP loops allocate it. -/
theorem bodyBuffer_add_one (hbody : body.length ≤ 496)
    (h : bodyBuffer (len + 1) len body = some buffer) :
    len.toInt = (body.take len.toInt.toNat).length ∧
      buffer = (body.take len.toInt.toNat).map some ++ [none] := by
  obtain ⟨⟨hpos, hle, -⟩, rfl⟩ := bodyBuffer_eq_some_iff.mp h
  refine ⟨by rw [length_take_toNat hle, Int.toNat_of_nonneg hpos], ?_⟩
  rw [toInt_add_one hpos (by omega)]
  congr 1
  rw [show (len.toInt + 1).toNat - len.toInt.toNat = 1 by omega]
  rfl

/-! ## The branches of the loops -/

section Branches

variable {agree : Prop}

theorem handled_discarded : Handled (some .discarded) agree := ⟨_, rfl, fun _ => rfl⟩

theorem not_handled_none : ¬ Handled none agree := by
  rintro ⟨r, hr, -⟩
  cases hr

/-- A branch that copies the body and discards it. -/
theorem handled_copied_iff
    (hsize : 0 ≤ len.toInt → len.toInt ≤ body.length → len.toInt ≤ size.toInt) :
    Handled ((bodyBuffer size len body).bind fun _ => some .discarded) agree ↔
      0 ≤ len.toInt ∧ len.toInt ≤ body.length := by
  constructor
  · rintro ⟨r, hr, -⟩
    obtain ⟨b, hb, -⟩ := Option.bind_eq_some_iff.mp hr
    obtain ⟨⟨hpos, hle, -⟩, -⟩ := bodyBuffer_eq_some_iff.mp hb
    exact ⟨hpos, hle⟩
  · rintro ⟨hpos, hle⟩
    have hb := bodyBuffer_eq_some_iff.mpr ⟨⟨hpos, hle, hsize hpos hle⟩, rfl⟩
    rw [hb]
    exact handled_discarded

/-- A branch that copies the body and hands it on. -/
theorem handled_handed_iff {next : Buffer → Option Reaction}
    (hsize : 0 ≤ len.toInt → len.toInt ≤ body.length → len.toInt ≤ size.toInt)
    (hnext : ∀ b, bodyBuffer size len body = some b → ∃ r, next b = some r ∧ r ≠ .discarded) :
    Handled ((bodyBuffer size len body).bind next) (len.toInt = body.length) ↔
      len.toInt = body.length := by
  constructor
  · rintro ⟨r, hr, hagree⟩
    obtain ⟨b, hb, hrest⟩ := Option.bind_eq_some_iff.mp hr
    obtain ⟨r', hr', hne⟩ := hnext b hb
    by_contra hlen
    rw [hrest] at hr'
    cases hr'
    exact hne (hagree hlen)
  · intro hlen
    have hpos : 0 ≤ len.toInt := by omega
    have hb := bodyBuffer_eq_some_iff.mpr ⟨⟨hpos, hlen.le, hsize hpos hlen.le⟩, rfl⟩
    obtain ⟨r, hr, -⟩ := hnext _ hb
    exact ⟨r, by rw [hb]; exact hr, fun hne => absurd hlen hne⟩

end Branches

/-! ## The loops -/

variable {h : Header}

theorem le_add_one_of_contents (hpos : 0 ≤ len.toInt)
    (hle : len.toInt ≤ (contents datagram).length) : len.toInt ≤ (len + 1).toInt := by
  have hbound : (contents datagram).length ≤ 496 := length_contents_le
  rw [toInt_add_one hpos (by omega)]
  omega

/-- The broadcast socket. -/
theorem framed_broadcast_iff : Framed identifier (.broadcast datagram) ↔
    (Message.broadcast datagram).WellFramed := by
  rw [Framed, handle, Message.WellFramed, receiveUDPPacket, Message.LenAgrees]
  cases hh : header? (received datagram) with
  | none => exact iff_of_false not_handled_none (by simp)
  | some h =>
    simp only [Option.bind_eq_bind, Option.bind_some, Option.some.injEq, exists_eq_left',
      forall_eq', drop_received]
    split_ifs with hmagic hserver hclient
    · exact iff_of_true handled_discarded fun h => absurd h hmagic
    · exact iff_of_true handled_discarded fun _ h => by rw [hserver] at h; cases h
    · rw [handled_handed_iff fun hpos hle => le_add_one_of_contents hpos hle]
      · exact ⟨fun h _ _ => h, fun h => h (not_not.mp hmagic) hclient⟩
      · intro b hb
        obtain ⟨hlen, rfl⟩ := bodyBuffer_add_one length_contents_le hb
        obtain ⟨ours, hours⟩ := @exists_processIDString identifier _ _ (some 0) [] hlen
        refine ⟨.respond ours, ?_, by simp⟩
        rw [write?_length_map hlen, Option.bind_some, serverProcessClientBC, hours]
        rfl
    · exact iff_of_true handled_discarded fun _ h => absurd h hclient

theorem nameFits_of_length_le (hbody : body.length ≤ 496) (hwell : ¬ Malformed body) :
    NameFits body := by
  rw [Malformed] at hwell
  rw [NameFits]
  omega

/-- The packets that the UDP server decodes as events. -/
theorem handled_event_iff (hbody : body.length ≤ 496) : Handled ((serverProcessClientEventPacket h.content h.len body).map
      .enqueue) (h.len.toInt = body.length) ↔
    h.len.toInt = body.length ∧ (h.content = PROT_CONTENT_EVENT → ¬ Malformed body) := by
  constructor
  · rintro ⟨r, hr, hagree⟩
    obtain ⟨out, hout, rfl⟩ := Option.map_eq_some_iff.mp hr
    refine ⟨not_not.mp fun hne => by simpa using hagree hne, ?_⟩
    intro hcontent
    rw [hcontent] at hout
    exact (serverProcessClientEventPacket_event_eq_some_iff.mp hout).1.1
  · rintro ⟨hlen, hwell⟩
    have hagree : LengthsAgree h.content h.len body := ⟨fun _ => by omega, fun hcontent =>
      ⟨hwell hcontent, nameFits_of_length_le hbody (hwell hcontent)⟩⟩
    obtain ⟨out, hout, -⟩ := (staysInside_iff _ _ _).mpr hagree
    exact ⟨.enqueue out, by rw [hout]; rfl, fun hne => absurd hlen hne⟩

/-- The packets of the UDP server, of which the contents are those of a datagram. -/
theorem handled_processPacket_iff (h : Header) (datagram : List UInt8) :
    Handled (processPacket identifier h (contents datagram))
      (h.len.toInt = (contents datagram).length) ↔ UdpWellFramed h (contents datagram) := by
  have hsucc : 0 ≤ h.len.toInt → h.len.toInt ≤ (contents datagram).length →
      h.len.toInt ≤ (h.len + 1).toInt := le_add_one_of_contents
  have hsame : 0 ≤ h.len.toInt → h.len.toInt ≤ (contents datagram).length →
      h.len.toInt ≤ h.len.toInt := fun _ _ => le_rfl
  rw [processPacket, UdpWellFramed]
  by_cases hserver : h.type = PROT_BC_SERVER
  · rw [if_pos hserver, if_neg (by rw [hserver]; decide), if_neg (by rw [hserver]; decide)]
    exact handled_copied_iff hsucc
  rw [if_neg hserver]
  by_cases hclient : h.type = PROT_BC_CLIENT
  · rw [if_pos hclient, if_pos (.inl hclient)]
    refine handled_handed_iff hsucc ?_
    intro b hb
    obtain ⟨hlen, rfl⟩ := bodyBuffer_add_one length_contents_le hb
    obtain ⟨ours, hours⟩ := @exists_processIDString identifier _ _ none [] hlen
    exact ⟨.addClient ours, by rw [serverProcessBC, hours]; rfl, by simp⟩
  rw [if_neg hclient]
  by_cases hserverAlive : h.type = PROT_SERVER_STILL_ALIVE
  · rw [if_pos hserverAlive, if_neg (by rw [hserverAlive]; decide),
      if_neg (by rw [hserverAlive]; decide)]
    exact handled_copied_iff hsame
  rw [if_neg hserverAlive]
  by_cases hclientAlive : h.type = PROT_CLIENT_STILL_ALIVE
  · rw [if_pos hclientAlive, if_pos (.inr hclientAlive)]
    exact handled_handed_iff hsame fun b _ => ⟨.updateClient, rfl, by simp⟩
  rw [if_neg hclientAlive, if_neg (not_or.mpr ⟨hclient, hclientAlive⟩)]
  by_cases hevent : h.type = PROT_CLIENT_EVENT
  · rw [if_pos hevent, if_pos hevent]
    exact handled_event_iff length_contents_le
  · rw [if_neg hevent, if_neg hevent]
    exact handled_copied_iff hsame

/-- The socket of the UDP server. -/
theorem framed_udp_iff {msgBody : BodyState} : Framed identifier (.udp msgBody datagram) ↔
    (Message.udp msgBody datagram).WellFramed := by
  rw [Framed, handle, Message.WellFramed, serverRealStart, Message.LenAgrees]
  cases hh : header? (received datagram) with
  | none => exact iff_of_false not_handled_none (by simp)
  | some h =>
    simp only [Option.bind_eq_bind, Option.bind_some, Option.some.injEq, exists_eq_left',
      forall_eq', drop_received]
    by_cases hmagic : h.magic.toUInt32 = PROT_MAGIC_NUMBER
    · rw [if_neg (not_not.mpr hmagic), if_pos hmagic, Option.map_map]
      exact (iff_of_eq (congrArg (Handled · _) Option.map_id')).trans
        (handled_processPacket_iff h datagram)
    · rw [if_pos hmagic, if_neg hmagic]
      split_ifs with hnull
      · exact iff_of_true handled_discarded hnull
      · exact iff_of_false not_handled_none hnull

/-! ## The connection -/

variable {readable : Option (List UInt8)}

/-- When `read` returns the declared length. -/
theorem readBody_eq_len_iff : (readBody len readable).1 = len.toInt ↔
    len.toInt = -1 ∨ ∃ bytes, readable = some bytes ∧ 0 ≤ len.toInt ∧ len.toInt ≤ bytes.length := by
  cases readable with
  | none => simp [readBody, eq_comm]
  | some bytes =>
    by_cases hneg : len.toInt < 0
    · simp only [readBody, if_pos hneg, Option.some.injEq, exists_eq_left']
      omega
    · simp only [readBody, if_neg hneg, Option.some.injEq, exists_eq_left', List.length_take]
      omega

theorem length_readBody (hpos : 0 ≤ len.toInt) (h : (readBody len readable).1 = len.toInt) :
    (readBody len readable).2.length = len.toInt := by
  cases readable with
  | none =>
    rw [readBody] at h
    omega
  | some bytes =>
    simpa only [readBody, if_neg (not_lt.mpr hpos)] using h

/-- A body that was read to its declared length fills its buffer, and has no place left for the
zero that the decoder writes. -/
theorem serverServletBC_eq_none (h : (readBody len readable).1 = len.toInt) :
    serverServletBC identifier len readable = none := by
  rw [serverServletBC, if_neg (not_not.mpr h)]
  by_cases hpos : 0 ≤ len.toInt
  · have hread := length_readBody hpos h
    rw [malloc, if_pos hpos, Option.bind_eq_bind, Option.bind_some, fill?,
      if_pos (by rw [List.length_replicate]; omega), Option.bind_some,
      serverProcessClientBC, processIDString, write?_length]
    · rfl
    · rw [List.length_append, List.length_map, List.length_drop, List.length_replicate]
      omega
  · rw [malloc, if_neg hpos]
    rfl

/-- The client broadcasts of a connection: the ones that arrive whole are not handled within the
bounds. -/
theorem framed_tcp_iff : Framed identifier (.tcp len readable) ↔
    (Message.tcp len readable).WellFramed := by
  have hwell : (Message.tcp len readable).WellFramed ↔
      (readBody len readable).1 ≠ len.toInt := by
    rw [ne_eq, readBody_eq_len_iff, Message.WellFramed, not_or]
    refine and_congr_right ?_
    intro _
    constructor
    · rintro h ⟨bytes, hbytes, hpos, hle⟩
      exact absurd (h bytes hbytes hpos) (by omega)
    · intro h bytes hbytes hpos
      by_contra hle
      exact h ⟨bytes, hbytes, hpos, by omega⟩
  rw [hwell, Framed, handle]
  by_cases h : (readBody len readable).1 = len.toInt
  · rw [serverServletBC_eq_none h]
    exact iff_of_false not_handled_none (not_not.mpr h)
  · rw [serverServletBC, if_pos h]
    exact iff_of_true handled_discarded h

end Peep
