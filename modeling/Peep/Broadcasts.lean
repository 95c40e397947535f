import Peep.Client.Servers
import Peep.Library.ByteOrder
import Peep.Server.Classes

/-!
# Packets between servers and clients

A server tells the clients of its classes in broadcasts, and in answers to their broadcasts, and it
tells the clients it knows how long their leases are (`server.c`, `udp_server.c`). A client tells
the servers of its classes (`assemble_bc_packet` of `Net::Peep::BC`). A class string has no fixed
length, and a client packs and unpacks it in `128` bytes, with blanks behind.

* The client writes the length of its whole class string into the header, also when only the
  beginning of it fits.
* What the client unpacks it cuts at the first character outside `[A-Za-z0-9!-]`. Such characters
  can stand in the names of classes.
* The length of a lease is written into the header in the byte order of the host.

## Choices

A host has one of two byte orders. A string of Perl is a list of bytes. What is reserved in a header
is zero, but for the answer to a client, where it is what was on the stack.

## Main results

* `recovered_iff` — the packets of a server that a client recovers
* `seesClassList_iff` — the class strings of a client that arrive
-/

namespace Peep

open Bytes Delimited

/-! ## Packets of a server -/

/-- `PROT_VERSION`, which is `PROT_MAJOR_VER` of the clients. -/
def PROT_VERSION : UInt8 := 2

/-- `PROT_CONTENT_MSG`. -/
def PROT_CONTENT_MSG : UInt8 := 4

/-- `PROT_CONTENT_LEASE`. -/
def PROT_CONTENT_LEASE : UInt8 := 16

/-- `sizeof (LEASE_BODY)`. -/
def LEASE_SIZE : ℕ := 2

/-- A `HEADER` in the memory of a host. -/
structure HostHeader where
  /-- `version`. -/
  version : UInt8
  /-- `type`. -/
  type : UInt8
  /-- `content`. -/
  content : UInt8
  /-- `reserved`. -/
  reserved : Fin 5 → UInt8
  /-- `magic`. -/
  magic : UInt32
  /-- `len`. -/
  len : UInt32

/-- The bytes of a header. -/
def HostHeader.bytes (order : ByteOrder) (h : HostHeader) : List UInt8 :=
  [h.version, h.type, h.content] ++ List.ofFn h.reserved ++ intBytes order h.magic ++
    intBytes order h.len

/-- `createPacketBuffer`. -/
def createPacketBuffer (order : ByteOrder) (h : HostHeader) (body : CString) :
    Option (List UInt8) :=
  if h.type = PROT_BC_SERVER then some (h.bytes order ++ (body ++ [0])) else none

/-- The header of a broadcast. -/
def outgoingHeader (order : ByteOrder) (identifier : CString) (reserved : Fin 5 → UInt8) :
    HostHeader where
  version := PROT_VERSION
  type := PROT_BC_SERVER
  content := PROT_CONTENT_MSG
  reserved := reserved
  magic := htonl order PROT_MAGIC_NUMBER
  len := htonl order (UInt32.ofNat identifier.length)

/-- The packet of `serverRespondToClient`; with nothing reserved, that of `initializeBroadcast`. -/
def serverRespondToClient (order : ByteOrder) (identifier : CString) (reserved : Fin 5 → UInt8) :
    Option (List UInt8) :=
  createPacketBuffer order (outgoingHeader order identifier reserved) identifier

/-- The packet of `serverNotifyClientLease`, and of `serverSendStillAlive`, for a lease. -/
def serverNotifyClientLease (order : ByteOrder) (min sec : UInt8) : List UInt8 :=
  HostHeader.bytes order
    { version := PROT_VERSION
      type := PROT_SERVER_STILL_ALIVE
      content := PROT_CONTENT_LEASE
      reserved := fun _ => 0
      magic := htonl order PROT_MAGIC_NUMBER
      len := UInt32.ofNat LEASE_SIZE } ++ [min, sec]

/-- A packet of a server. -/
inductive ServerPacket
  /-- A broadcast, or an answer to one, of a server of those classes. -/
  | bc (classes : List CString) (reserved : Fin 5 → UInt8)
  /-- A lease. -/
  | lease (min sec : UInt8)

/-- The length in the header of a packet, in network byte order. -/
def lenField (packet : List UInt8) : ℕ := (wordAt packet 12).toUInt32.toNat

/-- The packet has the length of its body in the header, in network byte order, and the client
unpacks what the server put into it. -/
def Recovered (order : ByteOrder) : ServerPacket → Prop
  | .bc classes reserved => ∃ identifier packet, identifierOf classes = some identifier ∧
      serverRespondToClient order identifier reserved = some packet ∧
      lenField packet = identifier.length ∧ realid (packet.take RECV_SIZE) = identifier
  | .lease min sec =>
      lenField (serverNotifyClientLease order min sec) = LEASE_SIZE ∧
        leaseOf ((serverNotifyClientLease order min sec).take RECV_SIZE) = (min.toNat, sec.toNat)

/-- The class string is not too long for the client and made of characters that it lets through, and
leases are sent from hosts with the byte order of the network. -/
def Recoverable (order : ByteOrder) : ServerPacket → Prop
  | .bc classes _ => (joined PROT_CLASSDELIM classes).length ≤ ID_SIZE ∧
      ∀ name ∈ classes, ∀ c ∈ name, isIDChar c = true
  | .lease _ _ => order = .big

/-! ## Packets of a client -/

/-- `pack ("A$n", ...)`. -/
def packA (n : ℕ) (s : List UInt8) : List UInt8 := (s ++ List.replicate n 32).take n

/-- `assemble_bc_packet`. -/
def assemble_bc_packet (constant : UInt8) (classes : List CString) : List UInt8 :=
  let identifier := joined PROT_CLASSDELIM classes
  [PROT_VERSION, constant, PROT_CONTENT_MSG, 0, 0, 0, 0, 0] ++ wordBytes PROT_MAGIC_NUMBER ++
    wordBytes (UInt32.ofNat identifier.length) ++ packA ID_SIZE identifier

/-- The body of a client broadcast in `receiveUDPPacket`. -/
def receivedBody (datagram : List UInt8) : Option Buffer := do
  let header ← header? (received datagram)
  let body ← bodyBuffer (header.len + 1) header.len (contents datagram)
  write? body header.len 0

/-- The length in the header is covered by the body, the bytes it covers are the class string, and
these are what the server takes for the body. -/
def SeesClassList (classes : List CString) (packet : List UInt8) : Prop :=
  lenField packet ≤ (packet.drop HEADER_SIZE).length ∧
    (packet.drop HEADER_SIZE).take (lenField packet) = joined PROT_CLASSDELIM classes ∧
    receivedBody packet = some ((joined PROT_CLASSDELIM classes).map some ++ [some 0])

variable {order : ByteOrder} {classes : List CString} {identifier : CString}
  {reserved : Fin 5 → UInt8} {h : HostHeader} {body s : List UInt8} {constant : UInt8}

/-! ## Headers -/

@[simp] theorem HostHeader.length_bytes (order : ByteOrder) (h : HostHeader) :
    (h.bytes order).length = HEADER_SIZE := by
  simp [HostHeader.bytes, HEADER_SIZE]

/-- The length field, if its bytes are those of an integer in network byte order. -/
theorem lenField_bytes {x : UInt32} (hlen : intBytes order h.len = wordBytes x) :
    lenField (h.bytes order ++ body) = x.toNat := by
  have hpre : ([h.version, h.type, h.content] ++ List.ofFn h.reserved ++
      intBytes order h.magic).length = 12 := by simp
  have hword := wordAt_wordBytes ([h.version, h.type, h.content] ++ List.ofFn h.reserved ++
    intBytes order h.magic) body x
  rw [hpre] at hword
  rw [lenField, HostHeader.bytes, hlen, List.append_assoc, hword, UInt32.toUInt32_toInt32]

theorem serverRespondToClient_eq (order : ByteOrder) (identifier : CString)
    (reserved : Fin 5 → UInt8) : serverRespondToClient order identifier reserved
      = some ((outgoingHeader order identifier reserved).bytes order ++ (identifier ++ [0])) := by
  rw [serverRespondToClient, createPacketBuffer, if_pos]
  rfl

/-! ## What a client recovers -/

/-- The delimiters pass the filter. -/
theorem all_joined_iff : (∀ c ∈ joined PROT_CLASSDELIM classes, isIDChar c = true) ↔
    ∀ name ∈ classes, ∀ c ∈ name, isIDChar c = true := by
  induction classes with
  | nil => simp
  | cons name classes ih =>
    have hdelim : isIDChar PROT_CLASSDELIM = true := by decide
    rw [joined_cons, List.forall_mem_append, List.forall_mem_cons, ih, List.forall_mem_cons,
      and_iff_right hdelim]

/-- The class strings that a client unpacks as they are. -/
theorem realid_packet_iff (hheader : body.length = HEADER_SIZE) :
    realid ((body ++ (identifier ++ [0])).take RECV_SIZE) = identifier ↔
      identifier.length ≤ ID_SIZE ∧ ∀ c ∈ identifier, isIDChar c = true := by
  have htake : (((body ++ (identifier ++ [0])).take RECV_SIZE).drop HEADER_SIZE).take ID_SIZE
      = (identifier ++ [0]).take ID_SIZE := by
    rw [List.drop_take, List.take_take, ← hheader, List.drop_left, hheader]
    rfl
  rw [realid_eq_takeWhile, htake, takeWhile_eq_iff]
  constructor
  · rintro ⟨hchars, rest, heq, -⟩
    refine ⟨?_, hchars⟩
    have hlength := congrArg List.length heq
    rw [List.length_append, List.length_take] at hlength
    omega
  · rintro ⟨hlength, hchars⟩
    refine ⟨hchars, [0].take (ID_SIZE - identifier.length), ?_, ?_⟩
    · rw [List.take_append, List.take_of_length_le hlength]
    · intro c hc
      obtain rfl : c = 0 := List.mem_singleton.mp (List.mem_of_mem_take (List.mem_of_mem_head? hc))
      rfl

/-- A lease is unpacked byte by byte. -/
theorem leaseOf_serverNotifyClientLease (order : ByteOrder) (min sec : UInt8) :
    leaseOf ((serverNotifyClientLease order min sec).take RECV_SIZE)
      = (min.toNat, sec.toNat) := by
  cases order <;> rfl

theorem lenField_serverNotifyClientLease (min sec : UInt8) :
    lenField (serverNotifyClientLease order min sec) = LEASE_SIZE ↔ order = .big := by
  cases order
  · refine iff_of_true ?_ rfl
    rw [serverNotifyClientLease, lenField_bytes (x := UInt32.ofNat LEASE_SIZE) rfl]
    rfl
  · have hswapped : intBytes .little (UInt32.ofNat LEASE_SIZE) = wordBytes 0x02000000 := by decide
    refine iff_of_false ?_ (by decide)
    rw [serverNotifyClientLease, lenField_bytes hswapped]
    decide

/-- **The packets of a server that a client recovers.** -/
theorem recovered_iff (order : ByteOrder) (p : ServerPacket) :
    Recovered order p ↔ Recoverable order p := by
  rcases p with ⟨classes, reserved⟩ | ⟨min, sec⟩
  · have hpacket := serverRespondToClient_eq order (joined PROT_CLASSDELIM classes) reserved
    have hheader : ((outgoingHeader order (joined PROT_CLASSDELIM classes) reserved).bytes
        order).length = HEADER_SIZE := HostHeader.length_bytes _ _
    rw [Recovered, Recoverable, ← all_joined_iff, ← realid_packet_iff hheader]
    constructor
    · rintro ⟨identifier, packet, hid, heq, -, hsame⟩
      obtain rfl := Option.some.inj (identifierOf_eq.symm.trans hid)
      obtain rfl := Option.some.inj (hpacket.symm.trans heq)
      exact hsame
    · intro hsame
      refine ⟨_, _, identifierOf_eq, hpacket, ?_, hsame⟩
      have hshort := ((realid_packet_iff hheader).mp hsame).1
      rw [lenField_bytes (intBytes_htonl order _), UInt32.toNat_ofNat_of_lt']
      exact hshort.trans_lt (by decide)
  · rw [Recovered, Recoverable, lenField_serverNotifyClientLease,
      and_iff_left (leaseOf_serverNotifyClientLease order min sec)]

/-- A server on a little-endian host sends a lease of five minutes. -/
theorem not_recovered_lease : ¬ Recovered .little (.lease 5 0) :=
  fun h => absurd h.1 (by decide)

/-! ## What a server sees -/

theorem length_packA (n : ℕ) (s : List UInt8) : (packA n s).length = n := by
  simp [packA]

/-- A string that fits is packed as it is. -/
theorem take_packA {n : ℕ} (hs : s.length ≤ n) : (packA n s).take s.length = s := by
  rw [packA, List.take_take, min_eq_left hs, List.take_left]

/-- The length in the header of a client broadcast. -/
theorem wordAt_assemble_bc_packet (constant : UInt8) (classes : List CString) :
    wordAt (assemble_bc_packet constant classes) 12
      = (UInt32.ofNat (joined PROT_CLASSDELIM classes).length).toInt32 := by
  have hword := wordAt_wordBytes ([PROT_VERSION, constant, PROT_CONTENT_MSG, 0, 0, 0, 0, 0] ++
    wordBytes PROT_MAGIC_NUMBER) (packA ID_SIZE (joined PROT_CLASSDELIM classes))
    (UInt32.ofNat (joined PROT_CLASSDELIM classes).length)
  rw [assemble_bc_packet, List.append_assoc _ (wordBytes (UInt32.ofNat _))]
  exact hword

theorem lenField_assemble_bc_packet (constant : UInt8) (classes : List CString) :
    lenField (assemble_bc_packet constant classes)
      = (joined PROT_CLASSDELIM classes).length % 2 ^ 32 := by
  rw [lenField, wordAt_assemble_bc_packet, UInt32.toUInt32_toInt32, UInt32.toNat_ofNat']

/-- The body of a client broadcast. -/
theorem drop_assemble_bc_packet (constant : UInt8) (classes : List CString) :
    (assemble_bc_packet constant classes).drop HEADER_SIZE
      = packA ID_SIZE (joined PROT_CLASSDELIM classes) := rfl

theorem length_assemble_bc_packet (constant : UInt8) (classes : List CString) :
    (assemble_bc_packet constant classes).length = HEADER_SIZE + ID_SIZE := by
  rw [assemble_bc_packet, List.length_append, length_packA]
  rfl

/-- A client broadcast is received whole. -/
theorem received_assemble_bc_packet (constant : UInt8) (classes : List CString) :
    received (assemble_bc_packet constant classes) = assemble_bc_packet constant classes := by
  refine List.take_of_length_le ?_
  rw [length_assemble_bc_packet]
  decide

/-- A body with one place more than its length. -/
theorem bodyBuffer_of_le {size len : Int32} {n : ℕ} (hlen : len.toInt = n)
    (hsize : size.toInt = n + 1) (hle : n ≤ body.length) :
    bodyBuffer size len body = some ((body.take n).map some ++ [none]) := by
  have hone : size.toInt.toNat - len.toInt.toNat = 1 := by omega
  refine bodyBuffer_eq_some_iff.mpr ⟨by omega, ?_⟩
  rw [hone, hlen, Int.toNat_natCast, List.replicate_one]

/-- The header that the server reads. -/
theorem header?_assemble_bc_packet (constant : UInt8) (classes : List CString) :
    header? (received (assemble_bc_packet constant classes))
      = some (headerOf ((assemble_bc_packet constant classes).take HEADER_SIZE)) := by
  rw [received_assemble_bc_packet, header?, copy?_eq_some_iff.mpr ⟨?_, rfl⟩]
  · rfl
  · rw [length_assemble_bc_packet]
    decide

/-- The length in it, if the class string fits. -/
theorem toInt_len_assemble_bc_packet (constant : UInt8)
    (hshort : (joined PROT_CLASSDELIM classes).length ≤ ID_SIZE) :
    (headerOf ((assemble_bc_packet constant classes).take HEADER_SIZE)).len.toInt
      = (joined PROT_CLASSDELIM classes).length := by
  have hsize : (joined PROT_CLASSDELIM classes).length ≤ 128 := hshort
  have hlen : (headerOf ((assemble_bc_packet constant classes).take HEADER_SIZE)).len
      = (UInt32.ofNat (joined PROT_CLASSDELIM classes).length).toInt32 :=
    wordAt_assemble_bc_packet constant classes
  rw [hlen]
  exact Int32.toInt_ofNat_of_lt (by omega)

/-- What the server copies of the body, if the class string fits. -/
theorem bodyBuffer_assemble_bc_packet (constant : UInt8)
    (hshort : (joined PROT_CLASSDELIM classes).length ≤ ID_SIZE) :
    let header := headerOf ((assemble_bc_packet constant classes).take HEADER_SIZE)
    bodyBuffer (header.len + 1) header.len
        ((received (assemble_bc_packet constant classes)).drop HEADER_SIZE)
      = some ((joined PROT_CLASSDELIM classes).map some ++ [none]) := by
  intro header
  have hlen : header.len.toInt = (joined PROT_CLASSDELIM classes).length :=
    toInt_len_assemble_bc_packet constant hshort
  have hword : header.len = (UInt32.ofNat (joined PROT_CLASSDELIM classes).length).toInt32 :=
    wordAt_assemble_bc_packet constant classes
  have hsize : (joined PROT_CLASSDELIM classes).length ≤ 128 := hshort
  have hsucc : (header.len + 1).toInt = (joined PROT_CLASSDELIM classes).length + 1 := by
    have hadd := Int32.toInt_ofNat_of_lt (n := (joined PROT_CLASSDELIM classes).length + 1)
      (by omega)
    rw [Int32.ofNat_add] at hadd
    rw [hword]
    exact hadd
  have hfits : (joined PROT_CLASSDELIM classes).length
      ≤ (packA ID_SIZE (joined PROT_CLASSDELIM classes)).length := by
    rw [length_packA]
    exact hshort
  rw [received_assemble_bc_packet, drop_assemble_bc_packet, bodyBuffer_of_le hlen hsucc hfits,
    take_packA hshort]

/-- The body in the server, if the class string fits. -/
theorem receivedBody_assemble_bc_packet (constant : UInt8)
    (hshort : (joined PROT_CLASSDELIM classes).length ≤ ID_SIZE) :
    receivedBody (assemble_bc_packet constant classes)
      = some ((joined PROT_CLASSDELIM classes).map some ++ [some 0]) := by
  rw [receivedBody, header?_assemble_bc_packet, Option.bind_eq_bind, Option.bind_some, contents,
    bodyBuffer_assemble_bc_packet constant hshort, Option.bind_eq_bind, Option.bind_some]
  exact write?_length_map (toInt_len_assemble_bc_packet constant hshort)

/-- **The class strings of a client that arrive** are those that fit into the packet. -/
theorem seesClassList_iff (constant : UInt8) (classes : List CString) :
    SeesClassList classes (assemble_bc_packet constant classes) ↔
      (joined PROT_CLASSDELIM classes).length ≤ ID_SIZE := by
  rw [SeesClassList, lenField_assemble_bc_packet, drop_assemble_bc_packet, length_packA]
  constructor
  · rintro ⟨hle, htake, -⟩
    have hlength := congrArg List.length htake
    rw [List.length_take, length_packA, min_eq_left hle] at hlength
    rwa [hlength] at hle
  · intro hshort
    have hsize : (joined PROT_CLASSDELIM classes).length ≤ 128 := hshort
    rw [Nat.mod_eq_of_lt (by omega)]
    exact ⟨hshort, take_packA hshort, receivedBody_assemble_bc_packet constant hshort⟩

/-- A client of a class with a name of `128` characters. -/
theorem not_seesClassList_long : ¬ SeesClassList [List.replicate 128 97]
    (assemble_bc_packet PROT_BC_CLIENT [List.replicate 128 97]) :=
  fun h => absurd h.1 (by decide +kernel)

end Peep
