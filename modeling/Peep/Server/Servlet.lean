import Peep.Server.Datagram
import Peep.Library.StepSystem

/-!
# Packets on a connection

`serverServlet` (`tcp_server.c`) serves one connection: it reads a header, swaps the byte order of
two fields, reads a body as long as the header says and hands both on by the type of the packet.
TCP delivers a stream; where one `read` ends has nothing to do with where a packet ends. The
servlet calls `read` once for the header and once for the body and never again for what is missing.

* A short header is taken for a header. The rest of it is what the previous packet left in
  `msg.header`, with `magic` and `len` already swapped; the rest of the real header becomes the
  beginning of the next one.
* After a short body nothing is processed, and the rest of the body is taken for headers.

## Choices

A run is a list of iterations, and each says how many bytes its two calls of `read` return. `read`
returns at least one byte unless none are asked for or the stream has ended, and no error. The host
is little-endian, so `ntohl` reverses the bytes of a field in place. A packet counts as processed
when its branch goes through: it is handed to `serverProcessClientBC` or
`serverProcessClientEventPacket`, or discarded because of its type.

## Main results

* `takes_iff_whole` — the iterations that take exactly the next packet are those whose reads are
  whole
* `reassembled_iff` — so the packets of a stream are processed one by one exactly if every read is
-/

namespace Peep

open Bytes StepSystem

/-! ## Packets and the stream -/

/-- A packet as it is sent. -/
structure Packet where
  /-- The bytes of the header. -/
  header : List UInt8
  /-- The bytes of the body. -/
  body : List UInt8
  deriving DecidableEq

/-- The bytes of a packet. -/
def Packet.bytes (p : Packet) : List UInt8 := p.header ++ p.body

/-- A header with the magic number, and a body as long as it says. -/
structure Packet.WellFormed (p : Packet) : Prop where
  /-- The header is complete. -/
  header_length : p.header.length = HEADER_SIZE
  /-- It has the magic number. -/
  magic : (headerOf p.header).magic.toUInt32 = PROT_MAGIC_NUMBER
  /-- `len` is the length of the body. -/
  len : (headerOf p.header).len.toInt = p.body.length

/-- The stream of a list of packets. -/
def streamOf (packets : List Packet) : List UInt8 := packets.flatMap Packet.bytes

/-! ## The loop -/

/-- What the two calls of `read` in an iteration return. -/
structure Reads where
  /-- The bytes read for the header. -/
  header : ℕ
  /-- The bytes read for the body, if it is read. -/
  body : ℕ

/-- `n` is a result of `read` when `requested` bytes are asked for. -/
def Returns (requested : ℕ) (stream : List UInt8) (n : ℕ) : Prop :=
  n ≤ requested ∧ n ≤ stream.length ∧ (n = 0 → requested = 0 ∨ stream = [])

instance (requested : ℕ) (stream : List UInt8) (n : ℕ) : Decidable (Returns requested stream n) :=
  inferInstanceAs (Decidable (_ ∧ _ ∧ _))

/-- The state of `serverServlet` at the top of its loop. -/
structure Servlet where
  /-- The memory of `msg.header`. -/
  header : List UInt8
  /-- What was sent and not read yet. -/
  stream : List UInt8
  /-- The packets processed so far. -/
  processed : List Packet
  /-- The servlet has returned. -/
  closed : Bool

/-- `msg.header.magic = ntohl (msg.header.magic)`, and the same for `len`. -/
def ntohHeader (header : List UInt8) : List UInt8 :=
  header.take 8 ++ ((header.drop 8).take 4).reverse ++ ((header.drop 12).take 4).reverse

/-- Whether the branch for a type goes through after `size_recv` bytes of the body were read. -/
def goesThrough (type : UInt8) (len : Int32) (sizeRecv : ℤ) : Bool :=
  if type = PROT_BC_CLIENT then sizeRecv = len.toInt
  else if type = PROT_CLIENT_EVENT then sizeRecv = len.toInt
  else if type = PROT_BC_SERVER then sizeRecv = len.toInt
  -- the test is `!size_recv != msg.header.len`; both of its branches discard the packet
  else true

/-- One iteration of the loop of `serverServlet`. -/
def serverServlet (s : Servlet) (r : Reads) : Option Servlet :=
  if s.closed ∨ ¬ Returns HEADER_SIZE s.stream r.header then none
  else if r.header = 0 then some { s with closed := true }
  else
    let bytes := s.stream.take r.header ++ s.header.drop r.header
    let rest := s.stream.drop r.header
    let header := headerOf bytes
    if header.magic.toUInt32 ≠ PROT_MAGIC_NUMBER then
      some { s with header := ntohHeader bytes, stream := rest }
    else if ¬ Returns header.len.toInt.toNat rest r.body then none
    else
      let sizeRecv := readBody header.len (some (rest.take r.body))
      some {
        header := ntohHeader bytes
        stream := rest.drop sizeRecv.2.length
        processed := if goesThrough header.type header.len sizeRecv.1 then
          s.processed ++ [⟨bytes, sizeRecv.2⟩] else s.processed
        closed := false }

/-- The servlet of a connection on which those packets are sent. The header was never written. -/
def servletStart (memory : List UInt8) (packets : List Packet) : Servlet where
  header := memory
  stream := streamOf packets
  processed := []
  closed := false

/-! ## What is asked of it -/

/-- The iteration takes the next packet off the stream and processes it. -/
def Takes (s : Servlet) (r : Reads) : Prop :=
  s.stream ≠ [] → ∃ p rest s', p.WellFormed ∧ s.stream = p.bytes ++ rest ∧
    serverServlet s r = some s' ∧ s'.stream = rest ∧ s'.processed = s.processed ++ [p]

/-- The packets of the stream are taken one by one, and when the servlet returns, the packets that
it has processed are those that were sent. -/
def Reassembled (memory : List UInt8) (packets : List Packet) (reads : List Reads) : Prop :=
  Along serverServlet Takes (servletStart memory packets) reads ∧
    ∀ t, exec serverServlet (servletStart memory packets) reads = some t → t.closed →
      t.processed = packets

/-- Both reads return all that is asked for. -/
def Whole (s : Servlet) (r : Reads) : Prop :=
  s.stream ≠ [] → r.header = HEADER_SIZE ∧
    (r.body : ℤ) = (headerOf (s.stream.take HEADER_SIZE)).len.toInt

instance (s : Servlet) (r : Reads) : Decidable (Whole s r) :=
  inferInstanceAs (Decidable (_ → _ ∧ _))

variable {s s' : Servlet} {r : Reads} {p q : Packet} {packets : List Packet}
  {rest rest' memory : List UInt8}

/-! ## One packet -/

theorem Packet.WellFormed.take_bytes (h : p.WellFormed) :
    (p.bytes ++ rest).take HEADER_SIZE = p.header := by
  rw [Packet.bytes, List.append_assoc, ← h.header_length, List.take_left]

theorem Packet.WellFormed.drop_bytes (h : p.WellFormed) :
    (p.bytes ++ rest).drop HEADER_SIZE = p.body ++ rest := by
  rw [Packet.bytes, List.append_assoc, ← h.header_length, List.drop_left]

theorem Packet.WellFormed.length_bytes (h : p.WellFormed) :
    p.bytes.length = HEADER_SIZE + p.body.length := by
  rw [Packet.bytes, List.length_append, h.header_length]

theorem Packet.WellFormed.bytes_ne_nil (h : p.WellFormed) : p.bytes ≠ [] := by
  have hlength := h.length_bytes
  intro hnil
  rw [hnil, HEADER_SIZE, List.length_nil] at hlength
  omega

/-- **Framing is unique**: a stream begins with at most one well-formed packet. -/
theorem Packet.WellFormed.append_inj (hp : p.WellFormed) (hq : q.WellFormed)
    (h : p.bytes ++ rest = q.bytes ++ rest') : p = q ∧ rest = rest' := by
  have hheader : p.header = q.header := by
    calc p.header = (p.bytes ++ rest).take HEADER_SIZE := hp.take_bytes.symm
      _ = (q.bytes ++ rest').take HEADER_SIZE := by rw [h]
      _ = q.header := hq.take_bytes
  have htail : p.body ++ rest = q.body ++ rest' := by
    rw [← hp.drop_bytes, h, hq.drop_bytes]
  have hlength : p.body.length = q.body.length := by
    have := hp.len
    rw [hheader, hq.len] at this
    omega
  obtain ⟨hbody, hrest⟩ := List.append_inj htail hlength
  refine ⟨?_, hrest⟩
  rcases p with ⟨ph, pb⟩
  rcases q with ⟨qh, qb⟩
  subst hheader hbody
  rfl

/-- What is read of a body when no more is available than is asked for. -/
theorem readBody_take {len : Int32} {n : ℕ} (hpos : 0 ≤ len.toInt) (hn : n ≤ len.toInt.toNat)
    (hrest : n ≤ rest.length) : readBody len (some (rest.take n)) = ((n : ℤ), rest.take n) := by
  have hall : (rest.take n).take len.toInt.toNat = rest.take n := by
    rw [List.take_take, min_eq_right hn]
  simp only [readBody, if_neg (not_lt.mpr hpos), hall, List.length_take, min_eq_left hrest]

/-- An iteration whose reads are whole. -/
theorem serverServlet_whole (hopen : s.closed = false) (hmem : s.header.length = HEADER_SIZE)
    (hp : p.WellFormed) (hstream : s.stream = p.bytes ++ rest)
    (hwhole : r.header = HEADER_SIZE ∧ r.body = p.body.length) :
    serverServlet s r = some
      { header := ntohHeader p.header, stream := rest, processed := s.processed ++ [p],
        closed := false } := by
  have hmsg : s.stream.take r.header ++ s.header.drop r.header = p.header := by
    rw [hstream, hwhole.1, hp.take_bytes, ← hmem, List.drop_length, List.append_nil]
  have hdrop : s.stream.drop r.header = p.body ++ rest := by
    rw [hstream, hwhole.1, hp.drop_bytes]
  have hheader : Returns HEADER_SIZE s.stream r.header := by
    have hlength := hp.length_bytes
    rw [Returns, hwhole.1, hstream, List.length_append]
    exact ⟨le_rfl, by omega, fun h => absurd h (by decide)⟩
  have hbody : Returns (headerOf p.header).len.toInt.toNat (p.body ++ rest) r.body := by
    rw [Returns, hwhole.2, hp.len, Int.toNat_natCast, List.length_append]
    exact ⟨le_rfl, by omega, .inl⟩
  have hread : readBody (headerOf p.header).len (some ((p.body ++ rest).take r.body))
      = ((headerOf p.header).len.toInt, p.body) := by
    rw [readBody_take (by rw [hp.len]; omega) hbody.1 hbody.2.1, hwhole.2, List.take_left, hp.len]
  have hthrough : ∀ type, goesThrough type (headerOf p.header).len (headerOf p.header).len.toInt
      = true := by
    intro type
    simp [goesThrough]
  rw [serverServlet, if_neg (by simp [hopen, hheader]), if_neg (by rw [hwhole.1]; decide)]
  simp only [hmsg, hdrop, hp.magic, ne_eq, not_true_eq_false, if_false, hbody, hread, hthrough,
    if_true, List.drop_left]

/-- What an iteration that processes a packet has read. -/
theorem read_of_processed (hstep : serverServlet s r = some s')
    (hp : s'.processed = s.processed ++ [p]) :
    Returns HEADER_SIZE s.stream r.header ∧
      p.header = s.stream.take r.header ++ s.header.drop r.header ∧
      Returns (headerOf p.header).len.toInt.toNat (s.stream.drop r.header) r.body ∧
      p.body = (readBody (headerOf p.header).len
        (some ((s.stream.drop r.header).take r.body))).2 ∧
      s'.stream = (s.stream.drop r.header).drop p.body.length := by
  have hmore : s.processed ≠ s.processed ++ [p] := by simp
  rw [serverServlet] at hstep
  dsimp only at hstep
  split_ifs at hstep with hcall hzero hmagic hbody hthrough
  · cases hstep
    exact absurd hp hmore
  · cases hstep
    exact absurd hp hmore
  · obtain rfl := Option.some.inj hstep
    obtain rfl : _ = p := by simpa using hp
    exact ⟨not_not.mp fun h => hcall (.inr h), rfl, hbody, rfl, rfl⟩
  · -- the branch does not go through
    obtain rfl := Option.some.inj hstep
    exact absurd hp hmore

/-- **An iteration takes the next packet exactly if its reads are whole.** -/
theorem takes_iff_whole (hopen : s.stream ≠ [] → s.closed = false)
    (hmem : s.header.length = HEADER_SIZE) (hpackets : ∀ p ∈ packets, p.WellFormed)
    (hstream : s.stream = streamOf packets) : Takes s r ↔ Whole s r := by
  rcases packets with - | ⟨q, packets⟩
  · have hnil : s.stream = [] := hstream
    exact iff_of_true (fun h => absurd hnil h) fun h => absurd hnil h
  have hq : q.WellFormed := hpackets q List.mem_cons_self
  have hfront : s.stream = q.bytes ++ streamOf packets := hstream
  have hne : s.stream ≠ [] := by
    rw [hfront]
    exact List.append_ne_nil_of_left_ne_nil hq.bytes_ne_nil _
  rw [Takes, Whole, imp_iff_right hne, imp_iff_right hne, hfront, hq.take_bytes, hq.len]
  constructor
  · rintro ⟨p, rest, s', hp, hsplit, hstep, hrest, hprocessed⟩
    obtain ⟨rfl, rfl⟩ := hp.append_inj hq hsplit.symm
    obtain ⟨hread, -, hbody, htaken, hleft⟩ := read_of_processed hstep hprocessed
    have hlength := congrArg List.length hleft
    rw [hrest, List.length_drop, List.length_drop, hfront, List.length_append, hq.length_bytes]
      at hlength
    have hheader : r.header = HEADER_SIZE := by
      have := hread.1
      omega
    rw [hfront, hheader, hq.drop_bytes] at hbody htaken
    rw [readBody_take (by rw [hq.len]; omega) hbody.1 hbody.2.1] at htaken
    have hcount := congrArg List.length htaken
    rw [List.length_take, min_eq_left hbody.2.1] at hcount
    exact ⟨hheader, by omega⟩
  · rintro ⟨hheader, hbody⟩
    exact ⟨q, streamOf packets, _, hq, rfl,
      serverServlet_whole (hopen hne) hmem hq hfront ⟨hheader, by omega⟩, rfl, rfl⟩

/-! ## All packets -/

theorem length_ntohHeader {header : List UInt8} (h : header.length = HEADER_SIZE) :
    (ntohHeader header).length = HEADER_SIZE := by
  simp [ntohHeader, h, HEADER_SIZE]

/-- The stream of packets that are well-formed ends with them. -/
theorem streamOf_eq_nil (hpackets : ∀ p ∈ packets, p.WellFormed) (h : streamOf packets = []) :
    packets = [] := by
  rcases packets with - | ⟨p, packets⟩
  · rfl
  · exact absurd (List.append_eq_nil_iff.mp h).1 (hpackets p List.mem_cons_self).bytes_ne_nil

/-- The servlet is between two packets of the stream. -/
structure InStep (packets : List Packet) (s : Servlet) : Prop where
  /-- What is processed and what is still in the stream are all packets that were sent. -/
  split : ∃ todo, packets = s.processed ++ todo ∧ s.stream = streamOf todo
  /-- The memory of the header. -/
  header_length : s.header.length = HEADER_SIZE
  /-- The servlet returns only at the end of the stream. -/
  running : s.stream ≠ [] → s.closed = false

theorem InStep.servletStart (hmem : memory.length = HEADER_SIZE) :
    InStep packets (servletStart memory packets) :=
  ⟨⟨packets, rfl, rfl⟩, hmem, fun _ => rfl⟩

theorem InStep.takes_iff_whole (h : InStep packets s) (hpackets : ∀ p ∈ packets, p.WellFormed) :
    Takes s r ↔ Whole s r := by
  obtain ⟨todo, rfl, hstream⟩ := h.split
  have htodo : ∀ p ∈ todo, p.WellFormed := fun p hp => hpackets p (List.mem_append_right _ hp)
  exact Peep.takes_iff_whole h.running h.header_length htodo hstream

/-- At the end of the stream the servlet returns. -/
theorem serverServlet_nil (hstream : s.stream = []) (hstep : serverServlet s r = some s') :
    s' = { s with closed := true } := by
  have hzero : Returns HEADER_SIZE s.stream r.header → r.header = 0 := by
    rintro ⟨-, hle, -⟩
    rw [hstream, List.length_nil] at hle
    omega
  rw [serverServlet] at hstep
  by_cases hcall : s.closed ∨ ¬ Returns HEADER_SIZE s.stream r.header
  · rw [if_pos hcall] at hstep
    cases hstep
  · rw [if_neg hcall, if_pos (hzero (not_not.mp (not_or.mp hcall).2))] at hstep
    exact (Option.some.inj hstep).symm

/-- **An iteration whose reads are whole stays between packets.** -/
theorem InStep.step (hpackets : ∀ p ∈ packets, p.WellFormed) (h : InStep packets s)
    (hwhole : Whole s r) (hstep : serverServlet s r = some s') : InStep packets s' := by
  obtain ⟨todo, rfl, hstream⟩ := h.split
  rcases todo with - | ⟨p, todo⟩
  · obtain rfl := serverServlet_nil hstream hstep
    exact ⟨⟨[], rfl, hstream⟩, h.header_length, fun hne => absurd hstream hne⟩
  · have hp : p.WellFormed := hpackets p (List.mem_append_right _ List.mem_cons_self)
    have hfront : s.stream = p.bytes ++ streamOf todo := hstream
    have hne : s.stream ≠ [] := by
      rw [hfront]
      exact List.append_ne_nil_of_left_ne_nil hp.bytes_ne_nil _
    obtain ⟨hheader, hbody⟩ := hwhole hne
    rw [hfront, hp.take_bytes, hp.len] at hbody
    rw [serverServlet_whole (h.running hne) h.header_length hp hfront ⟨hheader, by omega⟩] at hstep
    obtain rfl := Option.some.inj hstep
    refine ⟨⟨todo, by simp, rfl⟩, length_ntohHeader hp.header_length, fun _ => rfl⟩

/-- **When the packets of a stream are reassembled**: exactly if every `read` returns all that it
was asked for. -/
theorem reassembled_iff (memory : List UInt8) (packets : List Packet) (reads : List Reads)
    (hmem : memory.length = HEADER_SIZE) (hpackets : ∀ p ∈ packets, p.WellFormed) :
    Reassembled memory packets reads ↔
      Along serverServlet Whole (servletStart memory packets) reads := by
  have hstep : ∀ s r s', InStep packets s → Whole s r → serverServlet s r = some s' →
      InStep packets s' := fun s r s' h => h.step hpackets
  have hinit : InStep packets (servletStart memory packets) := InStep.servletStart hmem
  have halong : Along serverServlet Takes (servletStart memory packets) reads ↔
      Along serverServlet Whole (servletStart memory packets) reads :=
    along_iff_of_invariant hstep (fun s r h => h.takes_iff_whole hpackets) hinit
  refine ⟨fun h => halong.mp h.1, fun h => ⟨halong.mpr h, ?_⟩⟩
  intro t ht hclosed
  have hend := exec_invariant hstep hinit h ht
  obtain ⟨todo, hsplit, hstream⟩ := hend.split
  have hnil : t.stream = [] := by
    by_contra hne
    rw [hend.running hne] at hclosed
    cases hclosed
  have htodo : todo = [] := by
    refine streamOf_eq_nil (fun p hp => hpackets p ?_) (hstream.symm.trans hnil)
    rw [hsplit]
    exact List.mem_append_right _ hp
  rw [hsplit, htodo, List.append_nil]

/-- The reads of a stream that is delivered packet by packet. -/
def wholeReads (packets : List Packet) : List Reads :=
  packets.map (fun p => ⟨HEADER_SIZE, p.body.length⟩) ++ [⟨0, 0⟩]

/-- **Delivered packet by packet**, the stream is read to its end: the servlet returns and has
processed what was sent. -/
theorem exec_wholeReads (hpackets : ∀ p ∈ packets, p.WellFormed) (hopen : s.closed = false)
    (hmem : s.header.length = HEADER_SIZE) (hstream : s.stream = streamOf packets) :
    ∃ t, exec serverServlet s (wholeReads packets) = some t ∧ t.closed = true ∧
      t.processed = s.processed ++ packets := by
  induction packets generalizing s with
  | nil =>
    have hnil : s.stream = [] := hstream
    have hreturns : Returns HEADER_SIZE s.stream 0 :=
      ⟨Nat.zero_le _, Nat.zero_le _, fun _ => .inr hnil⟩
    refine ⟨{ s with closed := true }, ?_, rfl, (List.append_nil _).symm⟩
    show exec serverServlet s [⟨0, 0⟩] = _
    rw [exec_cons, serverServlet, if_neg (by simp [hopen, hreturns]), if_pos rfl]
    rfl
  | cons p packets ih =>
    have hp := hpackets p List.mem_cons_self
    obtain ⟨t, ht, hclosed, hprocessed⟩ := ih
      (s := ⟨ntohHeader p.header, streamOf packets, s.processed ++ [p], false⟩)
      (fun q hq => hpackets q (List.mem_cons_of_mem _ hq)) rfl (length_ntohHeader hp.header_length)
      rfl
    refine ⟨t, ?_, hclosed, by rw [hprocessed, List.append_assoc]; rfl⟩
    show exec serverServlet s (⟨HEADER_SIZE, p.body.length⟩ :: wholeReads packets) = _
    rw [exec_cons, serverServlet_whole hopen hmem hp hstream ⟨rfl, rfl⟩]
    exact ht

/-- **One packet, its header in two segments**: nothing of it is processed. -/
theorem not_processed_split_header :
    let p : Packet := ⟨[1, 4, 1, 0, 0, 0, 0, 0, 0xDE, 0xAD, 0xBE, 0xEF, 0, 0, 0, 1], [60]⟩
    p.WellFormed ∧ ∃ t, exec serverServlet (servletStart (List.replicate 16 0) [p])
      [⟨8, 0⟩, ⟨8, 0⟩, ⟨1, 0⟩, ⟨0, 0⟩] = some t ∧ t.closed = true ∧ t.processed ≠ [p] :=
  ⟨⟨rfl, by decide, by decide⟩, _, rfl, rfl, by decide⟩

/-- A packet that arrives whole and one whose body arrives in two segments: only the first is
taken as it was sent. -/
theorem reassembled_one_packet :
    let p : Packet := ⟨[1, 4, 1, 0, 0, 0, 0, 0, 0xDE, 0xAD, 0xBE, 0xEF, 0, 0, 0, 2], [60, 62]⟩
    Reassembled (List.replicate 16 0) [p] [⟨16, 2⟩, ⟨0, 0⟩] ∧
      ¬ Reassembled (List.replicate 16 0) [p] [⟨16, 1⟩, ⟨1, 0⟩, ⟨0, 0⟩] := by
  have hp : ∀ p ∈ [(⟨[1, 4, 1, 0, 0, 0, 0, 0, 0xDE, 0xAD, 0xBE, 0xEF, 0, 0, 0, 2], [60, 62]⟩ :
      Packet)], p.WellFormed :=
    List.forall_mem_singleton.mpr ⟨rfl, by decide, by decide⟩
  exact ⟨(reassembled_iff _ _ _ rfl hp).mpr (by decide),
    fun h => absurd ((reassembled_iff _ _ _ rfl hp).mp h) (by decide)⟩

end Peep
