import Peep.Arrivals
import Peep.EngineLoop
import Peep.Library.Interleave
import Peep.Server.Servlet

/-!
# From the clients to the engine

What a client says with `send` should be heard: the notice is packed and sent (`sendout` of
`Net::Peep::BC`), a thread of the server reads it from the client's connection (`serverServlet`) or
the UDP server takes it from a datagram (`serverRealStart`), it is decoded, and the event goes to
the engine queue. The engine takes it out again and, if it is for a state, sets its volume.

This module puts the models of these parts together. Any number of clients have a connection each;
the threads that serve them run in any order and share one engine queue. As long as each `read` is
whole, the events of each client get into the queue one by one, in order, none lost and none twice,
whatever the other connections do.

## Choices

The engine queue is seen as the list of what was enqueued; `Peep.EngineQueue` says in which order
the events come out. A thread decodes a packet and enqueues its event in one step. `malloc` finds
anything in the memory for an event, and expat is a parameter as in `Peep.Server.XmlNotice`.

## Main results

* `delivered` — what has been heard of each client, at any time of any run
* `exists_delivery` — in every order of the threads, all of it is heard in the end
* `states_unchanged` — notices whose type is a word change no state
* `vol_of_last_notice` — the last notice about a state decides its volume
* `datagrams_iff` — the datagrams that arrive at a UDP server
-/

namespace Peep

open Bytes Decimal StepSystem Interleave

/-! ## Packets -/

/-- `PROT_MAJOR_VER`. -/
def PROT_MAJOR_VER : UInt8 := 2

/-- What `sendout` makes with `pack ("C8N2A$length", ...)`. -/
def sendoutPacket (n : Notice) (tcp : Bool) : Packet where
  header := [PROT_MAJOR_VER, PROT_CLIENT_EVENT, (sendout n tcp).1, 0, 0, 0, 0, 0] ++
    wordBytes PROT_MAGIC_NUMBER ++ wordBytes (UInt32.ofInt (sendout n tcp).2.length)
  body := (sendout n tcp).2

variable {n : Notice} {tcp : Bool} {memory : Event} {expat : List UInt8 → List XmlCall}

theorem headerOf_sendoutPacket (n : Notice) (tcp : Bool) : headerOf (sendoutPacket n tcp).header
    = ⟨PROT_MAJOR_VER, PROT_CLIENT_EVENT, (sendout n tcp).1, PROT_MAGIC_NUMBER.toInt32,
        Int32.ofInt (sendout n tcp).2.length⟩ := by
  have hmagic : wordAt (sendoutPacket n tcp).header 8 = PROT_MAGIC_NUMBER.toInt32 := by
    rw [sendoutPacket, List.append_assoc]
    exact wordAt_wordBytes [PROT_MAJOR_VER, PROT_CLIENT_EVENT, (sendout n tcp).1, 0, 0, 0, 0, 0] _ _
  have hlen : wordAt (sendoutPacket n tcp).header 12
      = Int32.ofInt (sendout n tcp).2.length := by
    rw [← toInt32_ofInt, sendoutPacket, ← List.append_nil (wordBytes (UInt32.ofInt _))]
    exact wordAt_wordBytes ([PROT_MAJOR_VER, PROT_CLIENT_EVENT, (sendout n tcp).1, 0, 0, 0, 0, 0] ++
      wordBytes PROT_MAGIC_NUMBER) [] _
  rw [headerOf, hmagic, hlen]
  rfl

theorem wellFormed_sendoutPacket (h : (sendout n tcp).2.length < 2 ^ 31) :
    (sendoutPacket n tcp).WellFormed where
  header_length := rfl
  magic := by rw [headerOf_sendoutPacket]; rfl
  len := by
    rw [headerOf_sendoutPacket]
    exact toInt_ofNat_length h

/-! ## Events -/

/-- `serverProcessClientEventPacket`, and `serverProcessClientEvent` for what it was decoded to:
the events that are enqueued. -/
def clientEvents (expat : List UInt8 → List XmlCall) (memory : Event) (content : UInt8)
    (len : Int32) (body : List UInt8) : Option (List Event) :=
  (serverProcessClientEventPacket content len body).bind fun events =>
    events.mapM (serverProcessClientEvent expat memory)

/-- What `serverServlet` enqueues for a packet that it processes. -/
def servletEvents (expat : List UInt8 → List XmlCall) (memory : Event) (p : Packet) :
    Option (List Event) :=
  if (headerOf p.header).type = PROT_CLIENT_EVENT then
    clientEvents expat memory (headerOf p.header).content (headerOf p.header).len p.body
  else some []

/-- An iteration of `serverServlet` and what it enqueues. -/
def serverServletEvents (expat : List UInt8 → List XmlCall) (s : Servlet) (a : Reads × Event) :
    Option (Servlet × List Event) :=
  (serverServlet s a.1).bind fun s' =>
    ((s'.processed.drop s.processed.length).mapM (servletEvents expat a.2)).map fun events =>
      (s', events.flatten)

/-- A notice that can be sent as a document: it has a sound, its document fits into a packet, and
expat reports it as it is. -/
structure Sendable (expat : List UInt8 → List XmlCall) (n : Notice) : Prop where
  /-- It is plain. -/
  plain : Plain n
  /-- It has a sound. -/
  sound : n.sound ≠ []
  /-- What expat reports. -/
  reports : Reports (expat (serialize n ++ EOL)) (noticeTokens n)
  /-- The length fits into the header. -/
  length : (serialize n ++ EOL).length < 2 ^ 31

/-- **One packet**: the event of its notice is enqueued. -/
theorem servletEvents_sendoutPacket (h : Sendable expat n) :
    servletEvents expat memory (sendoutPacket n true) = some [n.heard xmlByte] := by
  have hdecoded : serverProcessClientEventPacket PROT_CONTENT_XML
      (Int32.ofInt (serialize n ++ EOL).length) (serialize n ++ EOL)
        = some [.xml (serialize n ++ EOL)] := serverProcessClientEventPacket_xml h.length
  have hevent := serverProcessClientEvent_serialize h.plain memory h.reports
  rw [if_neg h.sound] at hevent
  rw [servletEvents, headerOf_sendoutPacket, if_pos rfl, clientEvents]
  show (serverProcessClientEventPacket PROT_CONTENT_XML
    (Int32.ofInt (serialize n ++ EOL).length) (serialize n ++ EOL)).bind _ = _
  rw [hdecoded]
  simp [hevent]

/-! ## One connection -/

variable {ns : List Notice} {v v' : Servlet × List Event} {a : Reads × Event}

/-- The packets of some notices. -/
def packetsOf (ns : List Notice) : List Packet := ns.map fun n => sendoutPacket n true

/-- What is heard of some notices. -/
def heardOf (ns : List Notice) : List Event := ns.map (Notice.heard xmlByte)

/-- The servlet is between two packets, and the events of those that it has processed are in the
queue. -/
structure Serves (ns : List Notice) (v : Servlet × List Event) : Prop where
  /-- The notices that are heard and the others. -/
  split : ∃ done todo, ns = done ++ todo ∧ v.1.processed = packetsOf done ∧
    v.1.stream = streamOf (packetsOf todo) ∧ v.2 = heardOf done
  /-- The memory of the header. -/
  header_length : v.1.header.length = HEADER_SIZE
  /-- The servlet returns only at the end of the stream. -/
  running : v.1.stream ≠ [] → v.1.closed = false

theorem wellFormed_of_mem_packetsOf (hns : ∀ n ∈ ns, Sendable expat n) :
    ∀ p ∈ packetsOf ns, p.WellFormed := by
  intro p hp
  obtain ⟨n, hn, rfl⟩ := List.mem_map.mp hp
  exact wellFormed_sendoutPacket (hns n hn).length

/-- The iteration that takes the packet of a notice. -/
theorem alone_whole {todo : List Notice} (hn : Sendable expat n) (hopen : v.1.closed = false)
    (hmem : v.1.header.length = HEADER_SIZE)
    (hstream : v.1.stream = streamOf (packetsOf (n :: todo)))
    (hwhole : a.1.header = HEADER_SIZE ∧ a.1.body = (sendoutPacket n true).body.length) :
    alone (serverServletEvents expat) v a = some
      (⟨ntohHeader (sendoutPacket n true).header, streamOf (packetsOf todo),
        v.1.processed ++ [sendoutPacket n true], false⟩, v.2 ++ [n.heard xmlByte]) := by
  have hp : (sendoutPacket n true).WellFormed := wellFormed_sendoutPacket hn.length
  have hfront : v.1.stream = (sendoutPacket n true).bytes ++ streamOf (packetsOf todo) := hstream
  rw [alone, serverServletEvents, serverServlet_whole hopen hmem hp hfront hwhole]
  simp [servletEvents_sendoutPacket hn]

/-- At the end of the stream nothing is enqueued. -/
theorem alone_nil (hstream : v.1.stream = [])
    (h : alone (serverServletEvents expat) v a = some v') :
    v' = ({ v.1 with closed := true }, v.2) := by
  obtain ⟨r, hr, rfl⟩ := Option.map_eq_some_iff.mp h
  obtain ⟨s', hs', hevents⟩ := Option.bind_eq_some_iff.mp hr
  obtain rfl := serverServlet_nil hstream hs'
  simp only [List.drop_length, List.mapM_nil, Option.pure_def, Option.map_some,
    Option.some.injEq] at hevents
  subst hevents
  simp

/-- **An iteration whose reads are whole** keeps the queue and the stream together. -/
theorem Serves.step (hns : ∀ n ∈ ns, Sendable expat n) (h : Serves ns v) (hwhole : Whole v.1 a.1)
    (hstep : alone (serverServletEvents expat) v a = some v') : Serves ns v' := by
  obtain ⟨done, todo, rfl, hprocessed, hstream, hlog⟩ := h.split
  cases todo with
  | nil =>
    obtain rfl := alone_nil hstream hstep
    exact ⟨⟨done, [], rfl, hprocessed, hstream, hlog⟩, h.header_length,
      fun hne => absurd hstream hne⟩
  | cons n todo =>
    have hn : Sendable expat n := hns n (List.mem_append_right _ List.mem_cons_self)
    have hp : (sendoutPacket n true).WellFormed := wellFormed_sendoutPacket hn.length
    have hfront : v.1.stream = (sendoutPacket n true).bytes ++ streamOf (packetsOf todo) := hstream
    have hne : v.1.stream ≠ [] := by
      rw [hfront]
      exact List.append_ne_nil_of_left_ne_nil hp.bytes_ne_nil _
    obtain ⟨hheader, hbody⟩ := hwhole hne
    rw [hfront, hp.take_bytes, hp.len] at hbody
    rw [alone_whole hn (h.running hne) h.header_length hstream ⟨hheader, by omega⟩] at hstep
    obtain rfl := Option.some.inj hstep
    refine ⟨⟨done ++ [n], todo, by simp, ?_, rfl, ?_⟩, length_ntohHeader hp.header_length,
      fun _ => rfl⟩
    · simp [packetsOf, hprocessed]
    · simp [heardOf, hlog]

/-- What is heard of a connection, while it is served and when it is closed. -/
theorem Serves.heard (hns : ∀ n ∈ ns, Sendable expat n) (h : Serves ns v) :
    v.2 <+: heardOf ns ∧ (v.1.closed = true → v.2 = heardOf ns) := by
  obtain ⟨done, todo, rfl, hprocessed, hstream, hlog⟩ := h.split
  refine ⟨⟨heardOf todo, by simp [hlog, heardOf]⟩, fun hclosed => ?_⟩
  have hnil : v.1.stream = [] := by
    by_contra hne
    rw [h.running hne] at hclosed
    exact Bool.false_ne_true hclosed
  have htodo : packetsOf todo = [] := by
    refine streamOf_eq_nil ?_ (hstream.symm.trans hnil)
    exact wellFormed_of_mem_packetsOf fun n hn => hns n (List.mem_append_right _ hn)
  rw [List.map_eq_nil_iff.mp htodo, List.append_nil, hlog]

/-- **Delivered packet by packet**, a connection is served to its end. -/
theorem exec_alone_wholeReads {as : List (Reads × Event)} (hns : ∀ n ∈ ns, Sendable expat n)
    (hopen : v.1.closed = false) (hmem : v.1.header.length = HEADER_SIZE)
    (hstream : v.1.stream = streamOf (packetsOf ns))
    (has : as.map Prod.fst = wholeReads (packetsOf ns)) :
    ∃ v', exec (alone (serverServletEvents expat)) v as = some v' ∧ v'.1.closed = true ∧
      v'.2 = v.2 ++ heardOf ns := by
  induction ns generalizing v as with
  | nil =>
    obtain ⟨⟨r, m⟩, rest, rfl, rfl, hrest⟩ := List.map_eq_cons_iff.mp has
    obtain rfl := List.map_eq_nil_iff.mp hrest
    have hnil : v.1.stream = [] := hstream
    have hreturns : Returns HEADER_SIZE v.1.stream 0 :=
      ⟨Nat.zero_le _, Nat.zero_le _, fun _ => .inr hnil⟩
    refine ⟨({ v.1 with closed := true }, v.2), ?_, rfl, (List.append_nil _).symm⟩
    rw [exec_cons, alone, serverServletEvents, serverServlet, if_neg (by simp [hopen, hreturns]),
      if_pos rfl]
    simp
  | cons n ns ih =>
    obtain ⟨⟨r, m⟩, rest, rfl, rfl, hrest⟩ := List.map_eq_cons_iff.mp has
    have hn := hns n List.mem_cons_self
    have hstep := alone_whole (a := (⟨HEADER_SIZE, (sendoutPacket n true).body.length⟩, m)) hn hopen
      hmem hstream ⟨rfl, rfl⟩
    obtain ⟨v', hv', hclosed, hlog⟩ := ih
      (v := (⟨ntohHeader (sendoutPacket n true).header, streamOf (packetsOf ns),
        v.1.processed ++ [sendoutPacket n true], false⟩, v.2 ++ [n.heard xmlByte]))
      (fun k hk => hns k (List.mem_cons_of_mem _ hk)) rfl (length_ntohHeader rfl) rfl hrest
    refine ⟨v', exec_cons_eq_some.mpr ⟨_, hstep, hv'⟩, hclosed, ?_⟩
    rw [hlog, List.append_assoc]
    rfl

/-! ## All connections -/

section Server

variable {ι : Type} [DecidableEq ι] {notices : ι → List Notice} {header : ι → List UInt8}
  {acts : List (ι × Reads × Event)} {t : System ι Servlet Event}

/-- The server with a connection to each client, on which that client sends its notices. -/
def serverStart (header : ι → List UInt8) (notices : ι → List Notice) :
    System ι Servlet Event where
  component i := servletStart (header i) (packetsOf (notices i))
  log := []

/-- A thread of the server reads all that it asks for. -/
def WholeReads (s : System ι Servlet Event) (a : ι × Reads × Event) : Prop :=
  Whole (s.component a.1) a.2.1

instance (s : System ι Servlet Event) (a : ι × Reads × Event) : Decidable (WholeReads s a) :=
  inferInstanceAs (Decidable (Whole _ _))

theorem serves_start (hheader : ∀ i, (header i).length = HEADER_SIZE) (i : ι) :
    Serves (notices i) ((serverStart header notices).view i) :=
  ⟨⟨[], notices i, rfl, rfl, rfl, rfl⟩, hheader i, fun _ => rfl⟩

/-- The invariant of a connection, in a run of all of them. -/
theorem serves_of_exec (hheader : ∀ i, (header i).length = HEADER_SIZE)
    (hnotices : ∀ i, ∀ n ∈ notices i, Sendable expat n)
    (hwhole : Along (System.step (serverServletEvents expat)) WholeReads
      (serverStart header notices) acts)
    (hrun : exec (System.step (serverServletEvents expat)) (serverStart header notices) acts
      = some t) (i : ι) : Serves (notices i) (t.view i) :=
  exec_invariant (I := Serves (notices i)) (C := fun v a => Whole v.1 a.1)
    (fun _ _ _ h hC hs => h.step (hnotices i) hC hs) (serves_start hheader i)
    (along_view hrun hwhole i) (exec_view hrun i)

/-- **What has been heard of each client**: at any time a first part of what it has sent, in order,
and when its connection is closed, all of it. -/
theorem delivered (hheader : ∀ i, (header i).length = HEADER_SIZE)
    (hnotices : ∀ i, ∀ n ∈ notices i, Sendable expat n)
    (hwhole : Along (System.step (serverServletEvents expat)) WholeReads
      (serverStart header notices) acts)
    (hrun : exec (System.step (serverServletEvents expat)) (serverStart header notices) acts
      = some t) (i : ι) :
    own i t.log <+: heardOf (notices i) ∧
      ((t.component i).closed = true → own i t.log = heardOf (notices i)) :=
  (serves_of_exec hheader hnotices hwhole hrun i).heard (hnotices i)

/-- **In every order of the threads**, if each reads its packets one by one, all is heard. -/
theorem exists_delivery (hheader : ∀ i, (header i).length = HEADER_SIZE)
    (hnotices : ∀ i, ∀ n ∈ notices i, Sendable expat n)
    (hacts : ∀ i, (own i acts).map Prod.fst = wholeReads (packetsOf (notices i))) :
    ∃ t, exec (System.step (serverServletEvents expat)) (serverStart header notices) acts = some t ∧
      ∀ i, (t.component i).closed = true ∧ own i t.log = heardOf (notices i) := by
  have halone : ∀ i, ∃ v, exec (alone (serverServletEvents expat))
      ((serverStart header notices).view i) (own i acts) = some v ∧ v.1.closed = true ∧
        v.2 = heardOf (notices i) := fun i =>
    exec_alone_wholeReads (v := (serverStart header notices).view i) (hnotices i) rfl (hheader i)
      rfl (hacts i)
  have hall : ∃ t, exec (System.step (serverServletEvents expat)) (serverStart header notices) acts
      = some t := exists_exec fun i => by
    obtain ⟨v, hv, -⟩ := halone i
    rw [hv]
    rfl
  obtain ⟨t, ht⟩ := hall
  refine ⟨t, ht, fun i => ?_⟩
  obtain ⟨v, hv, hclosed, hlog⟩ := halone i
  obtain rfl := Option.some.inj ((exec_view ht i).symm.trans hv)
  exact ⟨hclosed, hlog⟩

/-- The load a little later. -/
def laterNotice : Notice := stateNotice (ascii "load") 90

theorem plain_laterNotice : Plain laterNotice :=
  plain_stateNotice (by decide) (by decide) (by decide)

/-- The mails that wait. -/
def mailNotice : Notice := stateNotice (ascii "mail") 30

theorem plain_mailNotice : Plain mailNotice :=
  plain_stateNotice (by decide) (by decide) (by decide)

/-- One client that sends the load twice, and one that sends the mails. -/
def loadAndMail (i : Bool) : List Notice :=
  if i then [loadNotice, laterNotice] else [mailNotice]

/-- The header of a servlet that has read nothing. -/
def noHeader (_ : Bool) : List UInt8 := List.replicate 16 0

/-- The body of a notice is read whole. -/
def readsOf (n : Notice) : Reads := ⟨16, (sendoutPacket n true).body.length⟩

/-- An order in which the threads serve the two clients, whatever is in the memory. -/
def loadAndMailReads : List (Bool × Reads × Event) :=
  [(true, readsOf loadNotice), (false, readsOf mailNotice), (false, ⟨0, 0⟩),
    (true, readsOf laterNotice), (true, ⟨0, 0⟩)].map fun r => (r.1, r.2, loadNotice.heard packC)

theorem sendable_loadAndMail : ∀ i, ∀ n ∈ loadAndMail i, Sendable plainExpat n := by
  have hload : Sendable plainExpat loadNotice :=
    ⟨plain_loadNotice, by decide, ⟨by decide +kernel, by decide +kernel⟩, by decide +kernel⟩
  have hlater : Sendable plainExpat laterNotice :=
    ⟨plain_laterNotice, by decide, ⟨by decide +kernel, by decide +kernel⟩, by decide +kernel⟩
  have hmail : Sendable plainExpat mailNotice :=
    ⟨plain_mailNotice, by decide, ⟨by decide +kernel, by decide +kernel⟩, by decide +kernel⟩
  rintro (- | -)
  · exact List.forall_mem_singleton.mpr hmail
  · exact List.forall_mem_cons.mpr ⟨hload, List.forall_mem_singleton.mpr hlater⟩

/-- Both notices about the load are heard, and that about the mails. -/
theorem exists_delivery_loadAndMail : ∃ t, exec (System.step (serverServletEvents plainExpat))
      (serverStart noHeader loadAndMail) loadAndMailReads = some t ∧
    ∀ i, (t.component i).closed = true ∧ own i t.log = heardOf (loadAndMail i) := by
  refine exists_delivery (fun _ => rfl) sendable_loadAndMail ?_
  rintro (- | -) <;> rfl

theorem along_wholeReads_loadAndMail :
    Along (System.step (serverServletEvents plainExpat)) WholeReads
      (serverStart noHeader loadAndMail) loadAndMailReads := by decide +kernel

/-- The run of the threads that serve the two clients. -/
theorem exists_run_loadAndMail : ∃ t, exec (System.step (serverServletEvents plainExpat))
      (serverStart noHeader loadAndMail) loadAndMailReads = some t ∧
    t.log = [(true, loadNotice.heard xmlByte), (false, mailNotice.heard xmlByte),
      (true, laterNotice.heard xmlByte)] ∧ ∀ i, (t.component i).closed = true := by
  have hrun : (exec (System.step (serverServletEvents plainExpat))
      (serverStart noHeader loadAndMail) loadAndMailReads).map
        (fun t => (t.log, (t.component true).closed, (t.component false).closed))
          = some ([(true, loadNotice.heard xmlByte), (false, mailNotice.heard xmlByte),
            (true, laterNotice.heard xmlByte)], true, true) := by decide +kernel
  obtain ⟨t, ht, hall⟩ := Option.map_eq_some_iff.mp hrun
  obtain ⟨hlog, hclosed⟩ := Prod.mk.inj hall
  obtain ⟨htrue, hfalse⟩ := Prod.mk.inj hclosed
  refine ⟨t, ht, hlog, ?_⟩
  rintro (- | -)
  · exact hfalse
  · exact htrue

/-- In that run, and for the client that sends the load. -/
theorem delivered_loadAndMail : ∃ t, exec (System.step (serverServletEvents plainExpat))
      (serverStart noHeader loadAndMail) loadAndMailReads = some t ∧
    own true t.log <+: heardOf [loadNotice, laterNotice] ∧
      ((t.component true).closed = true → own true t.log = heardOf [loadNotice, laterNotice]) := by
  obtain ⟨t, ht, -⟩ := exists_run_loadAndMail
  exact ⟨t, ht, delivered (fun _ => rfl) sendable_loadAndMail along_wholeReads_loadAndMail ht true⟩

/-! ## The engine -/

variable {N K fuel : ℕ} {table : SoundTable SoundData} {m m' : Mixer N K} {es : List Event}
  {e : Event}

/-- An event that is not about a state leaves the states as they are. -/
theorem engineLoop_of_type_ne (he : e.type ≠ STATE_T)
    (h : engineLoop fuel table m e = some m') : m' = m := by
  obtain ⟨name, -, h⟩ := Option.bind_eq_some_iff.mp h
  obtain ⟨entry, -, h⟩ := Option.bind_eq_some_iff.mp h
  cases entry with
  | none => exact (Option.some.inj h).symm
  | some entry =>
    simp only [if_neg he, ite_self, Option.some.injEq] at h
    exact h.symm

theorem processAll_of_type_ne (hes : ∀ e ∈ es, e.type ≠ STATE_T)
    (h : processAll fuel table es m = some m') : m' = m := by
  induction es generalizing m with
  | nil => exact (Option.some.inj h).symm
  | cons e es ih =>
    obtain ⟨he, hes⟩ := List.forall_mem_cons.mp hes
    obtain ⟨m₁, hm₁, h⟩ := Option.bind_eq_some_iff.mp h
    rw [ih hes h, engineLoop_of_type_ne he hm₁]

/-- Every event in the queue is that of a notice. -/
theorem exists_notice_of_mem_log (hheader : ∀ i, (header i).length = HEADER_SIZE)
    (hnotices : ∀ i, ∀ n ∈ notices i, Sendable expat n)
    (hwhole : Along (System.step (serverServletEvents expat)) WholeReads
      (serverStart header notices) acts)
    (hrun : exec (System.step (serverServletEvents expat)) (serverStart header notices) acts
      = some t) {i : ι} (he : (i, e) ∈ t.log) : ∃ n ∈ notices i, n.heard xmlByte = e := by
  have hheard := (serves_of_exec hheader hnotices hwhole hrun i).heard (hnotices i)
  exact List.mem_map.mp (hheard.1.subset (mem_own.mpr he))

/-- A table of sounds with that of the load, which is for the first state. -/
def loadSounds : SoundTable SoundData :=
  ((engineSoundTableInsert Chained.empty ⟨ascii "load", STATE_T, .state 0⟩).map Prod.snd).getD
    Chained.empty

/-- A notice with a word for its type. -/
def inWords (n : Notice) : Notice := Function.update n .type (some (.str NoticeType.state.word))

/-- The clients send their notices with a word for the type. -/
def wordsOnly (i : Bool) : List Notice := (loadAndMail i).map inWords

/-- The order in which the threads serve them then. -/
def wordsOnlyReads : List (Bool × Reads × Event) :=
  [(false, readsOf (inWords mailNotice)), (true, readsOf (inWords loadNotice)),
    (true, readsOf (inWords laterNotice))].map fun r => (r.1, r.2, loadNotice.heard packC)

/-- What an engine that keeps up has taken out of the queue. -/
theorem dequeued_eq_enqueued {calls : List (EngineQueueCall Event)} {r : EngineQueueRun Event}
    (halone : Along EngineQueueRun.step EngineQueueRun.Alone EngineQueueRun.start calls)
    (hqueue : exec EngineQueueRun.step EngineQueueRun.start calls = some r)
    (hlength : r.dequeued.length = r.enqueued.length) : r.dequeued = r.enqueued := by
  obtain ⟨as, hfifo⟩ : ∃ as, r.Fifo as :=
    exec_invariant (I := fun r : EngineQueueRun Event => ∃ as, r.Fifo as)
      (fun _ _ _ ⟨_, hI⟩ hC hs => hI.step hC hs) ⟨[], EngineQueueRun.fifo_start⟩ halone hqueue
  have hprefix : r.dequeued <+: r.enqueued := ⟨_, hfifo.order.symm⟩
  exact hprefix.eq_of_length hlength

/-- **The last notice about a state decides its volume**, whatever other clients send: all
connections have been read to their end, and the engine has taken each event out of its queue before
the next one was enqueued. -/
theorem vol_of_last_notice (hheader : ∀ i, (header i).length = HEADER_SIZE)
    (hnotices : ∀ i, ∀ n ∈ notices i, Sendable expat n)
    (hwhole : Along (System.step (serverServletEvents expat)) WholeReads
      (serverStart header notices) acts)
    (hrun : exec (System.step (serverServletEvents expat)) (serverStart header notices) acts
      = some t) (hclosed : ∀ i, (t.component i).closed = true)
    {calls : List (EngineQueueCall Event)} {r : EngineQueueRun Event}
    (halone : Along EngineQueueRun.step EngineQueueRun.Alone EngineQueueRun.start calls)
    (hqueue : exec EngineQueueRun.step EngineQueueRun.start calls = some r)
    (henqueued : r.enqueued = t.log.map Prod.snd)
    (hdequeued : r.dequeued.length = r.enqueued.length)
    (hmixer : processAll fuel table r.dequeued m = some m')
    {i : ι} {pre post : List Notice} (hi : notices i = pre ++ n :: post) {j : Fin K}
    (htarget : target? fuel table (n.heard xmlByte) = some (j : ℕ))
    (hpost : ∀ k ∈ post, target? fuel table (k.heard xmlByte) ≠ some (j : ℕ))
    (hothers : ∀ i' ≠ i, ∀ k ∈ notices i', target? fuel table (k.heard xmlByte) ≠ some (j : ℕ)) :
    (m'.states j).buf.vol = ((xmlByte (n .volume)).toNat : ℚ) / 255 := by
  have hown : own i t.log = heardOf pre ++ n.heard xmlByte :: heardOf post := by
    have hheard : own i t.log = heardOf (notices i) :=
      ((serves_of_exec hheader hnotices hwhole hrun i).heard (hnotices i)).2 (hclosed i)
    rw [hheard, hi, heardOf, List.map_append]
    rfl
  obtain ⟨before, after, hlog, -, hafter⟩ := exists_split_of_own hown
  have hsplit : r.dequeued = before.map Prod.snd ++ n.heard xmlByte :: after.map Prod.snd := by
    rw [dequeued_eq_enqueued halone hqueue hdequeued, henqueued, hlog, List.map_append]
    rfl
  rw [hsplit] at hmixer
  have hvol := vol_processAll hmixer htarget fun e he => ?_
  · exact hvol
  obtain ⟨⟨i', e⟩, hmem, rfl⟩ := List.mem_map.mp he
  by_cases hi' : i' = i
  · subst hi'
    have hpostMem : e ∈ heardOf post := hafter ▸ mem_own.mpr hmem
    obtain ⟨k, hk, rfl⟩ := List.mem_map.mp hpostMem
    exact hpost k hk
  · have hall : (i', e) ∈ t.log := by
      rw [hlog]
      exact List.mem_append_right _ (List.mem_cons_of_mem _ hmem)
    obtain ⟨k, hk, rfl⟩ := exists_notice_of_mem_log hheader hnotices hwhole hrun hall
    exact hothers i' hi' k hk

/-- The engine takes each event out of the queue before the next one is enqueued. -/
def keepsUp (es : List Event) : List (EngineQueueCall Event) :=
  es.flatMap fun e => [.enqueue e 1, .dequeue]

/-- The volume of the state is the last load, and the mails do not change it. -/
theorem vol_of_last_notice_loadAndMail : ∃ (r : EngineQueueRun Event) (m' : Mixer 1 1),
    exec EngineQueueRun.step EngineQueueRun.start (keepsUp [loadNotice.heard xmlByte,
      mailNotice.heard xmlByte, laterNotice.heard xmlByte]) = some r ∧
      processAll 1 loadSounds r.dequeued (mixerInit 1 1) = some m' ∧
      (m'.states 0).buf.vol = ((xmlByte (laterNotice .volume)).toNat : ℚ) / 255 := by
  obtain ⟨t, ht, hlog, hclosed⟩ := exists_run_loadAndMail
  obtain ⟨es, hes⟩ : ∃ es, es = [loadNotice.heard xmlByte, mailNotice.heard xmlByte,
    laterNotice.heard xmlByte] := ⟨_, rfl⟩
  rw [← hes]
  have hqueue : (exec EngineQueueRun.step EngineQueueRun.start (keepsUp es)).map
      (fun r => (r.enqueued, r.dequeued)) = some (es, es) := by
    rw [hes]
    decide +kernel
  have hmixer : (processAll 1 loadSounds es (mixerInit 1 1 : Mixer 1 1)).isSome = true := by
    rw [hes]
    decide +kernel
  obtain ⟨r, hr, hboth⟩ := Option.map_eq_some_iff.mp hqueue
  obtain ⟨henqueued, hdequeued⟩ := Prod.mk.inj hboth
  obtain ⟨m', hm'⟩ := Option.isSome_iff_exists.mp hmixer
  rw [← hdequeued] at hm'
  have halone : Along EngineQueueRun.step EngineQueueRun.Alone EngineQueueRun.start
      (keepsUp es) := by
    rw [hes]
    decide +kernel
  have hsent : loadAndMail true = [loadNotice] ++ laterNotice :: [] := rfl
  refine ⟨r, m', hr, hm', ?_⟩
  refine vol_of_last_notice (fun _ => rfl) sendable_loadAndMail along_wholeReads_loadAndMail ht
    hclosed halone hr ?_ ?_ hm' hsent ?_ ?_ ?_
  · rw [henqueued, hes, hlog]
    rfl
  · rw [henqueued, hdequeued]
  · decide +kernel
  · exact fun k hk => absurd hk List.not_mem_nil
  · intro i' hi' k hk
    obtain rfl : i' = false := Bool.eq_false_of_not_eq_true hi'
    obtain rfl := List.mem_singleton.mp hk
    decide +kernel

end Server

/-! ## Datagrams -/

section Datagrams

variable {identifier : Option (List UInt8)}

/-- What the UDP server enqueues for a datagram, and `msg.body` behind it. -/
def datagramEvents (expat : List UInt8 → List XmlCall) (identifier : Option (List UInt8))
    (msgBody : BodyState) (datagram : List UInt8) (memory : Event) :
    Option (List Event × BodyState) := do
  let (reaction, msgBody) ← serverRealStart identifier msgBody (received datagram)
  match reaction with
  | .enqueue events => do
    let events ← events.mapM (serverProcessClientEvent expat memory)
    some (events, msgBody)
  | _ => some ([], msgBody)

/-- The loop of `serverRealStart`: what the UDP server enqueues for each datagram that arrives. -/
def udpEvents (expat : List UInt8 → List XmlCall) (identifier : Option (List UInt8)) :
    BodyState → List (List UInt8 × Event) → Option (List (List Event))
  | _, [] => some []
  | msgBody, (datagram, memory) :: rest => do
    let (events, msgBody) ← datagramEvents expat identifier msgBody datagram memory
    let others ← udpEvents expat identifier msgBody rest
    some (events :: others)

/-- What is decoded of a datagram with an event: what fits into the buffer. -/
theorem datagramEvents_eq (n : Notice) (msgBody : BodyState) :
    datagramEvents expat identifier msgBody (sendoutPacket n false).bytes memory
      = (clientEvents expat memory PROT_CONTENT_EVENT (Int32.ofInt (getContentEvent n).length)
          ((getContentEvent n).take 496)).map fun events => (events, .null) := by
  have hbytes : received (sendoutPacket n false).bytes
      = (sendoutPacket n false).header ++ (getContentEvent n).take 496 := by
    rw [received, Packet.bytes, List.take_append]
    rfl
  have hheader : header? (received (sendoutPacket n false).bytes)
      = some (headerOf (sendoutPacket n false).header) := by
    rw [header?, Option.map_eq_some_iff]
    refine ⟨_, copy?_eq_some_iff.mpr ⟨?_, rfl⟩, ?_⟩
    · rw [hbytes, List.length_append]
      exact Nat.le_add_right _ _
    · rw [hbytes]
      rfl
  have hcontents : (received (sendoutPacket n false).bytes).drop HEADER_SIZE
      = (getContentEvent n).take 496 := by
    rw [hbytes]
    rfl
  rw [datagramEvents, serverRealStart, hheader, hcontents, headerOf_sendoutPacket]
  show Option.bind (Option.map _ (Option.map _ (serverProcessClientEventPacket PROT_CONTENT_EVENT
    (Int32.ofInt (getContentEvent n).length) ((getContentEvent n).take 496)))) _ = _
  rw [clientEvents, Option.map_map, Option.bind_map, Option.map_bind]
  refine Option.bind_congr fun events _ => ?_
  show Option.bind (events.mapM (serverProcessClientEvent expat memory)) _ = _
  rw [Function.comp_apply, Option.map_eq_bind]
  rfl

/-- **A notice to a UDP server** arrives if the name of its sound fits into the buffer; otherwise
the decoder reads beyond what was received. -/
theorem datagramEvents_sendoutPacket (hn : Plain n) (msgBody : BodyState) :
    datagramEvents expat identifier msgBody (sendoutPacket n false).bytes memory
      = if n.sound.length ≤ 480 then some ([n.heard packC], .null) else none := by
  have hlength := length_getContentEvent n
  rw [EVENT_FIXED] at hlength
  have hsize := hn.sound_length
  rw [datagramEvents_eq, clientEvents]
  by_cases h : n.sound.length ≤ 480
  · rw [if_pos h, List.take_of_length_le (by omega),
      serverProcessClientEventPacket_getContentEvent hn]
    rfl
  · have hsoundLen : soundLen ((getContentEvent n).take 496) = Int32.ofInt n.sound.length := by
      rw [soundLen, wordAt_take (by decide)]
      exact soundLen_of_getContentEvent n
    have hmalformed : Malformed ((getContentEvent n).take 496) := by
      rw [Malformed, hsoundLen, toInt_ofNat_length (by omega), List.length_take, EVENT_FIXED]
      omega
    have hnone : serverProcessClientEventPacket PROT_CONTENT_EVENT
        (Int32.ofInt (getContentEvent n).length) ((getContentEvent n).take 496) = none := by
      refine Option.eq_none_iff_forall_ne_some.mpr fun out hout => ?_
      exact (serverProcessClientEventPacket_event_eq_some_iff.mp hout).1.1 hmalformed
    rw [hnone, if_neg h]
    rfl

/-- A notice in a datagram. -/
def datagramOf (n : Notice) : List UInt8 := (sendoutPacket n false).bytes

/-- **The datagrams that arrive at a UDP server**: whichever the network has lost, doubled or put in
another order, the events of those that arrive are enqueued as they arrive, exactly if the name of
each sound has at most 480 characters. -/
theorem datagrams_iff {arrived : List (Notice × Event)} (hplain : ∀ p ∈ arrived, Plain p.1)
    (msgBody : BodyState) :
    udpEvents expat identifier msgBody (arrived.map fun p => (datagramOf p.1, p.2))
        = some (arrived.map fun p => [p.1.heard packC]) ↔
      ∀ p ∈ arrived, p.1.sound.length ≤ 480 := by
  induction arrived generalizing msgBody with
  | nil => simp [udpEvents]
  | cons p arrived ih =>
    obtain ⟨hp, hrest⟩ := List.forall_mem_cons.mp hplain
    rw [List.map_cons, udpEvents, datagramOf, datagramEvents_sendoutPacket hp, List.forall_mem_cons,
      ← ih hrest .null]
    by_cases h : p.1.sound.length ≤ 480
    · simp [h, Option.bind_eq_some_iff]
    · simp [h]

/-- The load, the mails and the load again, of which one datagram has arrived twice. The memory for
the events holds an old one. -/
theorem datagrams_iff_twice : udpEvents plainExpat none .stale
      ([loadNotice, mailNotice, loadNotice].map fun n => (datagramOf n, mailNotice.heard packC))
    = some [[loadNotice.heard packC], [mailNotice.heard packC], [loadNotice.heard packC]] := by
  have hplain : ∀ x ∈ [loadNotice, mailNotice, loadNotice].map
      fun n => (n, mailNotice.heard packC), Plain x.1 := by
    simp only [List.map_cons, List.map_nil, List.forall_mem_cons, List.not_mem_nil, false_implies,
      implies_true, and_true]
    exact ⟨plain_loadNotice, plain_mailNotice, plain_loadNotice⟩
  refine (datagrams_iff hplain .stale).mpr ?_
  simp only [List.map_cons, List.map_nil, List.forall_mem_cons, List.not_mem_nil, false_implies,
    implies_true, and_true]
  decide

end Datagrams

end Peep
