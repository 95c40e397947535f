import Mathlib.Algebra.BigOperators.Group.List.Basic
import Mathlib.Data.List.Perm.Basic
import Peep.Broadcasts
import Peep.Client.Leases
import Peep.Server.LeaseRuns

/-!
# Autodiscovery

A client and a UDP server find each other, and tell each other that they are still alive. The client
broadcasts (`hello` of `Net::Peep::BC`); the server adds it to its leases and answers with two
datagrams, a broadcast of its own and a lease (`serverAddClient`). At each alarm it sends a lease to
every client that it knows (`serverSendStillAlive`). The client answers a broadcast of a server that
is not in its table (`updateserverlist`), and greets the servers of its table with a still-alive
packet at each alarm of its own.

The client broadcasts and listens on one socket, and answers and greets from another, which
`getSocket` has connected to the server and nothing is read from. So the server has two leases for
it, and what it sends to the second one is lost.

## Choices

Datagrams arrive in any order. Others may send datagrams to both, and also in the name of the one to
the other; the broadcasts that begin a discovery are such datagrams. The socket of the client for
the server can be connected. Between the moment when `updateserverlist` finds nothing more to read
and `purgeserverlist` nothing arrives. The server is the one of `LeaseTable`, which refines the list
in memory; it has no step where the list in memory would crash, or where a datagram does.

## Main results

* `answers_bounded` — an exchange comes to its end, in whatever order datagrams arrive
* `discovers` — a server that has received a broadcast stays in the table of the client
* `discovery_crashes` — and does not survive it
-/

namespace Peep

open Bytes Delimited StepSystem Expiring

/-! ## The two of them -/

/-- A client and a server. -/
structure Site where
  /-- What the client looks at in its configuration. -/
  conf : ClientConf
  /-- The classes of the server. -/
  classes : List CString
  /-- The byte order of the host of the server. -/
  order : ByteOrder
  /-- What is reserved in the header of its answers. -/
  reserved : Fin 5 → UInt8
  /-- The address of the server. -/
  server : SockAddr
  /-- It is an address. -/
  server_ne : server ≠ []
  /-- The address of the client's host. -/
  host : UInt32
  /-- The port at which the client broadcasts and listens. -/
  bcPort : UInt16
  /-- The port of the socket that is connected to the server. -/
  port : UInt16
  /-- These are different ports. -/
  port_ne : port ≠ bcPort

/-- The state of the two, and the datagrams that have arrived. -/
structure Discovery where
  /-- The client. -/
  client : Client
  /-- What has arrived at the socket that the client listens at. -/
  inbox : List (SockAddr × List UInt8)
  /-- The leases of the server. -/
  table : LeaseTable
  /-- `msg.body` of the server. -/
  msgBody : BodyState
  /-- What has arrived at the socket of the server. -/
  requests : List (Sender × List UInt8)
  /-- When a lease was last sent to the client, by its clock; nothing reads it. -/
  lastLease : Option ℕ

/-- What happens. -/
inductive DiscoveryAct
  /-- Time passes. -/
  | tick (seconds : ℕ)
  /-- The client begins to send a notice, sends it, begins to greet, or to listen. -/
  | send | sendout | greet | listen
  /-- The client tells the next server that it is still alive. -/
  | hello
  /-- The client receives one of the datagrams that have arrived. -/
  | receive (i : ℕ)
  /-- The client has received everything, and purges its table. -/
  | purge
  /-- The server receives one of the datagrams that have arrived. -/
  | serve (i : ℕ)
  /-- The alarm of the server goes off. -/
  | alarm
  /-- A datagram arrives at the client, from elsewhere. -/
  | toClient (server : SockAddr) (datagram : List UInt8)
  /-- A datagram arrives at the server, from elsewhere. -/
  | toServer (sender : Sender) (datagram : List UInt8)
  /-- A datagram is lost on its way to the client. -/
  | loseAtClient (i : ℕ)
  /-- A datagram is lost on its way to the server. -/
  | loseAtServer (i : ℕ)

/-- `hello` is called for the sender of a datagram, in `updateserverlist`. -/
def helloReturned (conf : ClientConf) (c : Client) (server : SockAddr) (packet : List UInt8) :
    Bool :=
  decide (Received PROT_BC_SERVER server packet) &&
    (addnewserver conf.classes c.now c.servers server packet).2

variable (site : Site)

/-- The broadcast of the server, `serverRespondToClient`. -/
def Site.bcPacket : List UInt8 :=
  ((identifierOf site.classes).bind fun identifier =>
    serverRespondToClient site.order identifier site.reserved).getD []

/-- `PROT_SERVER_LEASE_MIN`. -/
def PROT_SERVER_LEASE_MIN : UInt8 := 5

/-- `PROT_SERVER_LEASE_SEC`. -/
def PROT_SERVER_LEASE_SEC : UInt8 := 0

/-- A lease of the server. -/
def Site.leasePacket : List UInt8 :=
  serverNotifyClientLease site.order PROT_SERVER_LEASE_MIN PROT_SERVER_LEASE_SEC

/-- A datagram of the client, from the socket that is connected to the server. -/
def Site.request (constant : UInt8) : Sender × List UInt8 :=
  (⟨site.host, site.port⟩, assemble_bc_packet constant site.conf.classes)

/-- The lease is that of the socket at which the client listens. -/
def Site.listensAt (l : Lease) : Bool := Lease.isAt site.host site.bcPort.toUInt32 l

/-- The client has a step. -/
def Discovery.clientStep (s : Discovery) (act : Act) : Option Discovery :=
  (Client.step site.conf s.client act).map fun c => { s with client := c }

/-- The datagrams that the server sends to a client that it adds, and that the client receives. -/
def Site.answers (sender : Sender) : List (SockAddr × List UInt8) :=
  if sender = ⟨site.host, site.bcPort⟩ then
    [(site.server, site.bcPacket), (site.server, site.leasePacket)]
  else []

/-- The datagrams that the client sends to the server if a datagram calls for an answer. -/
def Site.clientAnswers (c : Client) (server : SockAddr) (packet : List UInt8) :
    List (Sender × List UInt8) :=
  if helloReturned site.conf c server packet && server = site.server then
    [site.request PROT_BC_CLIENT]
  else []

/-- The server sends datagrams to the socket at which the client listens, the last one a lease. -/
def Discovery.sendTo (s : Discovery) (datagrams : List (SockAddr × List UInt8)) : Discovery :=
  { s with
    inbox := s.inbox ++ datagrams
    lastLease := if datagrams = [] then s.lastLease else some s.client.now }

/-- The server processes a datagram. -/
def Discovery.serve (s : Discovery) (sender : Sender) (datagram : List UInt8) : Option Discovery :=
  match serverRealStart (identifierOf site.classes) s.msgBody (received datagram) with
  | none => none
  | some (.addClient true, msgBody) => do
    let table ← s.table.step (.add sender.host sender.port.toUInt32)
    some ({ s with table := table, msgBody := msgBody }.sendTo (site.answers sender))
  | some (.updateClient, msgBody) => do
    let table ← s.table.step (.alive sender)
    some { s with table := table, msgBody := msgBody }
  | some (_, msgBody) => some { s with msgBody := msgBody }

/-- One step of the two. -/
def Discovery.step (s : Discovery) : DiscoveryAct → Option Discovery
  | .tick seconds =>
    some { s with
      client := { s.client with now := s.client.now + seconds }
      table := { s.table with now := s.table.now.later seconds } }
  | .send => s.clientStep site .send
  | .sendout => s.clientStep site .sendout
  | .greet => s.clientStep site .alarm
  | .listen => s.clientStep site .listen
  | .hello => do
    let next ← s.clientStep site .hello
    let greeting := if s.client.greeting.head? = some site.server then
      [site.request PROT_CLIENT_STILL_ALIVE] else []
    some { next with requests := s.requests ++ greeting }
  | .receive i => do
    let (server, datagram) ← s.inbox[i]?
    let next ← s.clientStep site (.receive server datagram)
    let answers := site.clientAnswers s.client server (datagram.take RECV_SIZE)
    some { next with inbox := s.inbox.eraseIdx i, requests := s.requests ++ answers }
  | .purge => if s.inbox = [] then s.clientStep site .purge else none
  | .serve i => do
    let (sender, datagram) ← s.requests[i]?
    { s with requests := s.requests.eraseIdx i }.serve site sender datagram
  | .alarm => do
    let table ← s.table.step .alarm
    let leases := (table.leases.filter site.listensAt).map fun _ => (site.server, site.leasePacket)
    some ({ s with table := table }.sendTo leases)
  | .toClient server datagram => some { s with inbox := s.inbox ++ [(server, datagram)] }
  | .toServer sender datagram => some { s with requests := s.requests ++ [(sender, datagram)] }
  | .loseAtClient i => some { s with inbox := s.inbox.eraseIdx i }
  | .loseAtServer i => some { s with requests := s.requests.eraseIdx i }

/-- Both have just been started. -/
def discoveryStart (now : ℕ) (serverNow : Timeval) : Discovery where
  client := clientStart now
  inbox := []
  table := LeaseTable.start serverNow
  msgBody := .stale
  requests := []
  lastLease := none

/-! ## What a datagram can lead to -/

/-- The weight of a datagram at the client: it may answer a broadcast. -/
def inboxWeight (d : SockAddr × List UInt8) : ℕ :=
  if Received PROT_BC_SERVER d.1 (d.2.take RECV_SIZE) then 2 else 1

/-- The weight of a datagram at the server: what it sends to the socket at which the client listens
is received. -/
def Site.requestWeight (r : Sender × List UInt8) : ℕ :=
  if r.1 = ⟨site.host, site.bcPort⟩ then 4 else 1

/-- The weight of the datagrams that have arrived. -/
def Discovery.potential (s : Discovery) : ℕ :=
  (s.inbox.map inboxWeight).sum + (s.requests.map site.requestWeight).sum

/-- A datagram is received. -/
def DiscoveryAct.received : DiscoveryAct → ℕ
  | .receive _ | .serve _ => 1
  | _ => 0

/-- What arrives from elsewhere, and is sent without being asked for. -/
def DiscoveryAct.cost : DiscoveryAct → ℕ
  | .toServer _ _ => 4
  | .toClient _ _ => 2
  | .hello | .alarm => 1
  | _ => 0

variable {site} {s s' t : Discovery} {acts : List DiscoveryAct} {act : DiscoveryAct}

/-- A lease is no broadcast. -/
theorem leasePacket_type (site : Site) :
    (site.leasePacket.take RECV_SIZE).getD 1 0 = PROT_SERVER_STILL_ALIVE := rfl

theorem inboxWeight_leasePacket (site : Site) :
    inboxWeight (site.server, site.leasePacket) = 1 := by
  refine if_neg fun h => ?_
  rw [Received, leasePacket_type] at h
  exact absurd h.2.2 (by decide)

theorem inboxWeight_le (d : SockAddr × List UInt8) : 1 ≤ inboxWeight d ∧ inboxWeight d ≤ 2 := by
  rw [inboxWeight]
  split_ifs <;> omega

theorem requestWeight_le (site : Site) (r : Sender × List UInt8) :
    1 ≤ site.requestWeight r ∧ site.requestWeight r ≤ 4 := by
  rw [Site.requestWeight]
  split_ifs <;> omega

/-- What the client sends from the other socket is not answered. -/
theorem requestWeight_request (site : Site) (constant : UInt8) :
    site.requestWeight (site.request constant) = 1 := by
  refine if_neg fun h => site.port_ne ?_
  exact (Sender.mk.inj h).2

theorem sum_map_eraseIdx {α : Type*} {l : List α} {i : ℕ} {x : α} (w : α → ℕ)
    (h : l[i]? = some x) : w x + ((l.eraseIdx i).map w).sum = (l.map w).sum := by
  obtain ⟨hi, rfl⟩ := List.getElem?_eq_some_iff.mp h
  have hperm := ((List.getElem_cons_eraseIdx_perm hi).map w).sum_eq
  rwa [List.map_cons, List.sum_cons] at hperm

theorem sum_map_eraseIdx_le {α : Type*} (l : List α) (i : ℕ) (w : α → ℕ) :
    ((l.eraseIdx i).map w).sum ≤ (l.map w).sum := by
  cases h : l[i]? with
  | none => rw [List.eraseIdx_of_length_le (List.getElem?_eq_none_iff.mp h)]
  | some x => exact Nat.le_of_add_left_le (sum_map_eraseIdx w h).le

theorem clientStep_eq {act : Act} (h : s.clientStep site act = some s') :
    ∃ c, Client.step site.conf s.client act = some c ∧ s' = { s with client := c } := by
  obtain ⟨c, hc, rfl⟩ := Option.map_eq_some_iff.mp h
  exact ⟨c, hc, rfl⟩

/-- **What the server makes of a datagram**: it may add the sender, or renew a lease. -/
theorem serve_cases {sender : Sender} {datagram : List UInt8}
    (h : s.serve site sender datagram = some s') : ∃ msgBody,
    (serverRealStart (identifierOf site.classes) s.msgBody (received datagram)
        = some (.addClient true, msgBody) ∧
      ∃ table, s.table.step (.add sender.host sender.port.toUInt32) = some table ∧
        s' = { s with table := table, msgBody := msgBody }.sendTo (site.answers sender)) ∨
    (∃ table, s.table.step (.alive sender) = some table ∧
      s' = { s with table := table, msgBody := msgBody }) ∨
    s' = { s with msgBody := msgBody } := by
  rw [Discovery.serve] at h
  split at h
  · cases h
  · next msgBody hadd =>
    obtain ⟨table, htable, h⟩ := Option.bind_eq_some_iff.mp h
    exact ⟨msgBody, .inl ⟨hadd, table, htable, (Option.some.inj h).symm⟩⟩
  · obtain ⟨table, htable, h⟩ := Option.bind_eq_some_iff.mp h
    exact ⟨_, .inr (.inl ⟨table, htable, (Option.some.inj h).symm⟩)⟩
  · exact ⟨_, .inr (.inr (Option.some.inj h).symm)⟩

/-- **What the client makes of a datagram**: it may answer it. -/
theorem receive_cases {i : ℕ} (h : s.step site (.receive i) = some s') :
    ∃ server datagram, s.inbox[i]? = some (server, datagram) ∧ s.client.phase = .receiving ∧
      s' = { s with
        client := { s.client with
          servers := updateserverlist site.conf.classes s.client.now s.client.servers server
            (datagram.take RECV_SIZE) }
        inbox := s.inbox.eraseIdx i
        requests := s.requests ++
          site.clientAnswers s.client server (datagram.take RECV_SIZE) } := by
  obtain ⟨⟨server, datagram⟩, hget, h⟩ := Option.bind_eq_some_iff.mp h
  obtain ⟨next, hnext, h⟩ := Option.bind_eq_some_iff.mp h
  obtain ⟨c, hc, rfl⟩ := clientStep_eq hnext
  rw [Client.step] at hc
  split_ifs at hc with hphase
  obtain rfl := Option.some.inj hc
  exact ⟨server, datagram, hget, hphase, (Option.some.inj h).symm⟩

/-- What the server sends back weighs less than what it has received. -/
theorem sum_answers_lt (site : Site) (sender : Sender) (datagram : List UInt8) :
    ((site.answers sender).map inboxWeight).sum < site.requestWeight (sender, datagram) := by
  have hbc := (inboxWeight_le (site.server, site.bcPacket)).2
  rw [Site.answers, Site.requestWeight]
  split_ifs with hsender
  · simp only [List.map_cons, List.map_nil, List.sum_cons, List.sum_nil,
      inboxWeight_leasePacket]
    omega
  · simp

/-- **Receiving a datagram** costs weight. -/
theorem potential_receive {i : ℕ} (h : s.step site (.receive i) = some s') :
    s'.potential site < s.potential site := by
  obtain ⟨server, datagram, hget, -, rfl⟩ := receive_cases h
  have herase := sum_map_eraseIdx inboxWeight hget
  have hweight := inboxWeight_le (server, datagram)
  simp only [Discovery.potential, List.map_append, List.sum_append, Site.clientAnswers]
  split_ifs with hanswer
  · have hbc : Received PROT_BC_SERVER server (datagram.take RECV_SIZE) := by
      simp only [helloReturned, Bool.and_eq_true, decide_eq_true_eq] at hanswer
      exact hanswer.1.1
    have htwo : inboxWeight (server, datagram) = 2 := if_pos hbc
    simp only [List.map_cons, List.map_nil, List.sum_cons, List.sum_nil, requestWeight_request]
    omega
  · simp only [List.map_nil, List.sum_nil]
    omega

/-- **So does serving one.** -/
theorem potential_serve {i : ℕ} (h : s.step site (.serve i) = some s') :
    s'.potential site < s.potential site := by
  obtain ⟨⟨sender, datagram⟩, hget, hserve⟩ := Option.bind_eq_some_iff.mp h
  have herase := sum_map_eraseIdx site.requestWeight hget
  have hanswers := sum_answers_lt site sender datagram
  have hweight := requestWeight_le site (sender, datagram)
  obtain ⟨msgBody, ⟨-, table, -, rfl⟩ | ⟨table, -, rfl⟩ | rfl⟩ := serve_cases hserve
  · simp only [Discovery.potential, Discovery.sendTo, List.map_append, List.sum_append]
    omega
  · simp only [Discovery.potential]
    omega
  · simp only [Discovery.potential]
    omega

/-- The leases stay those of different clients. -/
theorem distinct_step (h : s.table.Distinct) (hstep : s.step site act = some s') :
    s'.table.Distinct := by
  have hclient {a : Act} (hc : s.clientStep site a = some s') : s'.table.Distinct := by
    obtain ⟨c, -, rfl⟩ := clientStep_eq hc
    exact h
  cases act with
  | send | sendout | greet | listen => exact hclient hstep
  | hello =>
    obtain ⟨next, hnext, hstep⟩ := Option.bind_eq_some_iff.mp hstep
    obtain ⟨c, -, rfl⟩ := clientStep_eq hnext
    obtain rfl := Option.some.inj hstep
    exact h
  | receive i =>
    obtain ⟨server, datagram, -, -, rfl⟩ := receive_cases hstep
    exact h
  | purge =>
    rw [Discovery.step] at hstep
    split_ifs at hstep
    exact hclient hstep
  | serve i =>
    obtain ⟨⟨sender, datagram⟩, -, hserve⟩ := Option.bind_eq_some_iff.mp hstep
    obtain ⟨msgBody, ⟨-, table, htable, rfl⟩ | ⟨table, htable, rfl⟩ | rfl⟩ := serve_cases hserve
    · exact h.step htable
    · exact h.step htable
    · exact h
  | alarm =>
    obtain ⟨table, htable, hstep⟩ := Option.bind_eq_some_iff.mp hstep
    obtain rfl := Option.some.inj hstep
    exact h.step htable
  | tick seconds =>
    obtain rfl := Option.some.inj hstep
    exact h
  | toClient server datagram | toServer sender datagram | loseAtClient i | loseAtServer i =>
    obtain rfl := Option.some.inj hstep
    exact h

/-- **What a step gains, it takes from the potential.** -/
theorem potential_step (h : s.table.Distinct) (hstep : s.step site act = some s') :
    act.received + s'.potential site ≤ s.potential site + act.cost := by
  have hclient {a : Act} (hc : s.clientStep site a = some s') :
      s'.potential site = s.potential site := by
    obtain ⟨c, -, rfl⟩ := clientStep_eq hc
    rfl
  cases act with
  | send | sendout | greet | listen =>
    have heq := hclient hstep
    simp only [DiscoveryAct.received, DiscoveryAct.cost]
    omega
  | hello =>
    obtain ⟨next, hnext, hstep⟩ := Option.bind_eq_some_iff.mp hstep
    obtain ⟨c, -, rfl⟩ := clientStep_eq hnext
    obtain rfl := Option.some.inj hstep
    simp only [DiscoveryAct.received, DiscoveryAct.cost, Discovery.potential, List.map_append,
      List.sum_append]
    split_ifs
    · simp only [List.map_cons, List.map_nil, List.sum_cons, List.sum_nil, requestWeight_request]
      omega
    · simp
  | receive i => exact Nat.add_comm _ 1 ▸ potential_receive hstep
  | purge =>
    rw [Discovery.step] at hstep
    split_ifs at hstep
    have heq := hclient hstep
    simp only [DiscoveryAct.received, DiscoveryAct.cost]
    omega
  | serve i => exact Nat.add_comm _ 1 ▸ potential_serve hstep
  | alarm =>
    obtain ⟨table, htable, hstep⟩ := Option.bind_eq_some_iff.mp hstep
    obtain rfl := Option.some.inj hstep
    have hone := (h.step htable).length_filter_le site.host site.bcPort.toUInt32
    have hsum : (((table.leases.filter site.listensAt).map fun _ =>
        (site.server, site.leasePacket)).map inboxWeight).sum
          = (table.leases.filter site.listensAt).length := by
      simp [inboxWeight_leasePacket]
    simp only [DiscoveryAct.received, DiscoveryAct.cost, Discovery.potential, Discovery.sendTo,
      List.map_append, List.sum_append] at hsum ⊢
    have hsame : (table.leases.filter site.listensAt).length ≤ 1 := hone
    omega
  | tick seconds =>
    obtain rfl := Option.some.inj hstep
    simp [DiscoveryAct.received, DiscoveryAct.cost, Discovery.potential]
  | toClient server datagram =>
    obtain rfl := Option.some.inj hstep
    have hle := (inboxWeight_le (server, datagram)).2
    simp only [DiscoveryAct.received, DiscoveryAct.cost, Discovery.potential, List.map_append,
      List.sum_append, List.map_cons, List.map_nil, List.sum_cons, List.sum_nil]
    omega
  | toServer sender datagram =>
    obtain rfl := Option.some.inj hstep
    have hle := (requestWeight_le site (sender, datagram)).2
    simp only [DiscoveryAct.received, DiscoveryAct.cost, Discovery.potential, List.map_append,
      List.sum_append, List.map_cons, List.map_nil, List.sum_cons, List.sum_nil]
    omega
  | loseAtClient i =>
    obtain rfl := Option.some.inj hstep
    have hle := sum_map_eraseIdx_le s.inbox i inboxWeight
    simp only [DiscoveryAct.received, DiscoveryAct.cost, Discovery.potential]
    omega
  | loseAtServer i =>
    obtain rfl := Option.some.inj hstep
    have hle := sum_map_eraseIdx_le s.requests i site.requestWeight
    simp only [DiscoveryAct.received, DiscoveryAct.cost, Discovery.potential]
    omega

/-- **An exchange comes to its end.** In whatever order datagrams arrive and are lost, the client
and the server receive no more datagrams than four for each one that arrives at the server from
elsewhere, two for each one that arrives at the client, and one for each greeting and alarm. -/
theorem answers_bounded (site : Site) (now : ℕ) (serverNow : Timeval) {acts : List DiscoveryAct}
    {s : Discovery} (h : exec (Discovery.step site) (discoveryStart now serverNow) acts = some s) :
    (acts.map DiscoveryAct.received).sum ≤ (acts.map DiscoveryAct.cost).sum := by
  have hdistinct : (discoveryStart now serverNow).table.Distinct := List.nodup_nil
  have hrun : (acts.map DiscoveryAct.received).sum + s.potential site
      ≤ (discoveryStart now serverNow).potential site + (acts.map DiscoveryAct.cost).sum := by
    refine exec_potential (I := fun s => s.table.Distinct) ?_ hdistinct h
    exact fun _ _ _ hI hstep => ⟨distinct_step hI hstep, potential_step hI hstep⟩
  have hstart : (discoveryStart now serverNow).potential site = 0 := rfl
  omega

/-- A client and a server that have no class in common. -/
def strangers : Site where
  conf := ⟨[[97]], true⟩
  classes := [[98]]
  order := .little
  reserved := fun _ => 0
  server := [7]
  server_ne := by decide
  host := 1
  bcPort := 2000
  port := 40000
  port_ne := by decide

/-- A broadcast of the client. -/
def strangersBroadcast : DiscoveryAct :=
  .toServer ⟨1, 2000⟩ (assemble_bc_packet PROT_BC_CLIENT [[97]])

/-- One broadcast, and four datagrams are received. -/
theorem answers_bounded_broadcast : ∃ s, exec (Discovery.step strangers) (discoveryStart 0 ⟨0, 0⟩)
      [strangersBroadcast, .serve 0, .receive 0, .receive 0, .serve 0] = some s ∧
    ([strangersBroadcast, .serve 0, .receive 0, .receive 0, .serve 0].map
      DiscoveryAct.received).sum ≤ 4 := by
  obtain ⟨s, hs⟩ : ∃ s, exec (Discovery.step strangers) (discoveryStart 0 ⟨0, 0⟩)
      [strangersBroadcast, .serve 0, .receive 0, .receive 0, .serve 0] = some s :=
    Option.isSome_iff_exists.mp (by decide +kernel)
  exact ⟨s, hs, answers_bounded strangers 0 ⟨0, 0⟩ hs⟩

/-! ## Who knows whom -/

/-- A datagram is a lease in the name of the server. -/
def Site.IsLease (site : Site) (d : SockAddr × List UInt8) : Prop :=
  d.1 = site.server ∧ Received PROT_SERVER_STILL_ALIVE d.1 (d.2.take RECV_SIZE)

/-- When the client purges its table, a lease was sent to it in the last five minutes; no lease is
lost on its way to the client, and nobody else sends leases in the name of the server. -/
def Timely (site : Site) (s : Discovery) : DiscoveryAct → Prop
  | .purge => ∀ sent ∈ s.lastLease, s.client.now < sent + 300
  | .toClient server datagram => ¬ site.IsLease (server, datagram)
  | .loseAtClient i => ∀ d ∈ s.inbox[i]?, ¬ site.IsLease d
  | _ => True

instance (site : Site) (d : SockAddr × List UInt8) : Decidable (site.IsLease d) :=
  inferInstanceAs (Decidable (_ ∧ _))

instance decidableTimely (site : Site) (s : Discovery) :
    (act : DiscoveryAct) → Decidable (Timely site s act)
  | .purge => inferInstanceAs (Decidable (∀ sent ∈ s.lastLease, _))
  | .toClient _ _ => inferInstanceAs (Decidable (¬ _))
  | .loseAtClient i => inferInstanceAs (Decidable (∀ d ∈ s.inbox[i]?, _))
  | .tick _ | .send | .sendout | .greet | .listen | .hello | .receive _ | .serve _ | .alarm
  | .toServer _ _ | .loseAtServer _ => .isTrue trivial

/-- What was last sent to the client has arrived, or the server has a lease from then on. -/
structure Discovery.Awaited (site : Site) (s : Discovery) : Prop where
  /-- It was not sent later than now. -/
  sent_le : ∀ sent ∈ s.lastLease, sent ≤ s.client.now
  /-- The leases that have arrived are those of the server. -/
  leases : ∀ d ∈ s.inbox, site.IsLease d → d.2 = site.leasePacket
  /-- One of them has arrived, or the server has one. -/
  awaited : ∀ sent ∈ s.lastLease, (site.server, site.leasePacket) ∈ s.inbox ∨
    ∃ expires ∈ s.client.servers.lookup site.server, sent + 300 ≤ expires

theorem isLease_leasePacket (site : Site) : site.IsLease (site.server, site.leasePacket) := by
  have hmagic (order : ByteOrder) : (wordAt ((serverNotifyClientLease order PROT_SERVER_LEASE_MIN
      PROT_SERVER_LEASE_SEC).take RECV_SIZE) 8).toUInt32 = PROT_MAGIC_NUMBER := by
    cases order <;> decide
  exact ⟨rfl, site.server_ne, hmagic site.order, leasePacket_type site⟩

/-- A lease of the server is one of five minutes. -/
theorem leaseSeconds_leasePacket (site : Site) :
    leaseSeconds (site.leasePacket.take RECV_SIZE) = 300 := by
  rw [leaseSeconds, Site.leasePacket, leaseOf_serverNotifyClientLease]
  rfl

/-- The broadcast of the server is no lease. -/
theorem not_isLease_bcPacket (site : Site) : ¬ site.IsLease (site.server, site.bcPacket) := by
  have htype : (site.bcPacket.take RECV_SIZE).getD 1 0 = PROT_BC_SERVER := by
    rw [Site.bcPacket, identifierOf_eq, Option.bind_some, serverRespondToClient_eq]
    rfl
  rintro ⟨-, -, -, hlease⟩
  rw [htype] at hlease
  exact absurd hlease (by decide)

/-- **A lease that the client has of the server** is changed by leases of the server only. -/
theorem lookup_updateserverlist {servers : Servers} {classes : List CString} {now : ℕ}
    {server a : SockAddr} {packet : List UInt8} {expires : ℕ} (h : expires ∈ servers.lookup a)
    (hlease : a = server → ¬ Received PROT_SERVER_STILL_ALIVE server packet) :
    expires ∈ (updateserverlist classes now servers server packet).lookup a := by
  have hmem : a ∈ servers := mem_servers_iff.mpr ⟨expires, h⟩
  rw [updateserverlist]
  split_ifs with hdefined hmagic hserver halive
  · exact h
  · exact h
  · rw [addnewserver_fst]
    split_ifs with hadd
    · have hne : a ≠ server := fun heq => hadd.1 (heq ▸ hmem)
      rwa [addserver, AList.lookup_insert_ne hne]
    · exact h
  · have hne : a ≠ server := fun heq => hlease heq ⟨hdefined, not_not.mp hmagic, halive⟩
    rwa [updateserver, AList.lookup_insert_ne hne]
  · exact h

/-- A lease of the server begins when it is received. -/
theorem lookup_updateserverlist_lease (classes : List CString) (now : ℕ) (servers : Servers)
    {server : SockAddr} {packet : List UInt8}
    (h : Received PROT_SERVER_STILL_ALIVE server packet) :
    now + leaseSeconds packet ∈
      (updateserverlist classes now servers server packet).lookup server := by
  obtain ⟨hserver, hmagic, htype⟩ := h
  have hbc : ¬ packet.getD 1 0 = PROT_BC_SERVER := by
    rw [htype]
    decide
  rw [updateserverlist, if_neg hserver, if_neg (not_not.mpr hmagic), if_neg hbc, if_pos htype,
    updateserver]
  exact AList.lookup_insert _

theorem mem_eraseIdx_of_ne {α : Type*} {l : List α} {i : ℕ} {x y : α} (hx : x ∈ l)
    (hget : l[i]? = some y) (hne : x ≠ y) : x ∈ l.eraseIdx i := by
  obtain ⟨j, hj⟩ := List.mem_iff_getElem?.mp hx
  refine List.mem_eraseIdx_iff_getElem?.mpr ⟨j, fun heq => hne ?_, hj⟩
  rw [heq, hget] at hj
  exact (Option.some.inj hj).symm

/-- **Receiving a datagram.** -/
theorem Discovery.Awaited.receive {i : ℕ} (h : s.Awaited site)
    (hstep : s.step site (.receive i) = some s') : s'.Awaited site := by
  obtain ⟨server, datagram, hget, -, rfl⟩ := receive_cases hstep
  refine ⟨h.sent_le, fun d hd => h.leases d (List.mem_of_mem_eraseIdx hd), fun sent hsent => ?_⟩
  by_cases hlease : site.IsLease (server, datagram)
  · have hpacket : datagram = site.leasePacket :=
      h.leases _ (List.mem_of_getElem? hget) hlease
    obtain ⟨hserver, hreceived⟩ := hlease
    have hbegins :=
      lookup_updateserverlist_lease site.conf.classes s.client.now s.client.servers hreceived
    rw [hpacket, leaseSeconds_leasePacket, ← hpacket] at hbegins
    refine .inr ⟨s.client.now + 300, ?_, Nat.add_le_add_right (h.sent_le sent hsent) 300⟩
    rw [← hserver]
    exact hbegins
  · obtain hpending | ⟨expires, hexpires, hle⟩ := h.awaited sent hsent
    · refine .inl (mem_eraseIdx_of_ne hpending hget ?_)
      rintro heq
      exact hlease (heq ▸ isLease_leasePacket site)
    · refine .inr ⟨expires, lookup_updateserverlist hexpires ?_, hle⟩
      exact fun heq hreceived => hlease ⟨heq.symm, hreceived⟩

/-- **Sending a lease.** -/
theorem Discovery.Awaited.sendTo (h : s.Awaited site) {datagrams : List (SockAddr × List UInt8)}
    (hleases : ∀ d ∈ datagrams, site.IsLease d → d.2 = site.leasePacket)
    (hlease : datagrams ≠ [] → (site.server, site.leasePacket) ∈ datagrams) :
    (s.sendTo datagrams).Awaited site := by
  refine ⟨?_, fun d hd => ?_, ?_⟩
  · intro sent hsent
    rw [Discovery.sendTo] at hsent
    dsimp only at hsent
    split_ifs at hsent
    · exact h.sent_le sent hsent
    · exact (Option.mem_some.mp hsent).ge
  · obtain hd | hd := List.mem_append.mp hd
    · exact h.leases d hd
    · exact hleases d hd
  · intro sent hsent
    rw [Discovery.sendTo] at hsent ⊢
    dsimp only at hsent ⊢
    split_ifs at hsent with hnil
    · rw [hnil, List.append_nil]
      exact h.awaited sent hsent
    · exact .inl (List.mem_append_right _ (hlease hnil))

/-- Only what the client receives, the purge and the time change what `Awaited` is about. -/
theorem clientStep_same {a : Act} (h : s.clientStep site a = some s')
    (hreceive : ∀ server datagram, a ≠ .receive server datagram) (hpurge : a ≠ .purge)
    (htick : ∀ seconds, a ≠ .tick seconds) :
    s'.client.servers = s.client.servers ∧ s'.client.now = s.client.now ∧
      s'.inbox = s.inbox ∧ s'.lastLease = s.lastLease := by
  obtain ⟨c, hc, rfl⟩ := clientStep_eq h
  refine ⟨servers_step hc hreceive hpurge, ?_, rfl, rfl⟩
  cases a with
  | tick seconds => exact absurd rfl (htick seconds)
  | _ =>
    rw [Client.step] at hc
    split_ifs at hc
    all_goals
      obtain rfl := Option.some.inj hc
      rfl

theorem Discovery.Awaited.congr (h : s.Awaited site)
    (hsame : s'.client.servers = s.client.servers ∧ s'.client.now = s.client.now ∧
      s'.inbox = s.inbox ∧ s'.lastLease = s.lastLease) : s'.Awaited site := by
  obtain ⟨hservers, hnow, hinbox, hlast⟩ := hsame
  exact ⟨by rw [hlast, hnow]; exact h.sent_le, by rw [hinbox]; exact h.leases,
    by rw [hlast, hinbox, hservers]; exact h.awaited⟩

/-- **The purge** leaves the server in the table, if a lease was sent in time. -/
theorem Discovery.Awaited.purge (h : s.Awaited site) (hinbox : s.inbox = [])
    (htimely : Timely site s .purge) (hstep : s.clientStep site .purge = some s') :
    s'.Awaited site := by
  obtain ⟨c, hc, rfl⟩ := clientStep_eq hstep
  rw [Client.step] at hc
  split_ifs at hc
  obtain rfl := Option.some.inj hc
  refine ⟨h.sent_le, h.leases, fun sent hsent => ?_⟩
  obtain hpending | ⟨expires, hexpires, hle⟩ := h.awaited sent hsent
  · rw [hinbox] at hpending
    cases hpending
  · have hnow : s.client.now < expires := (htimely sent hsent).trans_le hle
    exact .inr ⟨expires, mem_lookup_purgeserverlist.mpr ⟨hexpires, hnow⟩, hle⟩

/-- **The invariant.** -/
theorem Discovery.Awaited.step (h : s.Awaited site) (htimely : Timely site s act)
    (hstep : s.step site act = some s') : s'.Awaited site := by
  cases act with
  | send | sendout | greet | listen =>
    exact h.congr (clientStep_same hstep (by simp) (by simp) (by simp))
  | hello =>
    obtain ⟨next, hnext, hstep⟩ := Option.bind_eq_some_iff.mp hstep
    have hsame := clientStep_same hnext (by simp) (by simp) (by simp)
    obtain rfl := Option.some.inj hstep
    exact h.congr hsame
  | receive i => exact h.receive hstep
  | purge =>
    rw [Discovery.step] at hstep
    split_ifs at hstep with hinbox
    exact h.purge hinbox htimely hstep
  | serve i =>
    obtain ⟨⟨sender, datagram⟩, -, hserve⟩ := Option.bind_eq_some_iff.mp hstep
    have hrest : Discovery.Awaited site { s with requests := s.requests.eraseIdx i } :=
      h.congr ⟨rfl, rfl, rfl, rfl⟩
    obtain ⟨msgBody, ⟨-, table, -, rfl⟩ | ⟨table, -, rfl⟩ | rfl⟩ := serve_cases hserve
    · have htable : Discovery.Awaited site
          { s with requests := s.requests.eraseIdx i, table := table, msgBody := msgBody } :=
        hrest.congr ⟨rfl, rfl, rfl, rfl⟩
      refine htable.sendTo ?_ ?_
      · intro d hd hlease
        rw [Site.answers] at hd
        split_ifs at hd
        · obtain rfl | hd := List.mem_cons.mp hd
          · exact absurd hlease (not_isLease_bcPacket site)
          · rw [List.mem_singleton.mp hd]
        · cases hd
      · rw [Site.answers]
        split_ifs
        · simp
        · exact absurd rfl
    · exact hrest.congr ⟨rfl, rfl, rfl, rfl⟩
    · exact hrest.congr ⟨rfl, rfl, rfl, rfl⟩
  | alarm =>
    obtain ⟨table, -, hstep⟩ := Option.bind_eq_some_iff.mp hstep
    obtain rfl := Option.some.inj hstep
    have htable : Discovery.Awaited site { s with table := table } :=
      h.congr ⟨rfl, rfl, rfl, rfl⟩
    refine htable.sendTo ?_ ?_
    · intro d hd _
      obtain ⟨l, -, rfl⟩ := List.mem_map.mp hd
      rfl
    · intro hne
      obtain ⟨d, hd⟩ := List.exists_mem_of_ne_nil _ hne
      obtain ⟨l, hl, rfl⟩ := List.mem_map.mp hd
      exact List.mem_map.mpr ⟨l, hl, rfl⟩
  | tick seconds =>
    obtain rfl := Option.some.inj hstep
    exact ⟨fun sent hsent => (h.sent_le sent hsent).trans (Nat.le_add_right _ _), h.leases,
      h.awaited⟩
  | toClient server datagram =>
    obtain rfl := Option.some.inj hstep
    refine ⟨h.sent_le, fun d hd hlease => ?_, fun sent hsent => ?_⟩
    · obtain hd | hd := List.mem_append.mp hd
      · exact h.leases d hd hlease
      · rw [List.mem_singleton.mp hd] at hlease
        exact absurd hlease htimely
    · exact (h.awaited sent hsent).imp_left (List.mem_append_left _)
  | toServer sender datagram =>
    obtain rfl := Option.some.inj hstep
    exact h.congr ⟨rfl, rfl, rfl, rfl⟩
  | loseAtClient i =>
    obtain rfl := Option.some.inj hstep
    refine ⟨h.sent_le, fun d hd => h.leases d (List.mem_of_mem_eraseIdx hd), fun sent hsent => ?_⟩
    refine (h.awaited sent hsent).imp_left fun hpending => ?_
    cases hget : s.inbox[i]? with
    | none => rwa [List.eraseIdx_of_length_le (List.getElem?_eq_none_iff.mp hget)]
    | some d =>
      refine mem_eraseIdx_of_ne hpending hget ?_
      rintro rfl
      exact htimely _ hget (isLease_leasePacket site)
  | loseAtServer i =>
    obtain rfl := Option.some.inj hstep
    exact h.congr ⟨rfl, rfl, rfl, rfl⟩

/-- **What the server makes of a broadcast of the client.** -/
theorem serverRealStart_broadcast (hclient : ∀ name ∈ site.conf.classes, IsClassName name)
    (hshort : (joined PROT_CLASSDELIM site.conf.classes).length ≤ ID_SIZE) (msgBody : BodyState) :
    serverRealStart (identifierOf site.classes) msgBody
        (received (assemble_bc_packet PROT_BC_CLIENT site.conf.classes))
      = some (.addClient (decide (site.conf.classes ≠ [] ∧ site.classes ≠ [])), .stale) := by
  have hmagic : (headerOf ((assemble_bc_packet PROT_BC_CLIENT site.conf.classes).take
      HEADER_SIZE)).magic.toUInt32 = PROT_MAGIC_NUMBER := by
    have hword := wordAt_wordBytes [PROT_VERSION, PROT_BC_CLIENT, PROT_CONTENT_MSG, 0, 0, 0, 0, 0]
      (wordBytes (UInt32.ofNat (joined PROT_CLASSDELIM site.conf.classes).length) ++
        packA ID_SIZE (joined PROT_CLASSDELIM site.conf.classes)) PROT_MAGIC_NUMBER
    rw [← List.append_assoc] at hword
    exact (congrArg Int32.toUInt32 hword).trans (UInt32.toUInt32_toInt32 _)
  have htype : (headerOf ((assemble_bc_packet PROT_BC_CLIENT site.conf.classes).take
      HEADER_SIZE)).type = PROT_BC_CLIENT := rfl
  have hserver : ¬ PROT_BC_CLIENT = PROT_BC_SERVER := by decide
  have hlength : (headerOf ((assemble_bc_packet PROT_BC_CLIENT site.conf.classes).take
      HEADER_SIZE)).len.toInt = (idString site.conf.classes []).length := by
    rw [idString, List.append_nil]
    exact toInt_len_assemble_bc_packet PROT_BC_CLIENT hshort
  have hdecoded : processIDString (identifierOf site.classes)
      ((idString site.conf.classes []).map some ++ [none]) (headerOf
        ((assemble_bc_packet PROT_BC_CLIENT site.conf.classes).take HEADER_SIZE)).len
      = some (decide (site.conf.classes ≠ [] ∧ site.classes ≠ [])) :=
    processIDString_joined hclient (by simp) hlength
  rw [idString, List.append_nil] at hdecoded
  rw [serverRealStart, header?_assemble_bc_packet, Option.bind_eq_bind, Option.bind_some]
  have hevent : ¬ PROT_BC_CLIENT = PROT_CLIENT_EVENT := by decide
  simp only [hmagic, processPacket, BodyState.after, htype, hserver, hevent, ne_eq,
    not_true_eq_false, if_false, if_true, bodyBuffer_assemble_bc_packet PROT_BC_CLIENT hshort,
    Option.bind_eq_bind, Option.bind_some, serverProcessBC, hdecoded, Option.map_some]

/-- Once a lease has been sent to the client, one has been sent. -/
theorem lastLease_step (h : s.lastLease ≠ none) (hstep : s.step site act = some s') :
    s'.lastLease ≠ none := by
  have hsendTo (table : LeaseTable) (datagrams : List (SockAddr × List UInt8))
      (requests : List (Sender × List UInt8)) (msgBody : BodyState) :
      (Discovery.sendTo { s with
        table := table, requests := requests, msgBody := msgBody } datagrams).lastLease
        ≠ none := by
    rw [Discovery.sendTo]
    dsimp only
    split_ifs
    · exact h
    · simp
  have hclient {a : Act} (hc : s.clientStep site a = some s') : s'.lastLease ≠ none := by
    obtain ⟨c, -, rfl⟩ := clientStep_eq hc
    exact h
  cases act with
  | send | sendout | greet | listen => exact hclient hstep
  | hello =>
    obtain ⟨next, hnext, hstep⟩ := Option.bind_eq_some_iff.mp hstep
    obtain ⟨c, -, rfl⟩ := clientStep_eq hnext
    obtain rfl := Option.some.inj hstep
    exact h
  | receive i =>
    obtain ⟨server, datagram, -, -, rfl⟩ := receive_cases hstep
    exact h
  | purge =>
    rw [Discovery.step] at hstep
    split_ifs at hstep
    exact hclient hstep
  | serve i =>
    obtain ⟨⟨sender, datagram⟩, -, hserve⟩ := Option.bind_eq_some_iff.mp hstep
    obtain ⟨msgBody, ⟨-, table, -, rfl⟩ | ⟨table, -, rfl⟩ | rfl⟩ := serve_cases hserve
    · exact hsendTo table _ _ _
    · exact h
    · exact h
  | alarm =>
    obtain ⟨table, -, hstep⟩ := Option.bind_eq_some_iff.mp hstep
    obtain rfl := Option.some.inj hstep
    exact hsendTo table _ _ _
  | tick | toClient | toServer | loseAtClient | loseAtServer =>
    obtain rfl := Option.some.inj hstep
    exact h

/-- **The server stays in the table of the client** once it has received a broadcast of it, if both
have a class and the names of the client's classes fit into the broadcast: as long as leases arrive
in time, the server has a lease of five minutes from the last time on at which it sent one, whenever
the client has received what has arrived. -/
theorem discovers (now : ℕ) (serverNow : Timeval) {before after : List DiscoveryAct} {i : ℕ}
    {s₀ s : Discovery} (hclient : ∀ name ∈ site.conf.classes, IsClassName name)
    (hshort : (joined PROT_CLASSDELIM site.conf.classes).length ≤ ID_SIZE)
    (hclasses : site.conf.classes ≠ [] ∧ site.classes ≠ [])
    (hbefore : exec (Discovery.step site) (discoveryStart now serverNow) before = some s₀)
    (hrequest : s₀.requests[i]? = some (⟨site.host, site.bcPort⟩,
      assemble_bc_packet PROT_BC_CLIENT site.conf.classes))
    (hrun : exec (Discovery.step site) (discoveryStart now serverNow)
      (before ++ DiscoveryAct.serve i :: after) = some s)
    (htimely : Along (Discovery.step site) (Timely site) (discoveryStart now serverNow)
      (before ++ DiscoveryAct.serve i :: after))
    (hinbox : s.inbox = []) :
    ∃ sent ∈ s.lastLease, ∃ expires ∈ s.client.servers.lookup site.server,
      sent + 300 ≤ expires := by
  have hstart : (discoveryStart now serverNow).Awaited site := ⟨nofun, nofun, nofun⟩
  have hawaited : s.Awaited site :=
    exec_invariant (fun _ _ _ h hC hstep => h.step hC hstep) hstart htimely hrun
  obtain ⟨s₁, hs₁, hrun⟩ := exec_append_eq_some.mp hrun
  obtain rfl := Option.some.inj (hbefore.symm.trans hs₁)
  obtain ⟨s₂, hserve, hrun⟩ := exec_cons_eq_some.mp hrun
  have hserved : s₂.lastLease ≠ none := by
    rw [Discovery.step, hrequest, Option.bind_eq_bind, Option.bind_some] at hserve
    simp only [Discovery.serve, serverRealStart_broadcast hclient hshort, hclasses, ne_eq,
      not_false_eq_true, and_self, decide_true] at hserve
    obtain ⟨table, -, hserve⟩ := Option.bind_eq_some_iff.mp hserve
    obtain rfl := Option.some.inj hserve
    simp [Discovery.sendTo, Site.answers]
  have hlast : s.lastLease ≠ none :=
    exec_invariant (C := fun _ _ => True) (fun _ _ _ h _ hstep => lastLease_step h hstep) hserved
      (along_trivial s₂ after) hrun
  obtain ⟨sent, hsent⟩ := Option.ne_none_iff_exists'.mp hlast
  obtain hpending | hknown := hawaited.awaited sent hsent
  · rw [hinbox] at hpending
    cases hpending
  · exact ⟨sent, hsent, hknown⟩

theorem isClassName_strangers : ∀ name ∈ strangers.conf.classes, IsClassName name := by
  intro name hname
  rw [List.mem_singleton.mp hname]
  exact ⟨by decide, by decide, by decide, List.forall_mem_singleton.mpr rfl⟩

/-- They know each other, and do after the next alarm. -/
theorem discovers_strangers : ∃ s, exec (Discovery.step strangers) (discoveryStart 0 ⟨0, 0⟩)
      ([strangersBroadcast] ++ DiscoveryAct.serve 0 :: [.receive 0, .receive 0, .purge, .tick 270,
        .alarm, .greet, .hello, .listen, .receive 0, .tick 60, .purge]) = some s ∧
    ∃ sent ∈ s.lastLease, ∃ expires ∈ s.client.servers.lookup strangers.server,
      sent + 300 ≤ expires := by
  have hrun : (exec (Discovery.step strangers) (discoveryStart 0 ⟨0, 0⟩)
      ([strangersBroadcast] ++ DiscoveryAct.serve 0 :: [.receive 0, .receive 0, .purge, .tick 270,
        .alarm, .greet, .hello, .listen, .receive 0, .tick 60, .purge])).map Discovery.inbox
          = some [] := by decide +kernel
  obtain ⟨s, hs, hinbox⟩ := Option.map_eq_some_iff.mp hrun
  exact ⟨s, hs, discovers 0 ⟨0, 0⟩ isClassName_strangers (by decide) (by decide) rfl rfl hs
    (by decide +kernel) hinbox⟩

/-! ## The other socket -/

/-- The exchange that a broadcast of the client begins: the server answers, the client answers the
broadcast of the server, and the server adds it once more. -/
def Site.exchange (site : Site) : List DiscoveryAct :=
  [.toServer ⟨site.host, site.bcPort⟩ (assemble_bc_packet PROT_BC_CLIENT site.conf.classes),
    .serve 0, .receive 0, .serve 0]

/-- The server adds the sender of a datagram. -/
def Site.adds (site : Site) (msgBody : BodyState) (datagram : List UInt8) : Bool :=
  match serverRealStart (identifierOf site.classes) msgBody (received datagram) with
  | some (.addClient true, _) => true
  | _ => false

/-- From its other socket, the client greets only, and its first lease has not expired when the
alarm comes. -/
def GreetsOnly (site : Site) (s : Discovery) : DiscoveryAct → Prop
  | .serve i => ∀ d ∈ s.requests[i]?, d.1 = ⟨site.host, site.port⟩ →
      site.adds s.msgBody d.2 = false
  | .alarm => FirstAlive site.host s.table .alarm
  | _ => True

instance decidableGreetsOnly (site : Site) (s : Discovery) :
    (act : DiscoveryAct) → Decidable (GreetsOnly site s act)
  | .serve i => inferInstanceAs (Decidable (∀ d ∈ s.requests[i]?, _ → _))
  | .alarm => decidableFirstAlive site.host s.table .alarm
  | .tick _ | .send | .sendout | .greet | .listen | .hello | .receive _ | .purge
  | .toClient _ _ | .toServer _ _ | .loseAtClient _ | .loseAtServer _ => .isTrue trivial

/-- The broadcast of the server is received. -/
theorem received_bcPacket (site : Site) :
    Received PROT_BC_SERVER site.server (site.bcPacket.take RECV_SIZE) := by
  have hpacket : site.bcPacket
      = ([PROT_VERSION, PROT_BC_SERVER, PROT_CONTENT_MSG] ++ List.ofFn site.reserved) ++
        (wordBytes PROT_MAGIC_NUMBER ++
          (intBytes site.order (outgoingHeader site.order (joined PROT_CLASSDELIM site.classes)
            site.reserved).len ++ (joined PROT_CLASSDELIM site.classes ++ [0]))) := by
    rw [Site.bcPacket, identifierOf_eq, Option.bind_some, serverRespondToClient_eq,
      Option.getD_some, HostHeader.bytes, ← intBytes_htonl site.order PROT_MAGIC_NUMBER]
    simp [outgoingHeader]
  have hlength : ([PROT_VERSION, PROT_BC_SERVER, PROT_CONTENT_MSG] ++
      List.ofFn site.reserved).length = 8 := by simp
  have hmagic := wordAt_wordBytes ([PROT_VERSION, PROT_BC_SERVER, PROT_CONTENT_MSG] ++
    List.ofFn site.reserved) (intBytes site.order (outgoingHeader site.order
      (joined PROT_CLASSDELIM site.classes) site.reserved).len ++
        (joined PROT_CLASSDELIM site.classes ++ [0])) PROT_MAGIC_NUMBER
  rw [← hpacket, hlength] at hmagic
  refine ⟨site.server_ne, ?_, by rw [hpacket]; rfl⟩
  rw [wordAt_take (by decide), hmagic, UInt32.toUInt32_toInt32]

/-- A broadcast of the client adds its sender. -/
theorem serve_broadcast (hclient : ∀ name ∈ site.conf.classes, IsClassName name)
    (hshort : (joined PROT_CLASSDELIM site.conf.classes).length ≤ ID_SIZE)
    (hclasses : site.conf.classes ≠ [] ∧ site.classes ≠ []) (s : Discovery) (sender : Sender) :
    s.serve site sender (assemble_bc_packet PROT_BC_CLIENT site.conf.classes)
      = (s.table.step (.add sender.host sender.port.toUInt32)).map fun table =>
        { s with table := table, msgBody := .stale }.sendTo (site.answers sender) := by
  simp only [Discovery.serve, serverRealStart_broadcast hclient hshort, hclasses, ne_eq,
    not_false_eq_true, and_self, decide_true, Option.map_eq_bind]
  rfl

/-- **What the exchange leads to**: the server knows the client twice. -/
theorem exec_exchange {s : Discovery} (hclient : ∀ name ∈ site.conf.classes, IsClassName name)
    (hshort : (joined PROT_CLASSDELIM site.conf.classes).length ≤ ID_SIZE)
    (hclasses : site.conf.classes ≠ [] ∧ site.classes ≠ [])
    (hinbox : s.inbox = []) (hrequests : s.requests = []) (hphase : s.client.phase = .receiving)
    (hunknown : site.server ∉ s.client.servers) (hnew : ∀ l ∈ s.table.leases, l.host ≠ site.host) :
    ∃ t, exec (Discovery.step site) s site.exchange = some t ∧ t.table.now = s.table.now ∧
      t.table.leases = s.table.leases ++ [⟨site.host, site.bcPort.toUInt32, leaseEnd s.table.now⟩,
        ⟨site.host, site.port.toUInt32, leaseEnd s.table.now⟩] := by
  obtain ⟨client, inbox, table, msgBody, requests, lastLease⟩ := s
  dsimp only at hinbox hrequests hphase hunknown hnew ⊢
  subst hinbox hrequests
  have hfirst := table.step_add site.host site.bcPort.toUInt32 fun l hl heq =>
    absurd heq (hnew l hl)
  have hsecond := LeaseTable.step_add ⟨table.leases ++ [⟨site.host, site.bcPort.toUInt32,
      leaseEnd table.now⟩], table.now⟩ site.host site.port.toUInt32 <| by
    intro l hl heq
    obtain hl | hl := List.mem_append.mp hl
    · exact absurd heq (hnew l hl)
    · rw [List.mem_singleton.mp hl]
      exact fun hports => site.port_ne (UInt16.toUInt32_inj.mp hports).symm
  have hhello : helloReturned site.conf client site.server (site.bcPacket.take RECV_SIZE)
      = true := by
    rw [helloReturned, Bool.and_eq_true, decide_eq_true_iff, addnewserver, if_neg hunknown]
    exact ⟨received_bcPacket site, rfl⟩
  have hanswers : site.answers ⟨site.host, site.bcPort⟩
      = [(site.server, site.bcPacket), (site.server, site.leasePacket)] := if_pos rfl
  -- the server answers
  have hserve : Discovery.step site ⟨client, [], table, msgBody, [(⟨site.host, site.bcPort⟩,
        assemble_bc_packet PROT_BC_CLIENT site.conf.classes)], lastLease⟩ (.serve 0)
      = some ⟨client, [(site.server, site.bcPacket), (site.server, site.leasePacket)],
        ⟨table.leases ++ [⟨site.host, site.bcPort.toUInt32, leaseEnd table.now⟩], table.now⟩,
        .stale, [], some client.now⟩ := by
    show Discovery.serve site ⟨client, [], table, msgBody, [], lastLease⟩
      ⟨site.host, site.bcPort⟩ _ = _
    rw [serve_broadcast hclient hshort hclasses, hfirst, hanswers]
    rfl
  -- the client answers from its other socket
  obtain ⟨c, hreceive⟩ : ∃ c, Discovery.step site ⟨client, [(site.server, site.bcPacket),
        (site.server, site.leasePacket)], ⟨table.leases ++ [⟨site.host, site.bcPort.toUInt32,
          leaseEnd table.now⟩], table.now⟩, .stale, [], some client.now⟩ (.receive 0)
      = some ⟨c, [(site.server, site.leasePacket)], ⟨table.leases ++ [⟨site.host,
          site.bcPort.toUInt32, leaseEnd table.now⟩], table.now⟩, .stale,
        [site.request PROT_BC_CLIENT], some client.now⟩ := by
    simp only [Discovery.step, List.getElem?_cons_zero, Option.bind_eq_bind, Option.bind_some,
      Discovery.clientStep, Client.step, hphase, if_true, Option.map_some, Site.clientAnswers,
      hhello, decide_true, Bool.and_true]
    exact ⟨_, rfl⟩
  -- and is added once more
  have hagain : Discovery.step site ⟨c, [(site.server, site.leasePacket)], ⟨table.leases ++
        [⟨site.host, site.bcPort.toUInt32, leaseEnd table.now⟩], table.now⟩, .stale,
        [site.request PROT_BC_CLIENT], some client.now⟩ (.serve 0)
      = some ⟨c, [(site.server, site.leasePacket)], ⟨table.leases ++ [⟨site.host,
          site.bcPort.toUInt32, leaseEnd table.now⟩] ++ [⟨site.host, site.port.toUInt32,
          leaseEnd table.now⟩], table.now⟩, .stale, [], some client.now⟩ := by
    have hnone : site.answers ⟨site.host, site.port⟩ = [] :=
      if_neg fun heq => site.port_ne (Sender.mk.inj heq).2
    show Discovery.serve site ⟨c, _, _, .stale, [], some client.now⟩
      ⟨site.host, site.port⟩ _ = _
    rw [serve_broadcast hclient hshort hclasses, hsecond, hnone]
    rfl
  refine ⟨_, exec_cons_eq_some.mpr ⟨_, rfl, exec_cons_eq_some.mpr ⟨_, hserve,
    exec_cons_eq_some.mpr ⟨_, hreceive, exec_cons_eq_some.mpr ⟨_, hagain, rfl⟩⟩⟩⟩, rfl, ?_⟩
  rw [List.append_assoc]
  rfl

/-- **What the server and the client do** to the leases, if the other socket only greets. -/
theorem beside_step {expires : ℤ} (h : Beside site.host site.port.toUInt32 expires s.table)
    (honly : GreetsOnly site s act) (hstep : s.step site act = some s') :
    Beside site.host site.port.toUInt32 expires s'.table := by
  have hclient {a : Act} (hc : s.clientStep site a = some s') :
      Beside site.host site.port.toUInt32 expires s'.table := by
    obtain ⟨c, -, rfl⟩ := clientStep_eq hc
    exact h
  cases act with
  | send | sendout | greet | listen => exact hclient hstep
  | hello =>
    obtain ⟨next, hnext, hstep⟩ := Option.bind_eq_some_iff.mp hstep
    obtain ⟨c, -, rfl⟩ := clientStep_eq hnext
    obtain rfl := Option.some.inj hstep
    exact h
  | receive i =>
    obtain ⟨server, datagram, -, -, rfl⟩ := receive_cases hstep
    exact h
  | purge =>
    rw [Discovery.step] at hstep
    split_ifs at hstep
    exact hclient hstep
  | serve i =>
    obtain ⟨⟨sender, datagram⟩, hget, hserve⟩ := Option.bind_eq_some_iff.mp hstep
    obtain ⟨msgBody, ⟨hadd, table, htable, rfl⟩ | ⟨table, htable, rfl⟩ | rfl⟩ :=
      serve_cases hserve
    · refine Beside.step h (show LeaseAct.add _ _ ≠ .add _ _ from ?_) trivial htable
      intro hsame
      obtain ⟨hhost, hport⟩ := LeaseAct.add.inj hsame
      have hnot := honly _ hget (by rw [← hhost, ← UInt16.toUInt32_inj.mp hport])
      simp [Site.adds, hadd] at hnot
    · exact Beside.step h (show LeaseAct.alive _ ≠ .add _ _ by simp) trivial htable
    · exact h
  | alarm =>
    obtain ⟨table, htable, hstep⟩ := Option.bind_eq_some_iff.mp hstep
    obtain rfl := Option.some.inj hstep
    exact Beside.step h (show LeaseAct.alarm ≠ .add _ _ by simp) honly htable
  | tick | toClient | toServer | loseAtClient | loseAtServer =>
    obtain rfl := Option.some.inj hstep
    exact h

/-- **A client that is discovered crashes the server.** After the exchange that its broadcast
begins, with the conditions on the classes of `discovers`, the server has no alarm any more once nine
minutes have passed, if the client goes on greeting from its other socket and its first lease is
renewed in time. -/
theorem discovery_crashes {s s₁ t : Discovery} {after : List DiscoveryAct}
    (hclient : ∀ name ∈ site.conf.classes, IsClassName name)
    (hshort : (joined PROT_CLASSDELIM site.conf.classes).length ≤ ID_SIZE)
    (hclasses : site.conf.classes ≠ [] ∧ site.classes ≠ [])
    (hinbox : s.inbox = []) (hrequests : s.requests = []) (hphase : s.client.phase = .receiving)
    (hunknown : site.server ∉ s.client.servers) (hnew : ∀ l ∈ s.table.leases, l.host ≠ site.host)
    (hexchange : exec (Discovery.step site) s site.exchange = some s₁)
    (honly : Along (Discovery.step site) (GreetsOnly site) s₁ (after ++ [DiscoveryAct.alarm]))
    (hafter : exec (Discovery.step site) s₁ after = some t)
    (hlate : s.table.now.tvSec + 540 ≤ t.table.now.tvSec) :
    t.step site .alarm = none := by
  obtain ⟨s₁', hexec, -, hleases⟩ := exec_exchange hclient hshort hclasses hinbox hrequests hphase
    hunknown hnew
  obtain rfl := Option.some.inj (hexec.symm.trans hexchange)
  have hbeside : Beside site.host site.port.toUInt32 (leaseEnd s.table.now).tvSec s₁'.table := by
    refine ⟨⟨site.host, site.port.toUInt32, leaseEnd s.table.now⟩, ?_, rfl, rfl, rfl⟩
    rw [hleases, behindFirst_append fun l hl => by simpa using Ne.symm (hnew l hl),
      behindFirst_cons_of_pos (by simp)]
    exact List.mem_singleton_self _
  obtain ⟨l, hl, -, -, hexpires⟩ : Beside site.host site.port.toUInt32
      (leaseEnd s.table.now).tvSec t.table :=
    exec_invariant (fun _ _ _ h hC hstep => beside_step h hC hstep) hbeside honly.left hafter
  have halive : FirstAlive site.host t.table .alarm := (honly.of_append hafter).1
  have hexpired : l.seconds ≤ t.table.now.tvSec := by
    rw [hexpires]
    exact le_of_eq_of_le rfl hlate
  have hsweep : ¬ Sweepable Lease.seconds t.table.now.tvSec t.table.leases :=
    not_sweepable hl halive hexpired
  rw [Discovery.step, LeaseTable.step, if_neg hsweep]
  rfl

/-- Four minutes after the exchange the client greets the server, and ten minutes after it the alarm
comes. -/
theorem discovery_crashes_strangers : ∃ s₁ t,
    exec (Discovery.step strangers) (discoveryStart 0 ⟨0, 0⟩) strangers.exchange = some s₁ ∧
    exec (Discovery.step strangers) s₁ [.receive 0, .purge, .tick 250, .greet, .hello, .serve 0,
      .tick 350] = some t ∧ t.step strangers .alarm = none := by
  set after : List DiscoveryAct :=
    [.receive 0, .purge, .tick 250, .greet, .hello, .serve 0, .tick 350]
  set first := exec (Discovery.step strangers) (discoveryStart 0 ⟨0, 0⟩) strangers.exchange
  obtain ⟨s₁, hs₁⟩ : ∃ s₁, first = some s₁ := Option.isSome_iff_exists.mp (by decide +kernel)
  have honly : ∀ s ∈ first, Along (Discovery.step strangers) (GreetsOnly strangers) s
      (after ++ [DiscoveryAct.alarm]) := by decide +kernel
  have hruns : ∀ s ∈ first, (exec (Discovery.step strangers) s after).isSome := by decide +kernel
  have hlate : ∀ s ∈ first, ∀ t ∈ exec (Discovery.step strangers) s after,
      (0 : ℤ) + 540 ≤ t.table.now.tvSec := by decide +kernel
  obtain ⟨t, ht⟩ := Option.isSome_iff_exists.mp (hruns s₁ hs₁)
  exact ⟨s₁, t, hs₁, ht, discovery_crashes isClassName_strangers (by decide) (by decide) rfl rfl rfl
    (by decide) (by decide) hs₁ (honly s₁ hs₁) ht (hlate s₁ hs₁ t ht)⟩

end Peep
