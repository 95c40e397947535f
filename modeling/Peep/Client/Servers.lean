import Peep.Client.Discovery
import Peep.Library.StepSystem

/-!
# Runs of an autodiscovering client

The main program of a client sends notices. Every `INTERVAL` seconds an alarm interrupts it, and
`handlealarm` (`Net::Peep::BC`) greets the servers of `%Servers` with a still-alive packet, takes
what has come in on the broadcast socket (`updateserverlist`) and deletes the servers whose lease
has expired (`purgeserverlist`). `send` and `hello` copy the addresses of the table before they
deliver to them one by one, and the alarm may come between two deliveries of a `send`.

Three handlers write to the table. `addnewserver` adds a server after a class match and
`purgeserverlist` deletes expired ones. `updateserver`, which renews a lease on a still-alive
packet, assigns to `$Servers{$server}->{'expires'}` without asking whether there is such a server,
and in Perl this creates the entry.

## Choices

A run begins in `initialize`, which listens once before the first alarm. The order in which the
addresses are delivered to is that of the table. The time advances between any two steps, and does
not within one. Broadcasts, and the packet that answers a broadcast, change nothing here.

## Main results

* `mem_servers_step` — how an address comes into the table, and how it stays there
* `trusted_iff` — when every server of the table was added after a class match
-/

namespace Peep

open Bytes StepSystem

/-! ## Messages -/

/-- The packet size of `recv` in `updateserverlist`. -/
def RECV_SIZE : ℕ := 256

/-- `$min` and `$sec` of `unpack ("C8I2C2", ...)`. A packet without both integers leaves the first
two bytes behind them to the variables before. -/
def leaseOf (packet : List UInt8) : ℕ × ℕ :=
  if 16 ≤ packet.length then ((packet.getD 16 0).toNat, (packet.getD 17 0).toNat)
  else if 12 ≤ packet.length then ((packet.getD 13 0).toNat, 0)
  else (0, 0)

/-- `$min*60 + $sec`. -/
def leaseSeconds (packet : List UInt8) : ℕ := (leaseOf packet).1 * 60 + (leaseOf packet).2

/-- `updateserver`. -/
def updateserver (now : ℕ) (servers : Servers) (server : SockAddr) (packet : List UInt8) :
    Servers :=
  servers.insert server (now + leaseSeconds packet)

/-- `purgeserverlist`. -/
def purgeserverlist (now : ℕ) (servers : Servers) : Servers where
  entries := servers.entries.filter fun entry => ¬ entry.2 ≤ now
  nodupKeys := List.NodupKeys.sublist List.filter_sublist servers.nodupKeys

/-- A packet of that type that `updateserverlist` looks at. -/
def Received (type : UInt8) (server : SockAddr) (packet : List UInt8) : Prop :=
  server ≠ [] ∧ (wordAt packet 8).toUInt32 = PROT_MAGIC_NUMBER ∧ packet.getD 1 0 = type

instance (type : UInt8) (server : SockAddr) (packet : List UInt8) :
    Decidable (Received type server packet) := inferInstanceAs (Decidable (_ ∧ _ ∧ _))

/-- What one iteration of the loop of `updateserverlist` makes of the table. -/
def updateserverlist (classes : List CString) (now : ℕ) (servers : Servers) (server : SockAddr)
    (packet : List UInt8) : Servers :=
  if server = [] then servers
  else if (wordAt packet 8).toUInt32 ≠ PROT_MAGIC_NUMBER then servers
  else if packet.getD 1 0 = PROT_BC_SERVER then (addnewserver classes now servers server packet).1
  else if packet.getD 1 0 = PROT_SERVER_STILL_ALIVE then updateserver now servers server packet
  else servers

/-! ## The client -/

/-- What of the configuration the client looks at. -/
structure ClientConf where
  /-- The names of its classes. -/
  classes : List CString
  /-- The option `protocol` is `udp`; with `tcp`, `hello` greets nobody. -/
  udp : Bool

/-- Where a client is in `handlealarm`. -/
inductive Phase
  /-- Outside. -/
  | idle
  /-- In `hello`. -/
  | greeting
  /-- In `updateserverlist`. -/
  | receiving
  deriving DecidableEq

/-- The state of a client. -/
structure Client where
  /-- `time()`. -/
  now : ℕ
  /-- `%Servers`. -/
  servers : Servers
  /-- Where it is in `handlealarm`. -/
  phase : Phase
  /-- The servers that `send` has still to deliver its notice to. -/
  sending : List SockAddr
  /-- The servers that `hello` has still to greet. -/
  greeting : List SockAddr

/-- What a client does. -/
inductive Act
  /-- Time passes. -/
  | tick (seconds : ℕ)
  /-- `send` copies the addresses of the table. -/
  | send
  /-- `sendout` delivers the notice to the next of them. -/
  | sendout
  /-- The alarm goes off, and `hello` copies the addresses of the table. -/
  | alarm
  /-- `hello` delivers a still-alive packet to the next of them. -/
  | hello
  /-- `hello` returns, and `updateserverlist` begins. -/
  | listen
  /-- `updateserverlist` receives a packet. -/
  | receive (server : SockAddr) (datagram : List UInt8)
  /-- `updateserverlist` returns, and `purgeserverlist` ends `handlealarm`. -/
  | purge

/-- One step of a client. -/
def Client.step (conf : ClientConf) (c : Client) : Act → Option Client
  | .tick seconds => some { c with now := c.now + seconds }
  | .send =>
    if c.phase = .idle ∧ c.sending = [] then some { c with sending := c.servers.keys } else none
  | .sendout =>
    if c.phase = .idle ∧ c.sending ≠ [] then some { c with sending := c.sending.tail } else none
  | .alarm =>
    if c.phase = .idle then
      some { c with phase := .greeting, greeting := if conf.udp then c.servers.keys else [] }
    else none
  | .hello =>
    if c.phase = .greeting ∧ c.greeting ≠ [] then some { c with greeting := c.greeting.tail }
    else none
  | .listen =>
    if c.phase = .greeting ∧ c.greeting = [] then some { c with phase := .receiving } else none
  | .receive server datagram =>
    if c.phase = .receiving then
      some { c with servers :=
        updateserverlist conf.classes c.now c.servers server (datagram.take RECV_SIZE) }
    else none
  | .purge =>
    if c.phase = .receiving then
      some { c with phase := .idle, servers := purgeserverlist c.now c.servers }
    else none

/-- The client in `initialize`. -/
def clientStart (now : ℕ) : Client where
  now := now
  servers := ∅
  phase := .receiving
  sending := []
  greeting := []

/-! ## What is asked of the table -/

/-- `addserver` is called for that address, after a class match. -/
def Adds (conf : ClientConf) (c : Client) (act : Act) (a : SockAddr) : Prop :=
  ∃ datagram, act = .receive a datagram ∧ Received PROT_BC_SERVER a (datagram.take RECV_SIZE) ∧
    a ∉ c.servers ∧ ClassMatch conf.classes (datagram.take RECV_SIZE)

/-- `purgeserverlist` deletes that address. -/
def Purges (c : Client) (act : Act) (a : SockAddr) : Prop :=
  act = .purge ∧ ∃ expires ∈ c.servers.lookup a, expires ≤ c.now

/-- A still-alive packet comes from that address. -/
def Renews (act : Act) (a : SockAddr) : Prop :=
  ∃ datagram, act = .receive a datagram ∧
    Received PROT_SERVER_STILL_ALIVE a (datagram.take RECV_SIZE)

/-- The address was added at some point of the run. -/
def Added (conf : ClientConf) (s : Client) (acts : List Act) (a : SockAddr) : Prop :=
  ∃ before act after c, acts = before ++ act :: after ∧
    exec (Client.step conf) s before = some c ∧ Adds conf c act a

/-- It was added at some point of the run and not purged since. -/
def AddedAndKept (conf : ClientConf) (s : Client) (acts : List Act) (a : SockAddr) : Prop :=
  ∃ before act after c c', acts = before ++ act :: after ∧
    exec (Client.step conf) s before = some c ∧ Adds conf c act a ∧
    Client.step conf c act = some c' ∧
    Along (Client.step conf) (fun c act => ¬ Purges c act a) c' after

/-- At every point of the run, every server of the table was added and not purged since, and every
server that a notice is being delivered to was added. -/
def Trusted (conf : ClientConf) (s : Client) (acts : List Act) : Prop :=
  ∀ before after c, acts = before ++ after → exec (Client.step conf) s before = some c →
    (∀ a ∈ c.servers, AddedAndKept conf s before a) ∧ ∀ a ∈ c.sending, Added conf s before a

/-- A still-alive packet is from a server of the table. -/
def Known (c : Client) (act : Act) : Prop := ∀ a, Renews act a → a ∈ c.servers

variable {conf : ClientConf} {c c' s t : Client} {act : Act} {acts : List Act} {a server : SockAddr}
  {packet : List UInt8} {now : ℕ} {servers : Servers}

/-! ## The table -/

theorem mem_lookup_purgeserverlist {expires : ℕ} :
    expires ∈ (purgeserverlist now servers).lookup a ↔
      expires ∈ servers.lookup a ∧ now < expires := by
  rw [AList.mem_lookup_iff, AList.mem_lookup_iff, purgeserverlist, List.mem_filter]
  simp

/-- An address is in the table if it has a lease there. -/
theorem mem_servers_iff : a ∈ servers ↔ ∃ expires, expires ∈ servers.lookup a := by
  rw [← AList.lookup_isSome, Option.isSome_iff_exists]
  rfl

theorem mem_purgeserverlist : a ∈ purgeserverlist now servers ↔
    a ∈ servers ∧ ¬ ∃ expires ∈ servers.lookup a, expires ≤ now := by
  simp only [mem_servers_iff, mem_lookup_purgeserverlist]
  constructor
  · rintro ⟨expires, hexpires, hlt⟩
    refine ⟨⟨expires, hexpires⟩, ?_⟩
    rintro ⟨e, he, hle⟩
    obtain rfl := Option.mem_unique he hexpires
    omega
  · rintro ⟨⟨expires, hexpires⟩, hnone⟩
    exact ⟨expires, hexpires, by by_contra hle; exact hnone ⟨expires, hexpires, by omega⟩⟩

/-- What a packet makes of the table. -/
theorem mem_updateserverlist : a ∈ updateserverlist conf.classes now servers server packet ↔
    a ∈ servers ∨ a = server ∧
      (Received PROT_SERVER_STILL_ALIVE server packet ∨
        Received PROT_BC_SERVER server packet ∧ server ∉ servers ∧
          ClassMatch conf.classes packet) := by
  rw [updateserverlist, Received, Received]
  split_ifs with hdefined hmagic hserver halive
  · simp [hdefined]
  · simp [hmagic]
  · have hne : packet.getD 1 0 ≠ PROT_SERVER_STILL_ALIVE := by
      rw [hserver]
      decide
    rw [addnewserver_fst]
    by_cases hadd : server ∉ servers ∧ ClassMatch conf.classes packet
    · rw [if_pos hadd, addserver, AList.mem_insert]
      grind
    · rw [if_neg hadd]
      grind
  · rw [updateserver, AList.mem_insert]
    grind
  · grind

/-- Only the handlers of `updateserverlist` and `purgeserverlist` write to the table. -/
theorem servers_step (hstep : Client.step conf c act = some c')
    (hreceive : ∀ server datagram, act ≠ .receive server datagram) (hpurge : act ≠ .purge) :
    c'.servers = c.servers := by
  rcases act with seconds | - | - | - | - | - | ⟨server, datagram⟩ | - <;>
    simp only [Client.step] at hstep
  case receive => exact absurd rfl (hreceive server datagram)
  case purge => exact absurd rfl hpurge
  case tick =>
    obtain rfl := Option.some.inj hstep
    rfl
  all_goals
    split_ifs at hstep
    all_goals
      obtain rfl := Option.some.inj hstep
      rfl

/-- The other handlers neither bring an address into the table nor remove one. -/
theorem mem_servers_step_of_ne (hstep : Client.step conf c act = some c')
    (hreceive : ∀ server datagram, act ≠ .receive server datagram) (hpurge : act ≠ .purge) :
    a ∈ c'.servers ↔ (a ∈ c.servers ∧ ¬ Purges c act a) ∨ Adds conf c act a ∨ Renews act a := by
  have hkept : ¬ Purges c act a := fun h => hpurge h.1
  have hadds : ¬ Adds conf c act a := fun ⟨datagram, h, _⟩ => hreceive a datagram h
  have hrenews : ¬ Renews act a := fun ⟨datagram, h, _⟩ => hreceive a datagram h
  rw [servers_step hstep hreceive hpurge, and_iff_left hkept,
    or_iff_left (not_or.mpr ⟨hadds, hrenews⟩)]

/-- **How an address comes into the table, and how it stays there.** -/
theorem mem_servers_step (hstep : Client.step conf c act = some c') : a ∈ c'.servers ↔
    (a ∈ c.servers ∧ ¬ Purges c act a) ∨ Adds conf c act a ∨ Renews act a := by
  cases act with
  | receive server datagram =>
    simp only [Client.step] at hstep
    split_ifs at hstep
    obtain rfl := Option.some.inj hstep
    have hkept : ¬ Purges c (.receive server datagram) a := fun h => by simp [Purges] at h
    rw [mem_updateserverlist, and_iff_left hkept, Adds, Renews]
    refine or_congr_right ?_
    constructor
    · rintro ⟨rfl, halive | ⟨hbc, hnew, hmatch⟩⟩
      · exact .inr ⟨datagram, rfl, halive⟩
      · exact .inl ⟨datagram, rfl, hbc, hnew, hmatch⟩
    · rintro (⟨d, hact, hbc, hnew, hmatch⟩ | ⟨d, hact, halive⟩)
      · obtain ⟨rfl, rfl⟩ := Act.receive.inj hact
        exact ⟨rfl, .inr ⟨hbc, hnew, hmatch⟩⟩
      · obtain ⟨rfl, rfl⟩ := Act.receive.inj hact
        exact ⟨rfl, .inl halive⟩
  | purge =>
    simp only [Client.step] at hstep
    split_ifs at hstep
    obtain rfl := Option.some.inj hstep
    rw [mem_purgeserverlist]
    simp [Purges, Adds, Renews]
  | _ => exact mem_servers_step_of_ne hstep (by simp) (by simp)

/-- How an address comes to be delivered to. -/
theorem mem_sending_step (hstep : Client.step conf c act = some c') (ha : a ∈ c'.sending) :
    a ∈ c.sending ∨ a ∈ c.servers := by
  rcases act with seconds | - | - | - | - | - | ⟨server, datagram⟩ | - <;>
    simp only [Client.step] at hstep
  case send =>
    split_ifs at hstep
    obtain rfl := Option.some.inj hstep
    exact .inr (AList.mem_keys.mpr ha)
  case sendout =>
    split_ifs at hstep
    obtain rfl := Option.some.inj hstep
    exact .inl (List.mem_of_mem_tail ha)
  case tick =>
    obtain rfl := Option.some.inj hstep
    exact .inl ha
  all_goals
    split_ifs at hstep
    all_goals
      obtain rfl := Option.some.inj hstep
      exact .inl ha

/-! ## Histories -/

theorem AddedAndKept.added (h : AddedAndKept conf s acts a) : Added conf s acts a := by
  obtain ⟨before, act, after, c, c', hacts, hc, hadds, -, -⟩ := h
  exact ⟨before, act, after, c, hacts, hc, hadds⟩

theorem Added.append {acts' : List Act} (h : Added conf s acts a) :
    Added conf s (acts ++ acts') a := by
  obtain ⟨before, act, after, c, rfl, hc, hadds⟩ := h
  exact ⟨before, act, after ++ acts', c, by simp, hc, hadds⟩

theorem AddedAndKept.cons (hstep : Client.step conf s act = some t)
    (h : AddedAndKept conf t acts a) : AddedAndKept conf s (act :: acts) a := by
  obtain ⟨before, b, after, c, c', rfl, hc, hadds, hc', hkept⟩ := h
  exact ⟨act :: before, b, after, c, c', rfl, exec_cons_eq_some.mpr ⟨t, hstep, hc⟩, hadds, hc',
    hkept⟩

/-- **Where an address of the table comes from**, in a run whose still-alive packets are from
servers of the table. -/
theorem kept_or_added (hknown : Along (Client.step conf) Known s acts)
    (ht : exec (Client.step conf) s acts = some t) (ha : a ∈ t.servers) :
    (a ∈ s.servers ∧ Along (Client.step conf) (fun c act => ¬ Purges c act a) s acts) ∨
      AddedAndKept conf s acts a := by
  induction acts generalizing s with
  | nil =>
    obtain rfl : s = t := by simpa using ht
    exact .inl ⟨ha, trivial⟩
  | cons act acts ih =>
    obtain ⟨s', hstep, ht'⟩ := exec_cons_eq_some.mp ht
    rw [along_cons_of_eq hstep] at hknown
    rcases ih hknown.2 ht' with ⟨hmem, hkept⟩ | hadded
    · rcases (mem_servers_step hstep).mp hmem with ⟨hs, hpurges⟩ | hadds | hrenews
      · exact .inl ⟨hs, (along_cons_of_eq hstep).mpr ⟨hpurges, hkept⟩⟩
      · exact .inr ⟨[], act, acts, s, s', rfl, rfl, hadds, hstep, hkept⟩
      · -- a renewal leaves a server in the table that was there before
        have hpurges : ¬ Purges s act a := by
          obtain ⟨datagram, rfl, -⟩ := hrenews
          rintro ⟨h, -⟩
          cases h
        exact .inl ⟨hknown.1 a hrenews, (along_cons_of_eq hstep).mpr ⟨hpurges, hkept⟩⟩
    · exact .inr (hadded.cons hstep)

/-- The addresses that a notice is being delivered to were in the table at some point. -/
theorem sending_of_servers (ht : exec (Client.step conf) s acts = some t) (ha : a ∈ t.sending) :
    a ∈ s.sending ∨ ∃ before after c, acts = before ++ after ∧
      exec (Client.step conf) s before = some c ∧ a ∈ c.servers := by
  induction acts generalizing s with
  | nil =>
    obtain rfl : s = t := by simpa using ht
    exact .inl ha
  | cons act acts ih =>
    obtain ⟨s', hstep, ht'⟩ := exec_cons_eq_some.mp ht
    rcases ih ht' with hmem | ⟨before, after, c, rfl, hc, hmem⟩
    · rcases mem_sending_step hstep hmem with h | h
      · exact .inl h
      · exact .inr ⟨[], act :: acts, s, rfl, rfl, h⟩
    · exact .inr ⟨act :: before, after, c, rfl, exec_cons_eq_some.mpr ⟨s', hstep, hc⟩, hmem⟩

/-- An address that is not purged stays in the table. -/
theorem mem_servers_exec (ha : a ∈ s.servers)
    (hkept : Along (Client.step conf) (fun c act => ¬ Purges c act a) s acts)
    (ht : exec (Client.step conf) s acts = some t) : a ∈ t.servers :=
  exec_invariant (I := fun c : Client => a ∈ c.servers)
    (fun _ _ _ hmem hpurges hstep => (mem_servers_step hstep).mpr (.inl ⟨hmem, hpurges⟩)) ha hkept
    ht

/-- A renewal adds nothing. -/
theorem Renews.not_adds (h : Renews act server) : ¬ Adds conf c act a := by
  obtain ⟨datagram, rfl, -, -, htype⟩ := h
  rintro ⟨d, hact, ⟨-, -, hbc⟩, -⟩
  obtain ⟨rfl, rfl⟩ := Act.receive.inj hact
  rw [htype] at hbc
  exact absurd hbc (by decide)

/-- In a run from `initialize` an address of the table was added. -/
theorem addedAndKept_of_known
    (hknown : Along (Client.step conf) Known (clientStart now) acts)
    (ht : exec (Client.step conf) (clientStart now) acts = some t) (ha : a ∈ t.servers) :
    AddedAndKept conf (clientStart now) acts a := by
  rcases kept_or_added hknown ht ha with ⟨hmem, -⟩ | hadded
  · exact absurd hmem (AList.notMem_empty a)
  · exact hadded

/-- **Still-alive packets from servers of the table** leave it to those that were added. -/
theorem trusted_of_known (hknown : Along (Client.step conf) Known (clientStart now) acts) :
    Trusted conf (clientStart now) acts := by
  rintro before after c rfl hc
  refine ⟨fun a ha => addedAndKept_of_known hknown.left hc ha, ?_⟩
  intro a ha
  rcases sending_of_servers hc ha with hmem | ⟨first, rest, d, rfl, hd, hmem⟩
  · exact absurd hmem List.not_mem_nil
  · rw [List.append_assoc] at hknown
    exact (addedAndKept_of_known hknown.left hd hmem).added.append

/-- The entry that a still-alive packet creates is not accounted for by the run before it. -/
theorem known_of_addedAndKept {before : List Act} (hc : exec (Client.step conf) s before = some c)
    (hrenews : Renews act a) (hadded : AddedAndKept conf s (before ++ [act]) a) :
    a ∈ c.servers := by
  obtain ⟨first, act', rest, d, d', hsplit, hd, hadds, hd', hkept⟩ := hadded
  rcases List.eq_nil_or_concat rest with rfl | ⟨rest, last, rfl⟩
  · obtain ⟨rfl, hlast⟩ := List.append_inj' hsplit rfl
    obtain rfl : act = act' := by simpa using hlast
    exact absurd hadds hrenews.not_adds
  · -- the address was added before, and has been in the table since
    rw [List.concat_eq_append] at hsplit hkept
    have hsplit' : before ++ [act] = (first ++ act' :: rest) ++ [last] := by simpa using hsplit
    obtain ⟨rfl, -⟩ := List.append_inj' hsplit' rfl
    obtain ⟨d₁, hd₁, hrest⟩ := exec_append_eq_some.mp hc
    obtain rfl := Option.some.inj (hd.symm.trans hd₁)
    obtain ⟨d₂, hd₂, hend⟩ := exec_cons_eq_some.mp hrest
    obtain rfl := Option.some.inj (hd'.symm.trans hd₂)
    exact mem_servers_exec ((mem_servers_step hd').mpr (.inr (.inl hadds))) hkept.left hend

/-- Only packets have to be from known servers. -/
theorem known_iff : Known c act ↔ ∀ server datagram, act = .receive server datagram →
    Received PROT_SERVER_STILL_ALIVE server (datagram.take RECV_SIZE) → server ∈ c.servers := by
  constructor
  · intro h server datagram hact halive
    exact h server ⟨datagram, hact, halive⟩
  · rintro h a ⟨datagram, hact, halive⟩
    exact h a datagram hact halive

instance decidableKnown : (c : Client) → (act : Act) → Decidable (Known c act)
  | c, .receive server datagram => decidable_of_iff
      (Received PROT_SERVER_STILL_ALIVE server (datagram.take RECV_SIZE) → server ∈ c.servers)
      (by simp [known_iff])
  | _, .tick _ | _, .send | _, .sendout | _, .alarm | _, .hello | _, .listen | _, .purge =>
    .isTrue (by simp [known_iff])

/-- **When every server of the table was added after a class match**: exactly if the still-alive
packets that are received come from servers of the table. -/
theorem trusted_iff (conf : ClientConf) (now : ℕ) (acts : List Act)
    (hrun : (exec (Client.step conf) (clientStart now) acts).isSome) :
    Trusted conf (clientStart now) acts ↔
      Along (Client.step conf) Known (clientStart now) acts := by
  refine ⟨fun htrusted => along_of_split ?_, trusted_of_known⟩
  rintro before act after c rfl hc a hrenews
  obtain ⟨t, ht⟩ := Option.isSome_iff_exists.mp hrun
  obtain ⟨c₁, hc₁, hrest⟩ := exec_append_eq_some.mp ht
  obtain rfl := Option.some.inj (hc.symm.trans hc₁)
  obtain ⟨c', hstep, -⟩ := exec_cons_eq_some.mp hrest
  have hmem : a ∈ c'.servers := (mem_servers_step hstep).mpr (.inr (.inr hrenews))
  have hexec : exec (Client.step conf) (clientStart now) (before ++ [act]) = some c' :=
    exec_append_eq_some.mpr ⟨c, hc, exec_cons_eq_some.mpr ⟨c', hstep, rfl⟩⟩
  exact known_of_addedAndKept hc hrenews
    ((htrusted (before ++ [act]) after c' (by simp) hexec).1 a hmem)

/-- **A still-alive packet from an unknown address**: it creates an entry, and the next notice is
sent there. -/
theorem not_trusted_unknown_address :
    let acts : List Act := [.receive [7] ([2, 8, 4, 0, 0, 0, 0, 0, 0xDE, 0xAD, 0xBE, 0xEF] ++
      [0, 0, 0, 2, 5, 0]), .purge, .send]
    (∃ t, exec (Client.step ⟨[[97]], true⟩) (clientStart 0) acts = some t ∧ t.sending = [[7]]) ∧
      ¬ Trusted ⟨[[97]], true⟩ (clientStart 0) acts := by
  refine ⟨⟨_, rfl, rfl⟩, fun htrusted => ?_⟩
  have hmem := (htrusted [_] [_, _] _ rfl rfl).1 [7] (by decide)
  have hrenews : Renews (.receive [7] ([2, 8, 4, 0, 0, 0, 0, 0, 0xDE, 0xAD, 0xBE, 0xEF] ++
      [0, 0, 0, 2, 5, 0])) [7] := ⟨_, rfl, by decide⟩
  have hstart : exec (Client.step ⟨[[97]], true⟩) (clientStart 0) [] = some (clientStart 0) := rfl
  exact AList.notMem_empty _ (known_of_addedAndKept hstart hrenews hmem)

/-- A server is added for its class `a`, and renewed after that. -/
theorem trusted_add_renew : Trusted ⟨[[97]], true⟩ (clientStart 0)
    [.receive [7] ([2, 1, 4, 0, 0, 0, 0, 0, 0xDE, 0xAD, 0xBE, 0xEF, 0, 0, 0, 2, 97, 33]),
      .receive [7] ([2, 8, 4, 0, 0, 0, 0, 0, 0xDE, 0xAD, 0xBE, 0xEF, 0, 0, 0, 2, 5, 0]),
      .purge, .send, .sendout] :=
  (trusted_iff _ _ _ rfl).mpr (by decide)

end Peep
