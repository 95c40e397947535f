import Peep.Client.Servers

/-!
# Leases of servers

A lease is five minutes when a server is added, and what the server says when it is renewed. When it
has expired, the client is to send nothing to the server any more. The only place where a client
looks at `expires` is `purgeserverlist`, at the end of `handlealarm`. Neither `send` nor `hello`
does, and `hello` comes before the purge: between the moment a lease expires and the next purge,
which may be more than `INTERVAL` seconds away, notices and still-alive packets are delivered as
before.

## Main results

* `Client.Unexpired` — the invariant: outside `handlealarm` every lease in the table runs, and
  within it the lease of every server that is still to be delivered to
* `leased_of_inTime` — the runs in which it is kept
-/

namespace Peep

open Bytes StepSystem

/-- The server has a lease, and it has not expired. -/
def Client.Leased (c : Client) (a : SockAddr) : Prop :=
  ∃ expires ∈ c.servers.lookup a, c.now < expires

/-- What `send` or `hello` delivers goes to a server whose lease has not expired. -/
def DeliversLeased (conf : ClientConf) (c : Client) : Act → Prop
  | .sendout => (Client.step conf c .sendout).isSome → ∀ a ∈ c.sending.head?, c.Leased a
  | .hello => (Client.step conf c .hello).isSome → ∀ a ∈ c.greeting.head?, c.Leased a
  | _ => True

/-- The time reaches the end of a lease only within `handlealarm`, and not that of a server that
`hello` or an interrupted `send` has still to deliver to; and a lease that is over when it is
granted is not granted to such a server. -/
def InTime (c : Client) : Act → Prop
  | .tick seconds => ∀ a, ∀ expires ∈ c.servers.lookup a, expires ≤ c.now + seconds →
      c.phase ≠ .idle ∧ a ∉ c.sending ∧ (c.phase = .greeting → a ∉ c.greeting)
  | .receive server datagram => leaseSeconds (datagram.take RECV_SIZE) = 0 →
      Received PROT_SERVER_STILL_ALIVE server (datagram.take RECV_SIZE) → server ∉ c.sending
  | _ => True

/-- Every lease in the table runs, except within `handlealarm`, and so does the lease of every
server that is still to be delivered to. -/
structure Client.Unexpired (c : Client) : Prop where
  /-- Outside `handlealarm` the table has no expired lease. -/
  table : c.phase = .idle → ∀ a ∈ c.servers, c.Leased a
  /-- `send` delivers to servers with a lease. -/
  sending : ∀ a ∈ c.sending, c.Leased a
  /-- `hello` delivers to servers with a lease. -/
  greeting : c.phase = .greeting → ∀ a ∈ c.greeting, c.Leased a

variable {conf : ClientConf} {c c' : Client} {act : Act} {a server : SockAddr}
  {packet : List UInt8}

/-! ## The steps -/

/-- A lease that runs for longer than the time that passes. -/
theorem Client.Leased.tick {seconds : ℕ} (h : c.Leased a)
    (hlater : ∀ expires ∈ c.servers.lookup a, ¬ expires ≤ c.now + seconds) :
    Client.Leased { c with now := c.now + seconds } a := by
  obtain ⟨expires, hexpires, -⟩ := h
  exact ⟨expires, hexpires, not_le.mp (hlater expires hexpires)⟩

/-- A packet renews a lease, or leaves it. -/
theorem Client.Leased.receive (h : c.Leased a)
    (hrenewed : a = server → Received PROT_SERVER_STILL_ALIVE server packet →
      leaseSeconds packet ≠ 0) :
    Client.Leased
      { c with servers := updateserverlist conf.classes c.now c.servers server packet } a := by
  obtain ⟨expires, hexpires, hnow⟩ := h
  have hmem : a ∈ c.servers := mem_servers_iff.mpr ⟨expires, hexpires⟩
  have hsame : Client.Leased { c with servers := c.servers } a := ⟨expires, hexpires, hnow⟩
  rw [updateserverlist]
  split_ifs with hdefined hmagic hserver halive
  · exact hsame
  · exact hsame
  · rw [addnewserver_fst]
    split_ifs with hadd
    · have hne : a ≠ server := fun h => hadd.1 (h ▸ hmem)
      exact ⟨expires, by rwa [addserver, AList.lookup_insert_ne hne], hnow⟩
    · exact hsame
  · by_cases hne : a = server
    · subst hne
      refine ⟨c.now + leaseSeconds packet, AList.lookup_insert _, ?_⟩
      have := hrenewed rfl ⟨hdefined, not_not.mp hmagic, halive⟩
      show c.now < c.now + leaseSeconds packet
      omega
    · exact ⟨expires, by rwa [updateserver, AList.lookup_insert_ne hne], hnow⟩
  · exact hsame

/-- The purge deletes no lease that runs, and leaves no other. -/
theorem leased_purge_iff :
    Client.Leased { c with phase := .idle, servers := purgeserverlist c.now c.servers } a ↔
      c.Leased a := by
  simp only [Client.Leased, mem_lookup_purgeserverlist]
  exact exists_congr fun expires => ⟨fun h => ⟨h.1.1, h.2⟩, fun h => ⟨h, h.2⟩⟩

/-- **Steps in time keep the leases running.** -/
theorem Client.Unexpired.step (h : c.Unexpired) (htime : InTime c act)
    (hstep : Client.step conf c act = some c') : c'.Unexpired := by
  rcases act with seconds | - | - | - | - | - | ⟨server, datagram⟩ | - <;>
    rw [Client.step] at hstep
  case tick =>
    obtain rfl := Option.some.inj hstep
    refine ⟨?_, ?_, ?_⟩
    · intro hphase a ha
      exact (h.table hphase a ha).tick fun e he hle => (htime a e he hle).1 hphase
    · intro a ha
      exact (h.sending a ha).tick fun e he hle => (htime a e he hle).2.1 ha
    · intro hphase a ha
      exact (h.greeting hphase a ha).tick fun e he hle => (htime a e he hle).2.2 hphase ha
  case send =>
    split_ifs at hstep with hidle
    obtain rfl := Option.some.inj hstep
    exact ⟨h.table, fun a ha => h.table hidle.1 a (AList.mem_keys.mpr ha), h.greeting⟩
  case sendout =>
    split_ifs at hstep with hidle
    obtain rfl := Option.some.inj hstep
    exact ⟨h.table, fun a ha => h.sending a (List.mem_of_mem_tail ha), h.greeting⟩
  case alarm =>
    have hgreeting : Phase.greeting ≠ .idle := by decide
    split_ifs at hstep with hidle hudp
    · obtain rfl := Option.some.inj hstep
      exact ⟨fun hphase => absurd hphase hgreeting, h.sending,
        fun _ a ha => h.table hidle a (AList.mem_keys.mpr ha)⟩
    · obtain rfl := Option.some.inj hstep
      exact ⟨fun hphase => absurd hphase hgreeting, h.sending,
        fun _ a ha => absurd ha List.not_mem_nil⟩
  case hello =>
    split_ifs at hstep with hgreeting
    obtain rfl := Option.some.inj hstep
    exact ⟨h.table, h.sending, fun hphase a ha => h.greeting hphase a (List.mem_of_mem_tail ha)⟩
  case listen =>
    have hidle : Phase.receiving ≠ .idle := by decide
    have hother : Phase.receiving ≠ .greeting := by decide
    split_ifs at hstep with hgreeting
    obtain rfl := Option.some.inj hstep
    exact ⟨fun hphase => absurd hphase hidle, h.sending, fun hphase => absurd hphase hother⟩
  case receive =>
    split_ifs at hstep with hreceiving
    obtain rfl := Option.some.inj hstep
    have hphase : ∀ phase, phase ≠ .receiving → c.phase ≠ phase :=
      fun phase hne h => hne (h.symm.trans hreceiving)
    refine ⟨fun hidle => absurd hidle (hphase _ (by decide)), ?_,
      fun hgreeting => absurd hgreeting (hphase _ (by decide))⟩
    intro a ha
    refine (h.sending a ha).receive ?_
    rintro rfl halive hzero
    exact htime hzero halive ha
  case purge =>
    split_ifs at hstep with hreceiving
    obtain rfl := Option.some.inj hstep
    have hgreeting : Phase.idle ≠ .greeting := by decide
    refine ⟨?_, fun a ha => leased_purge_iff.mpr (h.sending a ha),
      fun hphase => absurd hphase hgreeting⟩
    intro _ a ha
    obtain ⟨expires, hexpires⟩ := mem_servers_iff.mp ha
    exact ⟨expires, hexpires, (mem_lookup_purgeserverlist.mp hexpires).2⟩

/-! ## Runs -/

/-- What the invariant says of a delivery. A step that is not enabled delivers nothing. -/
theorem Client.Unexpired.deliversLeased (h : c.Unexpired) : DeliversLeased conf c act := by
  rcases act with seconds | - | - | - | - | - | ⟨server, datagram⟩ | -
  case sendout =>
    intro _ a ha
    exact h.sending a (List.mem_of_mem_head? ha)
  case hello =>
    intro henabled a ha
    have hgreeting : c.phase = .greeting := by
      by_contra hphase
      rw [Client.step, if_neg (fun h => hphase h.1)] at henabled
      cases henabled
    exact h.greeting hgreeting a (List.mem_of_mem_head? ha)
  all_goals trivial

theorem unexpired_clientStart (now : ℕ) : (clientStart now).Unexpired :=
  ⟨nofun, fun _ h => absurd h List.not_mem_nil, nofun⟩

/-- **Leases are kept** in the runs in which no lease ends but within `handlealarm`. -/
theorem leased_of_inTime (conf : ClientConf) (now : ℕ) (acts : List Act)
    (htime : Along (Client.step conf) InTime (clientStart now) acts) :
    Along (Client.step conf) (DeliversLeased conf) (clientStart now) acts :=
  along_of_invariant (fun _ _ _ h hact hstep => h.step hact hstep)
    (fun _ _ h _ => h.deliversLeased) (unexpired_clientStart now) htime

/-! ## Evaluating runs -/

/-- The leases of a table, one by one. -/
theorem forall_lookup_iff {servers : Servers} {P : SockAddr → ℕ → Prop} :
    (∀ a, ∀ expires ∈ servers.lookup a, P a expires) ↔
      ∀ entry ∈ servers.entries, P entry.1 entry.2 :=
  ⟨fun h entry hentry => h entry.1 entry.2 (AList.mem_lookup_iff.mpr hentry),
    fun h a expires hexpires => h ⟨a, expires⟩ (AList.mem_lookup_iff.mp hexpires)⟩

instance (c : Client) (a : SockAddr) : Decidable (c.Leased a) :=
  inferInstanceAs (Decidable (∃ expires ∈ c.servers.lookup a, c.now < expires))

instance decidableDeliversLeased (conf : ClientConf) (c : Client) :
    (act : Act) → Decidable (DeliversLeased conf c act)
  | .sendout => inferInstanceAs (Decidable (_ → ∀ a ∈ c.sending.head?, _))
  | .hello => inferInstanceAs (Decidable (_ → ∀ a ∈ c.greeting.head?, _))
  | .tick _ | .send | .alarm | .listen | .receive _ _ | .purge => .isTrue trivial

instance decidableInTime (c : Client) : (act : Act) → Decidable (InTime c act)
  | .tick seconds => decidable_of_iff (∀ entry ∈ c.servers.entries, entry.2 ≤ c.now + seconds →
      c.phase ≠ .idle ∧ entry.1 ∉ c.sending ∧ (c.phase = .greeting → entry.1 ∉ c.greeting))
    (forall_lookup_iff (P := fun a expires => expires ≤ c.now + seconds →
      c.phase ≠ .idle ∧ a ∉ c.sending ∧ (c.phase = .greeting → a ∉ c.greeting))).symm
  | .receive _ _ => inferInstanceAs (Decidable (_ → _ → _))
  | .send | .sendout | .alarm | .hello | .listen | .purge => .isTrue trivial

/-- **A notice after the end of a lease**: the server was added for five minutes, and five minutes
later it is still sent to. -/
theorem not_leased_after_five_minutes :
    ¬ Along (Client.step ⟨[[97]], true⟩) (DeliversLeased ⟨[[97]], true⟩) (clientStart 0)
      [.receive [7] [2, 1, 4, 0, 0, 0, 0, 0, 0xDE, 0xAD, 0xBE, 0xEF, 0, 0, 0, 2, 97, 33],
        .purge, .tick 300, .send, .sendout] := by
  decide

/-- The server is renewed while `updateserverlist` listens, after its lease has ended. -/
theorem leased_renewed_in_time :
    Along (Client.step ⟨[[97]], true⟩) (DeliversLeased ⟨[[97]], true⟩) (clientStart 0)
      [.receive [7] [2, 1, 4, 0, 0, 0, 0, 0, 0xDE, 0xAD, 0xBE, 0xEF, 0, 0, 0, 2, 97, 33],
        .purge, .tick 299, .send, .sendout, .alarm, .hello, .listen, .tick 2,
        .receive [7] [2, 8, 4, 0, 0, 0, 0, 0, 0xDE, 0xAD, 0xBE, 0xEF, 0, 0, 0, 2, 5, 0],
        .purge, .send, .sendout] :=
  leased_of_inTime _ _ _ (by decide)

end Peep
