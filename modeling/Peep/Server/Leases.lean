import Peep.Library.SinglyLinked
import Peep.Library.StepSystem
import Peep.Event

/-!
# The leases of the clients

The UDP server keeps the clients it has heard of in a singly linked list, `hlhead`, each with the
time when its lease expires (`udp_server.c`). `serverAddClient` adds a client, or renews its lease,
`serverUpdateClient` renews the lease of a client that is still alive, and `serverPurgeHostList`
removes those that have expired.

* A client is added by address and port, but renewed by address alone: the first one at the address
  is.
* `serverPurgeHostList` goes on from an entry that it has freed, unless that was the first entry of
  the list.

## Choices

An address that is not allocated or has been freed has no cell, and an access there has no result.
The loops take the number of turns that they may take; a loop that needs more has no result either.
`freed` lists the addresses that `free` was called with, and is read by nothing. Memory can be
allocated: a new entry is at an address that was not in use. The messages that are sent to a client
when it is added are left out.

## Main results

* `purges_iff` — when the list is purged of what has expired, and nothing else happens
* `represented_of_run` — what the list is after some clients were added
* `renewsSender_iff` — when the lease of the sender is renewed, and nothing else happens
-/

namespace Peep

open SinglyLinked StepSystem

/-! ## The list -/

/-- `struct leaselist`, apart from its link. -/
structure Lease where
  /-- `host.s_addr`. -/
  host : UInt32
  /-- `port`. -/
  port : UInt32
  /-- `expired`: when it expires. -/
  expired : Timeval
  deriving DecidableEq

/-- The entries in memory, and `hlhead`. -/
structure HostList where
  /-- The entries. -/
  mem : Memory Lease
  /-- `hlhead`. -/
  hlhead : Option ℕ
  /-- What has been freed. -/
  freed : List ℕ

/-- The sender of a packet, `struct sockaddr_in`. -/
structure Sender where
  /-- `sin_addr.s_addr`. -/
  host : UInt32
  /-- `sin_port`. -/
  port : UInt16
  deriving DecidableEq

/-- `PROT_SERVER_WAKEUP_MIN`. -/
def PROT_SERVER_WAKEUP_MIN : ℤ := 4

/-- `PROT_SERVER_WAKEUP_SEC`. -/
def PROT_SERVER_WAKEUP_SEC : ℤ := 30

/-- `PROT_WAKEUPS_BEFORE_EXPIRED`. -/
def PROT_WAKEUPS_BEFORE_EXPIRED : ℤ := 2

/-- When a lease expires that begins now. -/
def leaseEnd (now : Timeval) : Timeval where
  tvSec := now.tvSec +
    (PROT_SERVER_WAKEUP_MIN * 60 + PROT_SERVER_WAKEUP_SEC) * PROT_WAKEUPS_BEFORE_EXPIRED
  tvUsec := 0

/-- The lease has expired. -/
def Lease.hasExpired (current : Timeval) (l : Lease) : Bool := l.expired.tvSec ≤ current.tvSec

/-- The lease is that of the sender. -/
def Lease.isOf (sender : Sender) (l : Lease) : Bool :=
  l.host = sender.host && l.port = sender.port.toUInt32

namespace HostList

/-- No client is known. -/
def empty : HostList := ⟨fun _ => none, none, []⟩

/-- `free`. -/
def free (s : HostList) (a : ℕ) : Option HostList :=
  if (s.mem a).isSome then
    some { s with mem := Function.update s.mem a none, freed := s.freed ++ [a] }
  else none

/-- An entry is written. -/
def write (s : HostList) (a : ℕ) (cell : Cell Lease) : HostList :=
  { s with mem := Function.update s.mem a (some cell) }

/-- The assignment to `expired` of an entry. -/
def setExpired (s : HostList) (a : ℕ) (expired : Timeval) : Option HostList :=
  (s.mem a).map fun cell => s.write a { cell with value := { cell.value with expired := expired } }

/-- The assignment to `nextent` of an entry. -/
def setNext (s : HostList) (a : ℕ) (next : Option ℕ) : Option HostList :=
  (s.mem a).map fun cell => s.write a { cell with next := next }

/-- `serverFindLeaseEntry`. -/
def serverFindLeaseEntry (turns : ℕ) (s : HostList) (host port : UInt32) : Option (Option ℕ) :=
  seek s.mem (fun cell => cell.value.host = host && cell.value.port = port) turns s.hlhead

/-- `serverAddLeaseEntry`, where `calloc` returns `fresh`: the address of the entry. -/
def serverAddLeaseEntry (turns : ℕ) (s : HostList) (host port : UInt32) (fresh : ℕ) :
    Option (ℕ × HostList) :=
  if (s.mem fresh).isSome then none
  else
    let entry : Cell Lease := ⟨⟨host, port, ⟨0, 0⟩⟩, none⟩
    match s.hlhead with
    | none => some (fresh, { s.write fresh entry with hlhead := some fresh })
    | some _ => do
      let p ← seek s.mem (fun cell => cell.next.isNone) turns s.hlhead
      let p ← p
      let s ← s.setNext p (some fresh)
      some (fresh, s.write fresh entry)

/-- `serverAddClient` up to its messages to the client. -/
def serverAddClient (turns : ℕ) (s : HostList) (host port : UInt32) (now : Timeval) (fresh : ℕ) :
    Option HostList := do
  let found ← serverFindLeaseEntry turns s host port
  match found with
  | some lease => s.setExpired lease (leaseEnd now)
  | none => do
    let (lease, s) ← serverAddLeaseEntry turns s host port fresh
    s.setExpired lease (leaseEnd now)

/-- `serverUpdateClient`: whether it succeeds, and the list after it. -/
def serverUpdateClient (turns : ℕ) (s : HostList) (sender : Option Sender) (now : Timeval) :
    Option (Bool × HostList) :=
  match sender with
  | none => some (false, s)
  | some sender => do
    let found ← seek s.mem (fun cell => sender.host = cell.value.host) turns s.hlhead
    match found with
    | none => some (true, s)
    | some p => (s.setExpired p (leaseEnd now)).map fun s => (true, s)

/-- The loop of `serverPurgeHostList`. -/
def purgeLoop (current : Timeval) :
    ℕ → HostList → Option ℕ → Option ℕ → Option HostList
  | _, s, none, _ => some s
  | 0, _, some _, _ => none
  | turns + 1, s, some p, q => do
    let cell ← s.mem p
    if cell.value.hasExpired current then
      if s.hlhead = some p then
        let s ← s.free p
        purgeLoop current turns { s with hlhead := cell.next } cell.next q
      else
        let q ← q
        let s ← s.setNext q cell.next
        let s ← s.free p
        -- `q = p; p = p->nextent`, as for an entry that stays
        let cell ← s.mem p
        purgeLoop current turns s cell.next (some p)
    else purgeLoop current turns s cell.next (some p)

/-- `serverPurgeHostList`. -/
def serverPurgeHostList (current : Timeval) (turns : ℕ) (s : HostList) : Option HostList :=
  purgeLoop current turns s s.hlhead none

/-- From `s` to `s'` the entries `xs` are purged. -/
structure Purged (current : Timeval) (s s' : HostList) (xs : List (ℕ × Lease)) : Prop where
  /-- What has not expired stays, in the same order. -/
  list : Path s'.mem s'.hlhead (xs.filter fun x => !x.2.hasExpired current)
  /-- What has expired is freed once. -/
  freed : s'.freed = s.freed ++ (xs.filter fun x => x.2.hasExpired current).map Prod.fst
  /-- And it stays freed. -/
  gone : ∀ x ∈ xs, x.2.hasExpired current → s'.mem x.1 = none
  /-- Nothing else in memory is changed. -/
  frame : ∀ a ∉ xs.map Prod.fst, s'.mem a = s.mem a

/-- The list is purged after some turns, without an access to an entry that has been freed. -/
def Purges (current : Timeval) (s : HostList) (xs : List (ℕ × Lease)) : Prop :=
  ∃ enough, ∀ turns ≥ enough, ∃ s', serverPurgeHostList current turns s = some s' ∧
    Purged current s s' xs

/-- The arguments of `serverAddClient`, with the time and the address that it gets. -/
structure AddCall where
  /-- `host`. -/
  host : UInt32
  /-- `port`. -/
  port : UInt32
  /-- The time. -/
  now : Timeval
  /-- The address of a new entry. -/
  fresh : ℕ

/-- A client is added. -/
def addStep (turns : ℕ) (s : HostList) (c : AddCall) : Option HostList :=
  serverAddClient turns s c.host c.port c.now c.fresh

/-- The lease of the sender, renewed, and other leases. -/
def renewed (sender : Sender) (expired : Timeval) (x : ℕ × Lease) : ℕ × Lease :=
  if x.2.isOf sender then (x.1, { x.2 with expired := expired }) else x

/-- The lease of the sender is renewed after some turns if there is one, and nothing else is
changed. -/
def RenewsSender (s : HostList) (xs : List (ℕ × Lease)) (sender : Sender) (now : Timeval) : Prop :=
  ∃ enough, ∀ turns ≥ enough, ∃ s', serverUpdateClient turns s (some sender) now = some (true, s') ∧
    s'.hlhead = s.hlhead ∧ Path s'.mem s'.hlhead (xs.map (renewed sender (leaseEnd now))) ∧
    ∀ a ∉ xs.map Prod.fst, s'.mem a = s.mem a

variable {s s' : HostList} {p q : Option ℕ} {a turns : ℕ} {x : ℕ × Lease}
  {xs front : List (ℕ × Lease)} {current now : Timeval} {sender : Sender} {calls : List AddCall}

/-! ## Purging -/

theorem free_of_mem {cell : Cell Lease} (h : s.mem a = some cell) :
    s.free a = some { s with mem := Function.update s.mem a none, freed := s.freed ++ [a] } := by
  rw [free, h]
  rfl

theorem mem_of_free (h : s.free a = some s') : s'.mem a = none := by
  rw [free] at h
  split_ifs at h
  obtain rfl := Option.some.inj h
  exact Function.update_self ..

/-- **The entries at the head** that have expired are freed one after the other. -/
theorem purgeLoop_front (h : Path s.mem s.hlhead (front ++ xs))
    (hfront : ∀ x ∈ front, x.2.hasExpired current = true) :
    ∃ s', (∀ turns, purgeLoop current (turns + front.length) s s.hlhead q
        = purgeLoop current turns s' s'.hlhead q) ∧
      Path s'.mem s'.hlhead xs ∧ s'.freed = s.freed ++ front.map Prod.fst ∧
      (∀ x ∈ front, s'.mem x.1 = none) ∧ ∀ a ∉ front.map Prod.fst, s'.mem a = s.mem a := by
  induction front generalizing s with
  | nil => exact ⟨s, fun _ => rfl, h, (List.append_nil _).symm, by simp, fun _ _ => rfl⟩
  | cons x front ih =>
    have hnodup := (List.nodup_cons.mp h.nodup).1
    obtain ⟨hhead, next, hx, hrest⟩ := h
    have hexpired := hfront x List.mem_cons_self
    have hstep (turns) : purgeLoop current (turns + 1) s s.hlhead q = purgeLoop current turns
        ⟨Function.update s.mem x.1 none, next, s.freed ++ [x.1]⟩ next q := by
      rw [hhead, purgeLoop, hx, Option.bind_eq_bind, Option.bind_some, if_pos hexpired,
        if_pos hhead, free_of_mem hx]
      rfl
    have hpath : Path (Function.update s.mem x.1 none) next (front ++ xs) := by
      refine hrest.congr fun a ha => Function.update_of_ne ?_ ..
      rintro rfl
      exact hnodup ha
    obtain ⟨s', heq, hpath', hfreed, hgone, hframe⟩ :=
      @ih ⟨Function.update s.mem x.1 none, next, s.freed ++ [x.1]⟩ hpath
        fun y hy => hfront y (List.mem_cons_of_mem _ hy)
    refine ⟨s', fun turns => (hstep _).trans (heq turns), hpath', by simp [hfreed], ?_,
      fun a ha => ?_⟩
    · rw [List.forall_mem_cons]
      refine ⟨?_, hgone⟩
      rw [hframe x.1 fun hmem => hnodup (by simp [hmem])]
      exact Function.update_self ..
    · rw [List.map_cons, List.mem_cons, not_or] at ha
      rw [hframe a ha.2]
      exact Function.update_of_ne ha.1 ..

/-- **Entries that have not expired** are passed over. -/
theorem purgeLoop_live (h : Path s.mem p xs) (hlive : ∀ x ∈ xs, x.2.hasExpired current = false)
    (hturns : xs.length ≤ turns) : purgeLoop current turns s p q = some s := by
  induction xs generalizing p q turns with
  | nil =>
    obtain rfl : p = none := h
    rw [purgeLoop]
  | cons x xs ih =>
    obtain ⟨rfl, next, hx, hxs⟩ := h
    obtain ⟨turns, rfl⟩ := Nat.exists_eq_add_one_of_ne_zero (Nat.ne_zero_of_lt hturns)
    rw [List.forall_mem_cons] at hlive
    rw [purgeLoop, hx, Option.bind_eq_bind, Option.bind_some, if_neg (by simp [hlive.1])]
    exact ih hxs hlive.2 (Nat.le_of_succ_le_succ hturns)

/-- **Behind the head** an entry that has expired is gone on from after it has been freed. -/
theorem purgeLoop_of_hasExpired (h : Path s.mem p xs) (hhead : ∀ x ∈ xs, s.hlhead ≠ some x.1)
    (hexpired : ∃ x ∈ xs, x.2.hasExpired current = true) :
    purgeLoop current turns s p q = none := by
  induction xs generalizing p q turns with
  | nil =>
    obtain ⟨x, hx, -⟩ := hexpired
    cases hx
  | cons x xs ih =>
    obtain ⟨rfl, next, hx, hxs⟩ := h
    rcases turns with - | turns
    · rfl
    rw [List.forall_mem_cons] at hhead
    rw [purgeLoop, hx, Option.bind_eq_bind, Option.bind_some]
    by_cases hlive : x.2.hasExpired current = true
    · rw [if_pos hlive, if_neg hhead.1]
      refine Option.eq_none_iff_forall_ne_some.mpr fun t ht => ?_
      obtain ⟨b, -, ht⟩ := Option.bind_eq_some_iff.mp ht
      obtain ⟨s₀, -, ht⟩ := Option.bind_eq_some_iff.mp ht
      obtain ⟨s₁, hfree, ht⟩ := Option.bind_eq_some_iff.mp ht
      obtain ⟨cell, hcell, -⟩ := Option.bind_eq_some_iff.mp ht
      rw [mem_of_free hfree] at hcell
      cases hcell
    · have hmore : ∃ y ∈ xs, y.2.hasExpired current = true := by
        obtain ⟨y, hy, hyes⟩ := hexpired
        rcases List.mem_cons.mp hy with rfl | hy
        · exact absurd hyes hlive
        · exact ⟨y, hy, hyes⟩
      rw [if_neg hlive]
      exact ih hxs hhead.2 hmore

/-- No entry that has expired is behind one that has not. -/
theorem pairwise_iff_dropWhile (p : α → Bool) (l : List α) :
    l.Pairwise (fun x y => p y = true → p x = true) ↔ ∀ y ∈ l.dropWhile p, p y = false := by
  induction l with
  | nil => simp
  | cons x l ih =>
    by_cases hx : p x = true
    · rw [List.dropWhile_cons_of_pos hx, List.pairwise_cons, ih, and_iff_right fun _ _ _ => hx]
    · have hfalse : p x = false := by simpa using hx
      rw [List.dropWhile_cons_of_neg hx, List.pairwise_cons, List.forall_mem_cons]
      constructor
      · rintro ⟨hall, -⟩
        exact ⟨hfalse, fun y hy => by simpa using fun hyes => hx (hall y hy hyes)⟩
      · rintro ⟨-, hall⟩
        have hnone : ∀ y ∈ l, ∀ z, p y = true → p z = true := by
          intro y hy z hyes
          rw [hall y hy] at hyes
          cases hyes
        exact ⟨fun y hy => hnone y hy x,
          List.pairwise_of_forall_mem_list fun z _ y hy => hnone y hy z⟩

/-- The loop does not get to an entry that has expired behind a first one that has not. -/
theorem purgeLoop_head_live {y : ℕ × Lease} (h : Path s.mem s.hlhead (y :: xs))
    (hy : y.2.hasExpired current = false) (hexpired : ∃ x ∈ xs, x.2.hasExpired current = true)
    (turns : ℕ) : purgeLoop current (turns + 1) s s.hlhead none = none := by
  have hnodup := (List.nodup_cons.mp h.nodup).1
  obtain ⟨hfirst, next, hmem, hxs⟩ := h
  have hcrash : purgeLoop current turns s next (some y.1) = none := by
    refine purgeLoop_of_hasExpired hxs (fun z hz heq => hnodup ?_) hexpired
    rw [hfirst, Option.some.injEq] at heq
    exact heq ▸ List.mem_map_of_mem hz
  rw [hfirst, purgeLoop, hmem, Option.bind_eq_bind, Option.bind_some, if_neg (by simp [hy]),
    hcrash]

/-- Entries that have expired, and behind them others that begin with one that has not. -/
theorem purges_append_iff (h : Path s.mem s.hlhead (front ++ xs))
    (hfront : ∀ x ∈ front, x.2.hasExpired current = true)
    (hhead : ∀ x, xs.head? = some x → x.2.hasExpired current = false) :
    Purges current s (front ++ xs) ↔ ∀ x ∈ xs, x.2.hasExpired current = false := by
  obtain ⟨s', hloop, hpath, hfreed, hgone, hframe⟩ : ∃ s',
      (∀ turns, serverPurgeHostList current (turns + front.length) s
        = purgeLoop current turns s' s'.hlhead none) ∧
      Path s'.mem s'.hlhead xs ∧ s'.freed = s.freed ++ front.map Prod.fst ∧
      (∀ x ∈ front, s'.mem x.1 = none) ∧
      ∀ a ∉ front.map Prod.fst, s'.mem a = s.mem a := purgeLoop_front h hfront
  constructor
  · rintro ⟨enough, hpurges⟩ x hx
    obtain ⟨t, ht, -⟩ := hpurges (enough + 1 + front.length) (by omega)
    by_contra hexpired
    rw [hloop] at ht
    -- the entry is not the first one
    rcases xs with - | ⟨y, xs⟩
    · cases hx
    have hy : y.2.hasExpired current = false := hhead y rfl
    have hbehind : x ∈ xs := List.mem_of_ne_of_mem (fun heq => hexpired (heq ▸ hy)) hx
    rw [purgeLoop_head_live hpath hy ⟨x, hbehind, by simpa using hexpired⟩] at ht
    cases ht
  · intro hlive
    have hlist : (front ++ xs).filter (fun x => !x.2.hasExpired current) = xs := by
      rw [List.filter_append, List.filter_eq_nil_iff.mpr fun x hx => by simp [hfront x hx],
        List.filter_eq_self.mpr fun x hx => by simp [hlive x hx], List.nil_append]
    have hexpired : (front ++ xs).filter (fun x => x.2.hasExpired current) = front := by
      rw [List.filter_append, List.filter_eq_self.mpr hfront,
        List.filter_eq_nil_iff.mpr fun x hx => by simp [hlive x hx], List.append_nil]
    refine ⟨xs.length + front.length, fun turns hturns => ⟨s', ?_, ?_, ?_, ?_, ?_⟩⟩
    · obtain ⟨rest, rfl⟩ := Nat.exists_eq_add_of_le (Nat.le_of_add_left_le hturns)
      rw [Nat.add_comm front.length, hloop]
      exact purgeLoop_live hpath hlive (by omega)
    · rwa [hlist]
    · rwa [hexpired]
    · intro x hx hyes
      rcases List.mem_append.mp hx with hx | hx
      · exact hgone x hx
      · rw [hlive x hx] at hyes
        cases hyes
    · intro a ha
      exact hframe a fun hmem => ha (by simp [hmem])

/-- **When the list is purged** of what has expired, and nothing else happens: no entry that has
expired is behind one that has not. -/
theorem purges_iff (h : Path s.mem s.hlhead xs) : Purges current s xs ↔
    xs.Pairwise fun x y => y.2.hasExpired current = true → x.2.hasExpired current = true := by
  have hsplit := List.takeWhile_append_dropWhile (p := fun x : ℕ × Lease => x.2.hasExpired current)
    (l := xs)
  have hfront : ∀ x ∈ xs.takeWhile fun x => x.2.hasExpired current, x.2.hasExpired current = true :=
    fun x hx => List.mem_takeWhile_imp (p := fun x : ℕ × Lease => x.2.hasExpired current) hx
  have hhead : ∀ x, (xs.dropWhile fun x => x.2.hasExpired current).head? = some x →
      x.2.hasExpired current = false := by
    intro x hx
    simpa [hx] using List.head?_dropWhile_not (fun x : ℕ × Lease => x.2.hasExpired current) xs
  rw [pairwise_iff_dropWhile fun x : ℕ × Lease => x.2.hasExpired current,
    ← purges_append_iff (hsplit.symm ▸ h) hfront hhead, hsplit]

/-- A list of two entries that expire at these times. -/
def twoLeases (first second : ℤ) : HostList where
  mem := Function.update (Function.update (fun _ => none) 1 (some ⟨⟨2, 5000, ⟨second, 0⟩⟩, none⟩)) 0
    (some ⟨⟨1, 5000, ⟨first, 0⟩⟩, some 1⟩)
  hlhead := some 0
  freed := []

theorem path_twoLeases (first second : ℤ) :
    Path (twoLeases first second).mem (twoLeases first second).hlhead
      [(0, ⟨1, 5000, ⟨first, 0⟩⟩), (1, ⟨2, 5000, ⟨second, 0⟩⟩)] :=
  ⟨rfl, some 1, rfl, rfl, none, rfl, rfl⟩

/-- **The second of two entries has expired**: the first client has renewed its lease, the second
has not. -/
theorem not_purges_second : Path (twoLeases 1040 540).mem (twoLeases 1040 540).hlhead
      [(0, ⟨1, 5000, ⟨1040, 0⟩⟩), (1, ⟨2, 5000, ⟨540, 0⟩⟩)] ∧
    ¬ Purges ⟨600, 0⟩ (twoLeases 1040 540)
      [(0, ⟨1, 5000, ⟨1040, 0⟩⟩), (1, ⟨2, 5000, ⟨540, 0⟩⟩)] := by
  refine ⟨path_twoLeases 1040 540, fun h => ?_⟩
  have hlive := (@purges_append_iff (twoLeases 1040 540) _ [] ⟨600, 0⟩ (path_twoLeases 1040 540)
    (by simp) (by simp [Lease.hasExpired])).mp h
  exact absurd (hlive _ (List.mem_cons_of_mem _ List.mem_cons_self)) (by decide)

/-- The first of two entries has expired. -/
theorem purges_first : Purges ⟨600, 0⟩ (twoLeases 540 1040)
    [(0, ⟨1, 5000, ⟨540, 0⟩⟩), (1, ⟨2, 5000, ⟨1040, 0⟩⟩)] :=
  (purges_iff (path_twoLeases 540 1040)).mpr (by simp [Lease.hasExpired])

/-! ## Adding clients -/

/-- The entry of a client is the only one with its address and port. -/
def Distinct (xs : List (ℕ × Lease)) : Prop := (xs.map fun x => (x.2.host, x.2.port)).Nodup

/-- The list consists of the entries, which are those of different clients. -/
def Represents (s : HostList) (xs : List (ℕ × Lease)) : Prop :=
  Path s.mem s.hlhead xs ∧ Distinct xs

/-- An assignment to `expired`. -/
theorem setExpired_eq (h : Path s.mem s.hlhead xs) (hx : x ∈ xs) (expired : Timeval) :
    ∃ s', s.setExpired x.1 expired = some s' ∧ s'.hlhead = s.hlhead ∧
      Path s'.mem s'.hlhead
        (xs.map fun y => if y.1 = x.1 then (y.1, { x.2 with expired := expired }) else y) ∧
      ∀ a ∉ xs.map Prod.fst, s'.mem a = s.mem a := by
  obtain ⟨next, hmem, hpath⟩ := h.update hx { x.2 with expired := expired }
  refine ⟨s.write x.1 ⟨{ x.2 with expired := expired }, next⟩, ?_, rfl, hpath, fun a ha => ?_⟩
  · rw [setExpired, hmem]
    rfl
  · refine Function.update_of_ne ?_ ..
    rintro rfl
    exact ha (List.mem_map_of_mem hx)

/-- It keeps addresses and ports. -/
theorem distinct_setExpired (h : Path s.mem s.hlhead xs) (hx : x ∈ xs) (expired : Timeval)
    (hdistinct : Distinct xs) :
    Distinct (xs.map fun y => if y.1 = x.1 then (y.1, { x.2 with expired := expired }) else y) := by
  rw [Distinct, List.map_map, List.map_congr_left]
  · exact hdistinct
  · intro y hy
    show (fun x : ℕ × Lease => (x.2.host, x.2.port)) (if y.1 = x.1 then _ else y) = _
    split_ifs with heq
    · have hyx : y = x := List.inj_on_of_nodup_map h.nodup hy hx heq
      rw [hyx]
    · rfl

/-- **A new entry** is behind the others. -/
theorem serverAddLeaseEntry_eq (h : Path s.mem s.hlhead xs) (hturns : xs.length ≤ turns)
    {fresh : ℕ} (hfresh : s.mem fresh = none) (host port : UInt32) :
    ∃ s', serverAddLeaseEntry turns s host port fresh = some (fresh, s') ∧
      Path s'.mem s'.hlhead (xs ++ [(fresh, ⟨host, port, ⟨0, 0⟩⟩)]) ∧
      ∀ a ∉ (xs ++ [(fresh, (⟨host, port, ⟨0, 0⟩⟩ : Lease))]).map Prod.fst, s'.mem a = s.mem a := by
  rw [serverAddLeaseEntry, if_neg (by simp [hfresh])]
  rcases List.eq_nil_or_concat' xs with rfl | ⟨before, x, rfl⟩
  · rw [show s.hlhead = none from h]
    refine ⟨_, rfl, ⟨rfl, none, Function.update_self .., rfl⟩, fun a ha => ?_⟩
    exact Function.update_of_ne (by simpa using ha) ..
  · have hlt : before.length < turns := by
      rw [List.length_append, List.length_singleton] at hturns
      exact hturns
    obtain ⟨hseek, hmem⟩ := h.seek_last hlt
    obtain ⟨p, hp⟩ : ∃ p, s.hlhead = some p := by
      rcases before with - | ⟨y, before⟩
      · exact ⟨x.1, h.1⟩
      · exact ⟨y.1, h.1⟩
    rw [hp] at hseek
    simp only [hp, hseek, setNext, hmem, Option.bind_eq_bind, Option.bind_some, Option.map_some]
    refine ⟨_, rfl, ?_, fun a ha => ?_⟩
    · rw [List.append_assoc]
      exact h.append hfresh _
    · have hne : a ≠ fresh ∧ a ≠ x.1 := by
        constructor
        · rintro rfl
          simp at ha
        · rintro rfl
          simp at ha
      exact (Function.update_of_ne hne.1 ..).trans (Function.update_of_ne hne.2 ..)

theorem serverFindLeaseEntry_eq (h : Path s.mem s.hlhead xs) (hturns : xs.length ≤ turns)
    (host port : UInt32) : serverFindLeaseEntry turns s host port
      = some ((xs.find? fun x => x.2.host = host && x.2.port = port).map Prod.fst) :=
  h.seek (q := fun l : Lease => l.host = host && l.port = port) hturns

/-- **A client that is not in the list** is added to its end. -/
theorem addStep_new (h : Path s.mem s.hlhead xs) (hturns : xs.length ≤ turns) {c : AddCall}
    (hnew : ∀ x ∈ xs, (x.2.host, x.2.port) ≠ (c.host, c.port)) (hfresh : s.mem c.fresh = none) :
    ∃ s', addStep turns s c = some s' ∧
      Path s'.mem s'.hlhead (xs ++ [(c.fresh, ⟨c.host, c.port, leaseEnd c.now⟩)]) ∧
      ∀ a ∉ (xs ++ [(c.fresh, (⟨c.host, c.port, ⟨0, 0⟩⟩ : Lease))]).map Prod.fst,
        s'.mem a = s.mem a := by
  obtain ⟨s₁, hentry, hpath₁, hframe₁⟩ := serverAddLeaseEntry_eq h hturns hfresh c.host c.port
  have hmem : (c.fresh, ⟨c.host, c.port, ⟨0, 0⟩⟩) ∈
      xs ++ [(c.fresh, (⟨c.host, c.port, ⟨0, 0⟩⟩ : Lease))] := by simp
  obtain ⟨s₂, hset, -, hpath₂, hframe₂⟩ := setExpired_eq hpath₁ hmem (leaseEnd c.now)
  have hnone : (xs.find? fun x => x.2.host = c.host && x.2.port = c.port) = none := by
    refine List.find?_eq_none.mpr fun x hx hfound => hnew x hx ?_
    rw [Bool.and_eq_true, decide_eq_true_iff, decide_eq_true_iff] at hfound
    rw [hfound.1, hfound.2]
  have hothers : ∀ y ∈ xs, y.1 ≠ c.fresh := by
    rintro y hy hfreshy
    have hthere := h.isSome (List.mem_map_of_mem hy)
    rw [hfreshy, hfresh] at hthere
    cases hthere
  refine ⟨s₂, ?_, ?_, fun a ha => (hframe₂ a ha).trans (hframe₁ a ha)⟩
  · rw [HostList.addStep, serverAddClient, serverFindLeaseEntry_eq h hturns, hnone]
    simp only [Option.map_none, Option.bind_eq_bind, Option.bind_some, hentry]
    exact hset
  · have hmap : (xs.map fun y => if y.1 = c.fresh then
        (y.1, (⟨c.host, c.port, leaseEnd c.now⟩ : Lease)) else y) = xs :=
      (List.map_congr_left fun y hy => if_neg (hothers y hy)).trans (List.map_id xs)
    rw [List.map_append, List.map_singleton, if_pos rfl, hmap] at hpath₂
    exact hpath₂

/-- More turns make no difference. -/
theorem addStep_mono {c : AddCall} {turns' : ℕ} (h : addStep turns s c = some s')
    (hle : turns ≤ turns') : addStep turns' s c = some s' := by
  obtain ⟨found, hfind, h⟩ := Option.bind_eq_some_iff.mp h
  rw [HostList.addStep, serverAddClient, serverFindLeaseEntry, seek_mono hfind hle,
    Option.bind_eq_bind, Option.bind_some]
  cases found with
  | some lease => exact h
  | none =>
    obtain ⟨entry, hentry, hset⟩ := Option.bind_eq_some_iff.mp h
    refine Option.bind_eq_some_iff.mpr ⟨entry, ?_, hset⟩
    rw [serverAddLeaseEntry] at hentry ⊢
    split_ifs at hentry ⊢
    cases hhead : s.hlhead with
    | none =>
      simp only [hhead] at hentry ⊢
      exact hentry
    | some p =>
      simp only [hhead] at hentry ⊢
      obtain ⟨last, hlast, hentry⟩ := Option.bind_eq_some_iff.mp hentry
      exact Option.bind_eq_some_iff.mpr ⟨last, seek_mono hlast hle, hentry⟩

/-- **Adding a client** keeps the list one of different clients. -/
theorem Represents.addStep (h : s.Represents xs) {c : AddCall}
    (hadd : addStep turns s c = some s') : ∃ xs', s'.Represents xs' := by
  obtain ⟨hpath, hdistinct⟩ := h
  -- with more turns the same happens
  have hturns : xs.length ≤ turns + xs.length := Nat.le_add_left _ _
  replace hadd := addStep_mono hadd (Nat.le_add_right turns xs.length)
  rcases hfound : xs.find? fun x => x.2.host = c.host && x.2.port = c.port with - | x
  · have hnew : ∀ x ∈ xs, (x.2.host, x.2.port) ≠ (c.host, c.port) := by
      intro x hx heq
      have hnot := List.find?_eq_none.mp hfound x hx
      simp [(Prod.mk.inj heq).1, (Prod.mk.inj heq).2] at hnot
    by_cases hfresh : s.mem c.fresh = none
    · obtain ⟨s₂, hstep, hpath₂, -⟩ := addStep_new hpath hturns hnew hfresh
      obtain rfl : s₂ = s' := Option.some.inj (hstep.symm.trans hadd)
      refine ⟨_, hpath₂, ?_⟩
      rw [Distinct, List.map_append]
      refine List.nodup_append.mpr ⟨hdistinct, List.nodup_singleton _, ?_⟩
      intro key hkey key' hkey' heq
      obtain ⟨y, hy, rfl⟩ := List.mem_map.mp hkey
      exact hnew y hy (heq.trans (List.mem_singleton.mp hkey'))
    · rw [HostList.addStep, serverAddClient, serverFindLeaseEntry_eq hpath hturns, hfound,
        serverAddLeaseEntry, if_pos (Option.isSome_iff_ne_none.mpr hfresh)] at hadd
      cases hadd
  · have hmem := List.mem_of_find?_eq_some hfound
    obtain ⟨s₂, hset, -, hpath₂, -⟩ := setExpired_eq hpath hmem (leaseEnd c.now)
    rw [HostList.addStep, serverAddClient, serverFindLeaseEntry_eq hpath hturns, hfound] at hadd
    obtain rfl : s₂ = s' := Option.some.inj (hset.symm.trans hadd)
    exact ⟨_, hpath₂, distinct_setExpired hpath hmem _ hdistinct⟩

theorem represents_empty : empty.Represents [] := ⟨rfl, List.nodup_nil⟩

/-- **Whatever clients are added**, the list is one of different clients. -/
theorem represented_of_run (h : exec (HostList.addStep turns) empty calls = some s) :
    ∃ xs, s.Represents xs :=
  exec_invariant (I := fun s : HostList => ∃ xs, s.Represents xs) (C := fun _ _ => True)
    (fun _ _ _ ⟨_, hs⟩ _ hstep => hs.addStep hstep) ⟨[], represents_empty⟩ (along_trivial _ _) h

/-! ## Renewing a lease -/

/-- The first entry with the address of the sender. -/
def firstAt (sender : Sender) (xs : List (ℕ × Lease)) : Option (ℕ × Lease) :=
  xs.find? fun x => sender.host = x.2.host

/-- The entries after the lease of the first one with the address of the sender has been renewed. -/
def firstRenewed (sender : Sender) (expired : Timeval) (xs : List (ℕ × Lease)) :
    List (ℕ × Lease) :=
  match firstAt sender xs with
  | none => xs
  | some x => xs.map fun y => if y.1 = x.1 then (y.1, { x.2 with expired := expired }) else y

/-- **What `serverUpdateClient` does**: it renews the lease of the first entry with the address of
the sender. -/
theorem serverUpdateClient_eq (h : Path s.mem s.hlhead xs) (sender : Sender) (now : Timeval)
    (hturns : xs.length ≤ turns) :
    ∃ s', serverUpdateClient turns s (some sender) now = some (true, s') ∧ s'.hlhead = s.hlhead ∧
      Path s'.mem s'.hlhead (firstRenewed sender (leaseEnd now) xs) ∧
      ∀ a ∉ xs.map Prod.fst, s'.mem a = s.mem a := by
  have hseek : seek s.mem (fun cell => sender.host = cell.value.host) turns s.hlhead
      = some ((firstAt sender xs).map Prod.fst) :=
    h.seek (q := fun l : Lease => sender.host = l.host) hturns
  rw [firstRenewed]
  rcases hfound : firstAt sender xs with - | x
  · refine ⟨s, ?_, rfl, h, fun _ _ => rfl⟩
    rw [serverUpdateClient, hseek, hfound]
    rfl
  · obtain ⟨s', hset, hhead, hpath, hframe⟩ :=
      setExpired_eq h (List.mem_of_find?_eq_some hfound) (leaseEnd now)
    refine ⟨s', ?_, hhead, hpath, hframe⟩
    rw [serverUpdateClient, hseek, hfound, Option.map_some, Option.bind_eq_bind, Option.bind_some]
    simp only [hset, Option.map_some]

/-- So the lease of the sender is renewed, and nothing else happens, if these are the entries that
there should be. -/
theorem renewsSender_iff_eq (h : Path s.mem s.hlhead xs) : RenewsSender s xs sender now ↔
    firstRenewed sender (leaseEnd now) xs = xs.map (renewed sender (leaseEnd now)) := by
  constructor
  · rintro ⟨enough, hrenews⟩
    obtain ⟨t, ht, -, hlist, -⟩ := hrenews (enough + xs.length) (Nat.le_add_right _ _)
    obtain ⟨s', hupdate, -, hpath, -⟩ :=
      serverUpdateClient_eq h sender now (Nat.le_add_left xs.length enough)
    rw [hupdate, Option.some.injEq, Prod.mk.injEq] at ht
    rw [← ht.2] at hlist
    exact hpath.det hlist
  · refine fun heq => ⟨xs.length, fun turns hturns => ?_⟩
    obtain ⟨s', hupdate, hhead, hpath, hframe⟩ := serverUpdateClient_eq h sender now hturns
    exact ⟨s', hupdate, hhead, heq ▸ hpath, hframe⟩

/-- The first entry with the address of the sender, if any, is that of the sender; or it expires at
the time to which it is set, and so does that of the sender, if any. -/
def FirstIsSender (xs : List (ℕ × Lease)) (sender : Sender) (now : Timeval) : Prop :=
  ∀ x, firstAt sender xs = some x → x.2.isOf sender = true ∨
    x.2.expired = leaseEnd now ∧ ∀ y ∈ xs, y.2.isOf sender = true → y.2.expired = leaseEnd now

theorem Lease.isOf_iff {l : Lease} :
    l.isOf sender = true ↔ l.host = sender.host ∧ l.port = sender.port.toUInt32 := by
  rw [Lease.isOf, Bool.and_eq_true, decide_eq_true_iff, decide_eq_true_iff]

/-- Setting a lease to the time at which it expires changes nothing. -/
theorem expired_eq_iff {expired : Timeval} :
    (x.1, { x.2 with expired := expired }) = x ↔ x.2.expired = expired := by
  rcases x with ⟨a, host, port, e⟩
  simp [eq_comm]

/-- The entries that there are and those that there should be. -/
theorem firstRenewed_eq_iff (hnodup : (xs.map Prod.fst).Nodup) (hdistinct : Distinct xs) :
    firstRenewed sender (leaseEnd now) xs = xs.map (renewed sender (leaseEnd now)) ↔
      FirstIsSender xs sender now := by
  rw [firstRenewed, FirstIsSender]
  rcases hfound : firstAt sender xs with - | x
  · refine iff_of_true ?_ fun x hx => (by cases hx)
    refine ((List.map_congr_left fun y hy => ?_).trans (List.map_id xs)).symm
    have hnot : y.2.isOf sender ≠ true := fun hy' =>
      List.find?_eq_none.mp hfound y hy (decide_eq_true (Lease.isOf_iff.mp hy').1.symm)
    exact if_neg hnot
  · have hx := List.mem_of_find?_eq_some hfound
    have heq (y) (hy : y ∈ xs) : y.1 = x.1 ↔ y = x :=
      ⟨List.inj_on_of_nodup_map hnodup hy hx, fun h => h ▸ rfl⟩
    have honly (y) (hy : y ∈ xs) (hyof : y.2.isOf sender = true) (hxof : x.2.isOf sender = true) :
        y = x := by
      rw [Lease.isOf_iff] at hyof hxof
      exact List.inj_on_of_nodup_map hdistinct hy hx
        (Prod.ext (hyof.1.trans hxof.1.symm) (hyof.2.trans hxof.2.symm))
    simp only [List.map_inj_left, Option.some.injEq, forall_eq']
    constructor
    · intro h
      refine or_iff_not_imp_left.mpr fun hxof => ⟨?_, fun y hy hyof => ?_⟩
      · have hthis := h x hx
        rw [if_pos rfl, renewed, if_neg hxof] at hthis
        exact expired_eq_iff.mp hthis
      · have hne : y.1 ≠ x.1 := fun hyx => hxof ((heq y hy).mp hyx ▸ hyof)
        have hthis := h y hy
        rw [if_neg hne, renewed, if_pos hyof] at hthis
        exact expired_eq_iff.mp hthis.symm
    · intro h y hy
      by_cases hyx : y.1 = x.1
      · obtain rfl := (heq y hy).mp hyx
        rw [if_pos rfl, renewed]
        split_ifs with hyof
        · rfl
        · exact expired_eq_iff.mpr (h.resolve_left hyof).1
      · rw [if_neg hyx, renewed]
        split_ifs with hyof
        · rcases h with hxof | ⟨-, h⟩
          · exact absurd (honly y hy hyof hxof) fun hyx' => hyx (hyx' ▸ rfl)
          · exact (expired_eq_iff.mpr (h y hy hyof)).symm
        · rfl

/-- **When the lease of the sender is renewed**, and nothing else happens: the first entry with its
address is its own, or nothing would change. -/
theorem renewsSender_iff (hrun : exec (HostList.addStep turns) empty calls = some s)
    (hxs : Path s.mem s.hlhead xs) :
    RenewsSender s xs sender now ↔ FirstIsSender xs sender now := by
  obtain ⟨ys, hpath, hdistinct⟩ := represented_of_run hrun
  obtain rfl : xs = ys := hxs.det hpath
  rw [renewsSender_iff_eq hxs, firstRenewed_eq_iff hxs.nodup hdistinct]

/-- Two clients at one address are added. -/
def twoClients : List AddCall := [⟨1, 5000, ⟨0, 0⟩, 0⟩, ⟨1, 5001, ⟨0, 0⟩, 1⟩]

theorem exec_twoClients : ∃ s, exec (HostList.addStep 1) empty twoClients = some s ∧
    Path s.mem s.hlhead [(0, ⟨1, 5000, ⟨540, 0⟩⟩), (1, ⟨1, 5001, ⟨540, 0⟩⟩)] := by
  obtain ⟨s₁, hfirst, hpath₁, hframe₁⟩ :=
    @addStep_new empty 1 [] represents_empty.1 (by simp) ⟨1, 5000, ⟨0, 0⟩, 0⟩ (by simp) rfl
  obtain ⟨s₂, hsecond, hpath₂, -⟩ :=
    @addStep_new s₁ 1 _ hpath₁ (by simp) ⟨1, 5001, ⟨0, 0⟩, 1⟩ (by simp) (hframe₁ 1 (by simp))
  refine ⟨s₂, ?_, hpath₂⟩
  rw [twoClients, exec_cons, hfirst, Option.bind_some, exec_cons, hsecond]
  rfl

/-- **The second client at an address** is still alive: the lease of the first is renewed. -/
theorem not_renewsSender_second : ∃ s xs, exec (HostList.addStep 1) empty twoClients = some s ∧
    Path s.mem s.hlhead xs ∧ ¬ RenewsSender s xs ⟨1, 5001⟩ ⟨100, 0⟩ := by
  obtain ⟨s, hrun, hpath⟩ := exec_twoClients
  refine ⟨s, _, hrun, hpath, fun h => ?_⟩
  exact absurd ((renewsSender_iff_eq hpath).mp h) (by decide)

/-- The first client is. -/
theorem renewsSender_first : ∃ s xs, exec (HostList.addStep 1) empty twoClients = some s ∧
    Path s.mem s.hlhead xs ∧ RenewsSender s xs ⟨1, 5000⟩ ⟨100, 0⟩ := by
  obtain ⟨s, hrun, hpath⟩ := exec_twoClients
  refine ⟨s, _, hrun, hpath, (renewsSender_iff hrun hpath).mpr fun x hx => .inl ?_⟩
  obtain rfl : _ = x := Option.some.inj hx
  rfl

end HostList

end Peep
