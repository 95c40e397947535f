import Mathlib.Data.Option.Basic
import Peep.Library.Expiring
import Peep.Server.Leases

/-!
# The leases of the clients, from one alarm to the next

What the UDP server does with the list of its clients: client broadcasts add clients and renew their
leases (`serverAddClient`), still-alive packets renew leases (`serverUpdateClient`), and every 270
seconds the alarm purges the list (`serverPurgeHostList`). A lease is 540 seconds, and new clients
come to the end of the list. So the list is in the order in which the leases expire, and purging it
takes entries from its front only, until a lease is renewed that is not the last one.

`LeaseTable` says what the list is for, without addresses: a list of leases, in which the first
lease of an address is renewed. It has no step where `serverPurgeHostList` reads an entry that has
been freed.

## Choices

A clock that is asked later does not say that it is earlier. The alarm does not come while the list
is being changed. A new entry is at the next address. The messages that are sent to the clients are
in `Peep.Autodiscovery`.

## Main results

* `leaseServer_refines` — the list in memory is that list of leases, in every run
* `idles_iff` — when no alarm can do any harm, whenever it comes
* `leaseTable_survives` — runs in which it cannot
* `alarm_crashes` — a client with two sockets crashes the server
-/

namespace Peep

open SinglyLinked StepSystem Expiring

/-! ## The server -/

/-- What happens to the leases. -/
inductive LeaseAct
  /-- Time passes. -/
  | tick (seconds : ℕ)
  /-- A broadcast of a client is received, `serverAddClient`. -/
  | add (host port : UInt32)
  /-- A client is still alive, `serverUpdateClient`. -/
  | alive (sender : Sender)
  /-- The alarm goes off, `serverHandleAlarm`. -/
  | alarm

/-- The list of a server, the time, and the address of the next entry. -/
structure LeaseServer where
  /-- The list. -/
  list : HostList
  /-- The time. -/
  now : Timeval
  /-- The next address. -/
  fresh : ℕ

/-- The time some seconds later. -/
def Timeval.later (t : Timeval) (seconds : ℕ) : Timeval := { t with tvSec := t.tvSec + seconds }

/-- One step of the server, with loops of so many turns. -/
def LeaseServer.step (turns : ℕ) (s : LeaseServer) : LeaseAct → Option LeaseServer
  | .tick seconds => some { s with now := s.now.later seconds }
  | .add host port =>
    (s.list.serverAddClient turns host port s.now s.fresh).map fun list =>
      { s with list := list, fresh := s.fresh + 1 }
  | .alive sender =>
    (s.list.serverUpdateClient turns (some sender) s.now).map fun r => { s with list := r.2 }
  | .alarm => (s.list.serverPurgeHostList s.now turns).map fun list => { s with list := list }

/-- A server that has just been started. -/
def LeaseServer.start (now : Timeval) : LeaseServer := ⟨HostList.empty, now, 0⟩

/-! ## The leases -/

/-- The leases of a server, and the time. -/
structure LeaseTable where
  /-- The leases. -/
  leases : List Lease
  /-- The time. -/
  now : Timeval

/-- When a lease expires, in seconds. -/
def Lease.seconds (l : Lease) : ℤ := l.expired.tvSec

/-- The lease with that address and port. -/
def Lease.isAt (host port : UInt32) (l : Lease) : Bool := l.host = host && l.port = port

/-- The lease from now on. -/
def Lease.renew (now : Timeval) (l : Lease) : Lease := { l with expired := leaseEnd now }

/-- A client is added, or its lease renewed. -/
def addLease (now : Timeval) (host port : UInt32) (leases : List Lease) : List Lease :=
  if leases.any (Lease.isAt host port) then
    renewFirst (Lease.isAt host port) (Lease.renew now) leases
  else leases ++ [⟨host, port, leaseEnd now⟩]

/-- The first lease of an address is renewed. -/
def renewLease (now : Timeval) (sender : Sender) (leases : List Lease) : List Lease :=
  renewFirst (fun l => sender.host = l.host) (Lease.renew now) leases

/-- One step of the leases. -/
def LeaseTable.step (t : LeaseTable) : LeaseAct → Option LeaseTable
  | .tick seconds => some { t with now := t.now.later seconds }
  | .add host port => some { t with leases := addLease t.now host port t.leases }
  | .alive sender => some { t with leases := renewLease t.now sender t.leases }
  | .alarm =>
    if Sweepable Lease.seconds t.now.tvSec t.leases then
      some { t with leases := sweep Lease.seconds t.now.tvSec t.leases }
    else none

/-- No client is known. -/
def LeaseTable.start (now : Timeval) : LeaseTable := ⟨[], now⟩

/-- A client that is not known is added to the end of the leases. -/
theorem LeaseTable.step_add (t : LeaseTable) (host port : UInt32)
    (h : ∀ l ∈ t.leases, l.host = host → l.port ≠ port) :
    t.step (.add host port)
      = some { t with leases := t.leases ++ [⟨host, port, leaseEnd t.now⟩] } := by
  have hany : ¬ t.leases.any (Lease.isAt host port) = true := by
    intro hany
    obtain ⟨l, hl, hat⟩ := List.any_eq_true.mp hany
    rw [Lease.isAt, Bool.and_eq_true, decide_eq_true_iff, decide_eq_true_iff] at hat
    exact h l hl hat.1 hat.2
  rw [LeaseTable.step, addLease, if_neg hany]

/-! ## Refinement -/

/-- The list in memory is that list of leases, and `n` more steps can be done. -/
def Refines (turns n : ℕ) (s : LeaseServer) (t : LeaseTable) : Prop :=
  s.now = t.now ∧ t.leases.length + n ≤ turns ∧ (∀ a, s.fresh ≤ a → s.list.mem a = none) ∧
    ∃ xs, Path s.list.mem s.list.hlhead xs ∧ xs.map Prod.snd = t.leases

namespace HostList

variable {s : HostList} {turns : ℕ} {xs : List (ℕ × Lease)} {current now : Timeval} {x : ℕ × Lease}

theorem sweepable_map_iff : Sweepable Lease.seconds current.tvSec (xs.map Prod.snd) ↔
    ∀ y ∈ xs.dropWhile fun x => x.2.hasExpired current, y.2.hasExpired current = false := by
  rw [Sweepable, List.pairwise_map,
    ← pairwise_iff_dropWhile (fun x : ℕ × Lease => x.2.hasExpired current) xs]
  simp [Lease.hasExpired, Lease.seconds]

/-- The entries at the front of a list that have expired, and the others. -/
theorem exists_front (current : Timeval) (xs : List (ℕ × Lease)) : ∃ front rest,
    front ++ rest = xs ∧ rest = xs.dropWhile (fun x => x.2.hasExpired current) ∧
      (∀ x ∈ front, x.2.hasExpired current = true) ∧
      ∀ x ∈ rest.head?, x.2.hasExpired current = false := by
  refine ⟨xs.takeWhile fun x => x.2.hasExpired current, _, List.takeWhile_append_dropWhile, rfl,
    fun x hx => ?_, fun x hx => ?_⟩
  · exact List.mem_takeWhile_imp (p := fun x : ℕ × Lease => x.2.hasExpired current) hx
  · have hhead := List.head?_dropWhile_not (fun x : ℕ × Lease => x.2.hasExpired current) xs
    rw [Option.mem_def.mp hx] at hhead
    simpa using hhead

/-- **Purging a list** whose expired entries are all at its front. -/
theorem purge_of_sweepable (h : Path s.mem s.hlhead xs) (hturns : xs.length ≤ turns)
    (hsweep : Sweepable Lease.seconds current.tvSec (xs.map Prod.snd)) :
    ∃ s', serverPurgeHostList current turns s = some s' ∧
      Path s'.mem s'.hlhead (xs.filter fun x => !x.2.hasExpired current) ∧
      ∀ a ∉ xs.map Prod.fst, s'.mem a = s.mem a := by
  obtain ⟨front, rest, rfl, hrest, hfront, -⟩ := exists_front current xs
  rw [sweepable_map_iff, ← hrest] at hsweep
  have hkept : (front ++ rest).filter (fun x => !x.2.hasExpired current) = rest := by
    rw [List.filter_append, List.filter_eq_nil_iff.mpr fun x hx => by simp [hfront x hx],
      List.filter_eq_self.mpr fun x hx => by simp [hsweep x hx], List.nil_append]
  obtain ⟨s', hloop, hpath, -, -, hframe⟩ := purgeLoop_front (q := none) h hfront
  rw [List.length_append] at hturns
  refine ⟨s', ?_, ?_, fun a ha => hframe a fun hmem => ha (by simp [hmem])⟩
  · obtain ⟨more, rfl⟩ := Nat.exists_eq_add_of_le' (Nat.le_of_add_right_le hturns)
    rw [serverPurgeHostList, hloop]
    exact purgeLoop_live hpath hsweep (by omega)
  · rwa [hkept]

/-- **Otherwise** an entry is read that has been freed. -/
theorem purge_of_not_sweepable (h : Path s.mem s.hlhead xs) (hturns : xs.length ≤ turns)
    (hsweep : ¬ Sweepable Lease.seconds current.tvSec (xs.map Prod.snd)) :
    serverPurgeHostList current turns s = none := by
  obtain ⟨front, rest, rfl, hrest, hfront, hhead⟩ := exists_front current xs
  rw [sweepable_map_iff, ← hrest] at hsweep
  push Not at hsweep
  obtain ⟨z, hz, hexpired⟩ := hsweep
  obtain ⟨s', hloop, hpath, -, -, -⟩ := purgeLoop_front (q := none) h hfront
  cases rest with
  | nil => cases hz
  | cons y rest =>
    have hy : y.2.hasExpired current = false := hhead y rfl
    have hbehind : z ∈ rest := List.mem_of_ne_of_mem (fun heq => hexpired (heq ▸ hy)) hz
    rw [List.length_append, List.length_cons] at hturns
    obtain ⟨more, rfl⟩ := Nat.exists_eq_add_of_le' (show front.length + 1 ≤ turns by omega)
    rw [serverPurgeHostList, ← add_assoc, add_right_comm, hloop]
    exact purgeLoop_head_live hpath hy ⟨z, hbehind, by simpa using hexpired⟩ more

/-- The entry that is renewed, without its address. -/
theorem map_snd_renewFirst {p : Lease → Bool} {f : Lease → Lease} (hnodup : (xs.map Prod.fst).Nodup)
    (hfound : xs.find? (fun y => p y.2) = some x) :
    (xs.map fun y => if y.1 = x.1 then (y.1, f x.2) else y).map Prod.snd
      = renewFirst p f (xs.map Prod.snd) := by
  induction xs with
  | nil => cases hfound
  | cons y xs ih =>
    obtain ⟨hy, hnodup⟩ := List.nodup_cons.mp hnodup
    by_cases hp : p y.2 = true
    · rw [List.find?_cons_of_pos (p := fun y : ℕ × Lease => p y.2) hp] at hfound
      obtain rfl := Option.some.inj hfound
      have hothers : ∀ z ∈ xs, (if z.1 = y.1 then (z.1, f y.2) else z) = z := by
        intro z hz
        refine if_neg fun heq => hy ?_
        rw [← heq]
        exact List.mem_map_of_mem hz
      rw [List.map_cons, List.map_cons, List.map_cons, if_pos rfl, renewFirst_cons_of_pos hp,
        List.map_congr_left hothers, List.map_id']
    · rw [List.find?_cons_of_neg (p := fun y : ℕ × Lease => p y.2) hp] at hfound
      have hne : y.1 ≠ x.1 := by
        intro heq
        rw [heq] at hy
        exact hy (List.mem_map_of_mem (List.mem_of_find?_eq_some hfound))
      rw [List.map_cons, List.map_cons, List.map_cons, if_neg hne,
        renewFirst_cons_of_neg (by simpa using hp), ih hnodup hfound]

/-- A lease is renewed, at the address that was found. -/
theorem exists_setExpired {p : Lease → Bool} (h : Path s.mem s.hlhead xs)
    (hfound : xs.find? (fun y => p y.2) = some x) (now : Timeval) :
    ∃ s' ys, s.setExpired x.1 (leaseEnd now) = some s' ∧ Path s'.mem s'.hlhead ys ∧
      ys.map Prod.snd = renewFirst p (Lease.renew now) (xs.map Prod.snd) ∧
      ∀ a ∉ xs.map Prod.fst, s'.mem a = s.mem a := by
  obtain ⟨s', hset, -, hpath, hframe⟩ :=
    setExpired_eq h (List.mem_of_find?_eq_some hfound) (leaseEnd now)
  exact ⟨s', _, hset, hpath, map_snd_renewFirst (f := Lease.renew now) h.nodup hfound, hframe⟩

end HostList

open HostList

variable {turns n : ℕ} {s : LeaseServer} {t : LeaseTable} {xs : List (ℕ × Lease)}
  {host port : UInt32} {sender : Sender}

/-- The addresses that come next are not those of entries. -/
theorem fresh_notMem {a : ℕ} (h : Path s.list.mem s.list.hlhead xs)
    (hfresh : ∀ a, s.fresh ≤ a → s.list.mem a = none) (ha : s.fresh ≤ a) :
    a ∉ xs.map Prod.fst := by
  intro hmem
  have hthere := h.isSome hmem
  rw [hfresh a ha] at hthere
  cases hthere

/-- **Adding a client.** -/
theorem refines_add (h : Refines turns (n + 1) s t) (host port : UInt32) :
    Option.Rel (Refines turns n) (s.step turns (.add host port)) (t.step (.add host port)) := by
  obtain ⟨hnow, hturns, hfresh, xs, hpath, hleases⟩ := h
  have hlength : xs.length ≤ turns := by
    rw [← hleases, List.length_map] at hturns
    omega
  rw [LeaseServer.step, LeaseTable.step, addLease]
  rcases hfound : xs.find? fun x => Lease.isAt host port x.2 with - | x
  · have hnone : ∀ x ∈ xs, ¬ Lease.isAt host port x.2 = true := List.find?_eq_none.mp hfound
    have hany : t.leases.any (Lease.isAt host port) ≠ true := by
      rw [← hleases]
      simpa using hnone
    have hnew : ∀ x ∈ xs, (x.2.host, x.2.port) ≠ (host, port) := by
      intro x hx heq
      obtain ⟨hhost, hport⟩ := Prod.mk.inj heq
      exact hnone x hx (by simp [Lease.isAt, hhost, hport])
    obtain ⟨s', hadd, hpath', hframe⟩ :=
      addStep_new (c := ⟨host, port, s.now, s.fresh⟩) hpath hlength hnew (hfresh _ le_rfl)
    rw [if_neg hany, show s.list.serverAddClient turns host port s.now s.fresh = some s' from hadd]
    refine .some ⟨hnow, ?_, fun a ha => ?_, _, hpath', ?_⟩
    · rw [List.length_append, List.length_singleton]
      omega
    · have hle : s.fresh ≤ a := Nat.le_of_succ_le ha
      rw [hframe a ?_, hfresh a hle]
      rw [List.map_append, List.mem_append, not_or]
      exact ⟨fresh_notMem hpath hfresh hle, by simpa using Nat.ne_of_gt ha⟩
    · rw [List.map_append, hleases, ← hnow]
      rfl
  · have hany : t.leases.any (Lease.isAt host port) = true := by
      rw [← hleases, List.any_eq_true]
      refine ⟨x.2, List.mem_map_of_mem (List.mem_of_find?_eq_some hfound), ?_⟩
      exact List.find?_some (p := fun x : ℕ × Lease => Lease.isAt host port x.2) hfound
    obtain ⟨s', ys, hset, hpath', hys, hframe⟩ := exists_setExpired hpath hfound s.now
    have hadd : s.list.serverAddClient turns host port s.now s.fresh = some s' := by
      rw [serverAddClient, serverFindLeaseEntry_eq hpath hlength,
        show (xs.find? fun x => x.2.host = host && x.2.port = port) = some x from hfound]
      exact hset
    rw [if_pos hany, hadd]
    refine .some ⟨hnow, ?_, fun a ha => ?_, ys, hpath', ?_⟩
    · rw [length_renewFirst]
      omega
    · have hle : s.fresh ≤ a := Nat.le_of_succ_le ha
      rw [hframe a (fresh_notMem hpath hfresh hle), hfresh a hle]
    · rw [hys, hleases, hnow]

/-- **A client is still alive.** -/
theorem refines_alive (h : Refines turns (n + 1) s t) (sender : Sender) :
    Option.Rel (Refines turns n) (s.step turns (.alive sender)) (t.step (.alive sender)) := by
  obtain ⟨hnow, hturns, hfresh, xs, hpath, hleases⟩ := h
  have hlength : xs.length ≤ turns := by
    rw [← hleases, List.length_map] at hturns
    omega
  have hseek : seek s.list.mem (fun cell => sender.host = cell.value.host) turns s.list.hlhead
      = some ((xs.find? fun x => sender.host = x.2.host).map Prod.fst) :=
    hpath.seek (q := fun l : Lease => sender.host = l.host) hlength
  rw [LeaseServer.step, LeaseTable.step, renewLease]
  rcases hfound : xs.find? fun x => sender.host = x.2.host with - | x
  · have hsame : renewFirst (fun l => sender.host = l.host) (Lease.renew t.now) t.leases
        = t.leases := by
      refine renewFirst_of_forall fun l hl => ?_
      rw [← hleases] at hl
      obtain ⟨x, hx, rfl⟩ := List.mem_map.mp hl
      simpa using List.find?_eq_none.mp hfound x hx
    have hupdate : s.list.serverUpdateClient turns (some sender) s.now = some (true, s.list) := by
      rw [serverUpdateClient, hseek, hfound]
      rfl
    rw [hsame, hupdate]
    exact .some ⟨hnow, Nat.le_of_succ_le hturns, hfresh, xs, hpath, hleases⟩
  · obtain ⟨s', ys, hset, hpath', hys, hframe⟩ :=
      exists_setExpired (p := fun l => sender.host = l.host) hpath hfound s.now
    have hupdate : s.list.serverUpdateClient turns (some sender) s.now = some (true, s') := by
      rw [serverUpdateClient, hseek, hfound]
      simp [hset]
    rw [hupdate]
    refine .some ⟨hnow, ?_, fun a ha => ?_, ys, hpath', ?_⟩
    · rw [length_renewFirst]
      omega
    · rw [hframe a (fresh_notMem hpath hfresh ha), hfresh a ha]
    · rw [hys, hleases, hnow]

/-- **The alarm.** -/
theorem refines_alarm (h : Refines turns (n + 1) s t) :
    Option.Rel (Refines turns n) (s.step turns .alarm) (t.step .alarm) := by
  obtain ⟨hnow, hturns, hfresh, xs, hpath, hleases⟩ := h
  have hlength : xs.length ≤ turns := by
    rw [← hleases, List.length_map] at hturns
    omega
  rw [LeaseServer.step, LeaseTable.step, ← hnow, ← hleases]
  by_cases hsweep : Sweepable Lease.seconds s.now.tvSec (xs.map Prod.snd)
  · obtain ⟨s', hpurge, hpath', hframe⟩ := purge_of_sweepable hpath hlength hsweep
    have hkept : (xs.filter fun x => !x.2.hasExpired s.now).map Prod.snd
        = sweep Lease.seconds s.now.tvSec (xs.map Prod.snd) := by
      rw [sweep, List.filter_map]
      exact congrArg (List.map Prod.snd) (List.filter_congr fun x _ => decide_not.symm)
    rw [if_pos hsweep, hpurge]
    refine .some ⟨rfl, ?_, fun a ha => ?_, _, hpath', hkept⟩
    · have hshorter : (sweep Lease.seconds s.now.tvSec (xs.map Prod.snd)).length
          ≤ (xs.map Prod.snd).length := List.length_filter_le _ _
      rw [hleases] at hshorter ⊢
      show (sweep Lease.seconds s.now.tvSec t.leases).length + n ≤ turns
      omega
    · rw [hframe a (fresh_notMem hpath hfresh ha), hfresh a ha]
  · rw [if_neg hsweep, purge_of_not_sweepable hpath hlength hsweep]
    exact .none

/-- **Every step** does to the list in memory what it does to the leases. -/
theorem Refines.step (h : Refines turns (n + 1) s t) (act : LeaseAct) :
    Option.Rel (Refines turns n) (s.step turns act) (t.step act) := by
  cases act with
  | tick seconds =>
    obtain ⟨hnow, hturns, hfresh, hlist⟩ := h
    exact .some ⟨congrArg (fun now => now.later seconds) hnow, Nat.le_of_succ_le hturns, hfresh,
      hlist⟩
  | add host port => exact refines_add h host port
  | alive sender => exact refines_alive h sender
  | alarm => exact refines_alarm h

theorem exec_refines (now : Timeval) {acts : List LeaseAct} (hturns : acts.length ≤ turns) :
    Option.Rel (Refines turns 0) (exec (LeaseServer.step turns) (LeaseServer.start now) acts)
      (exec LeaseTable.step (LeaseTable.start now) acts) := by
  refine exec_rel (R := Refines turns) (fun _ _ _ act h => h.step act) acts ?_
  exact ⟨rfl, by simpa [LeaseTable.start] using hturns, fun _ _ => rfl, [], rfl, rfl⟩

/-- The server crashes where the leases have no step. -/
theorem exec_eq_none_iff (now : Timeval) {acts : List LeaseAct} (hturns : acts.length ≤ turns) :
    exec (LeaseServer.step turns) (LeaseServer.start now) acts = none ↔
      exec LeaseTable.step (LeaseTable.start now) acts = none := by
  have hrel := exec_refines now hturns
  revert hrel
  generalize exec (LeaseServer.step turns) (LeaseServer.start now) acts = s
  generalize exec LeaseTable.step (LeaseTable.start now) acts = t
  rintro (h | -)
  · simp
  · simp

/-- **The list in memory is the list of leases.** In every run, whatever clients are added and are
still alive, the server crashes exactly where the leases have no step; where a run ends, the list in
memory consists of the leases. -/
theorem leaseServer_refines (now : Timeval) (acts : List LeaseAct) (more : ℕ) :
    Option.Rel (fun s t => s.now = t.now ∧
        ∃ xs, Path s.list.mem s.list.hlhead xs ∧ xs.map Prod.snd = t.leases)
      (exec (LeaseServer.step (acts.length + more)) (LeaseServer.start now) acts)
      (exec LeaseTable.step (LeaseTable.start now) acts) := by
  have hrel := exec_refines now (Nat.le_add_right acts.length more)
  revert hrel
  generalize exec (LeaseServer.step _) (LeaseServer.start now) acts = s
  generalize exec LeaseTable.step (LeaseTable.start now) acts = t
  rintro (⟨hnow, -, -, hlist⟩ | -)
  · exact .some ⟨hnow, hlist⟩
  · exact .none

/-! ## Alarms that come later -/

/-- Nothing is received. -/
def LeaseAct.IsIdle : LeaseAct → Prop
  | .tick _ | .alarm => True
  | .add _ _ | .alive _ => False

/-- Whenever the alarm comes, it does no harm while nothing is received. -/
def LeaseTable.Idles (t : LeaseTable) : Prop :=
  ∀ acts, (∀ act ∈ acts, act.IsIdle) → exec LeaseTable.step t acts ≠ none

/-- The leases that have not expired expire in the order of the list. -/
def LeaseTable.Ordered (t : LeaseTable) : Prop := ExpiresInOrder Lease.seconds t.now.tvSec t.leases

instance (t : LeaseTable) : Decidable t.Ordered :=
  inferInstanceAs (Decidable (ExpiresInOrder _ _ _))

theorem Timeval.tvSec_later (now : Timeval) (seconds : ℕ) :
    (now.later seconds).tvSec = now.tvSec + seconds := rfl

/-- **Leases that are in order** stay in order while nothing is received. -/
theorem LeaseTable.Ordered.step (h : t.Ordered) {act : LeaseAct} (hidle : act.IsIdle) :
    ∃ t', t.step act = some t' ∧ t'.Ordered := by
  cases act with
  | tick seconds => exact ⟨_, rfl, ExpiresInOrder.mono h (by rw [Timeval.tvSec_later]; omega)⟩
  | alarm =>
    rw [LeaseTable.step, if_pos (ExpiresInOrder.sweepable h le_rfl)]
    exact ⟨_, rfl, ExpiresInOrder.sweep h _⟩
  | add host port => cases hidle
  | alive sender => cases hidle

theorem LeaseTable.Ordered.idles (h : t.Ordered) : t.Idles := by
  intro acts hidle
  induction acts generalizing t with
  | nil => simp
  | cons act acts ih =>
    obtain ⟨t', hstep, h'⟩ := h.step (hidle act (by simp))
    rw [exec_cons, hstep, Option.bind_some]
    exact ih h' fun a ha => hidle a (List.mem_cons_of_mem _ ha)

/-- **When no alarm can do any harm.** -/
theorem idles_iff_ordered : t.Idles ↔ t.Ordered := by
  refine ⟨fun h => sweepable_iff.mp fun later hlater => ?_, LeaseTable.Ordered.idles⟩
  obtain ⟨seconds, hseconds⟩ := Int.eq_ofNat_of_zero_le (sub_nonneg.mpr hlater)
  have hrun := h [.tick seconds, .alarm] (by simp [LeaseAct.IsIdle])
  by_contra hsweep
  have hnow : (t.now.later seconds).tvSec = later := by
    rw [Timeval.tvSec_later]
    omega
  rw [← hnow] at hsweep
  refine hrun ?_
  rw [exec_cons, LeaseTable.step, Option.bind_some, exec_cons, LeaseTable.step, if_neg hsweep]
  rfl

/-- No lease is longer than one that begins now. -/
def LeaseTable.Bounded (t : LeaseTable) : Prop :=
  ∀ l ∈ t.leases, l.seconds ≤ (leaseEnd t.now).tvSec

/-- Behind a lease that is renewed there are only such that were renewed in the same second. -/
def RenewsLast (t : LeaseTable) : LeaseAct → Prop
  | .add host port =>
    ∀ l ∈ behindFirst (Lease.isAt host port) t.leases, (leaseEnd t.now).tvSec ≤ l.seconds
  | .alive sender =>
    ∀ l ∈ behindFirst (fun l => sender.host = l.host) t.leases, (leaseEnd t.now).tvSec ≤ l.seconds
  | _ => True

instance decidableRenewsLast (t : LeaseTable) : (act : LeaseAct) → Decidable (RenewsLast t act)
  | .add _ _ | .alive _ => inferInstanceAs (Decidable (∀ l ∈ behindFirst _ t.leases, _))
  | .tick _ | .alarm => .isTrue trivial

theorem lt_leaseEnd (now : Timeval) : now.tvSec < (leaseEnd now).tvSec := by
  show now.tvSec < now.tvSec + (4 * 60 + 30) * 2
  omega

theorem LeaseTable.Bounded.step (h : t.Bounded) {t' : LeaseTable} {act : LeaseAct}
    (hstep : t.step act = some t') : t'.Bounded := by
  have hrenewed {p : Lease → Bool} :
      ∀ l ∈ renewFirst p (Lease.renew t.now) t.leases, l.seconds ≤ (leaseEnd t.now).tvSec := by
    intro l hl
    obtain hl | ⟨y, -, rfl⟩ := mem_of_mem_renewFirst hl
    · exact h l hl
    · exact le_rfl
  cases act with
  | tick seconds =>
    obtain rfl := Option.some.inj hstep
    refine fun l hl => (h l hl).trans ?_
    rw [leaseEnd, leaseEnd, Timeval.tvSec_later]
    dsimp only
    omega
  | alarm =>
    rw [LeaseTable.step] at hstep
    split_ifs at hstep
    obtain rfl := Option.some.inj hstep
    exact fun l hl => h l (mem_sweep.mp hl).1
  | alive sender =>
    obtain rfl := Option.some.inj hstep
    exact hrenewed
  | add host port =>
    rw [LeaseTable.step, addLease] at hstep
    split_ifs at hstep
    · obtain rfl := Option.some.inj hstep
      exact hrenewed
    · obtain rfl := Option.some.inj hstep
      intro l hl
      obtain hl | hl := List.mem_append.mp hl
      · exact h l hl
      · rw [List.mem_singleton.mp hl]
        exact le_rfl

/-- **When a step keeps the leases in order.** -/
theorem ordered_step_iff (h : t.Ordered) (hbounded : t.Bounded) {t' : LeaseTable} {act : LeaseAct}
    (hstep : t.step act = some t') : t'.Ordered ↔ RenewsLast t act := by
  have hrenew (p : Lease → Bool) : ExpiresInOrder Lease.seconds t.now.tvSec
      (renewFirst p (Lease.renew t.now) t.leases) ↔
        ∀ l ∈ behindFirst p t.leases, (leaseEnd t.now).tvSec ≤ l.seconds :=
    expiresInOrder_renewFirst_iff h hbounded (fun _ => rfl) (lt_leaseEnd t.now)
  have hidles (hidle : act.IsIdle) : t'.Ordered := by
    obtain ⟨t'', hstep', h''⟩ := h.step hidle
    obtain rfl := Option.some.inj (hstep'.symm.trans hstep)
    exact h''
  cases act with
  | tick seconds => exact iff_of_true (hidles trivial) trivial
  | alarm => exact iff_of_true (hidles trivial) trivial
  | alive sender =>
    obtain rfl := Option.some.inj hstep
    exact hrenew _
  | add host port =>
    rw [LeaseTable.step, addLease] at hstep
    split_ifs at hstep with hany
    · obtain rfl := Option.some.inj hstep
      exact hrenew _
    · obtain rfl := Option.some.inj hstep
      have hnone : ∀ l ∈ t.leases, Lease.isAt host port l = false := by simpa using hany
      refine iff_of_true (ExpiresInOrder.concat h fun l hl => ?_) ?_
      · exact le_max_of_le_right (hbounded l hl)
      · rw [RenewsLast, behindFirst_of_forall hnone]
        simp

/-- **When no alarm can do any harm**, at any point of a run: only leases are renewed that have none
behind them but such as were renewed in the same second. -/
theorem idles_iff (now : Timeval) (acts : List LeaseAct) :
    (∀ before after t, acts = before ++ after →
      exec LeaseTable.step (LeaseTable.start now) before = some t → t.Idles) ↔
    Along LeaseTable.step RenewsLast (LeaseTable.start now) acts := by
  have hstart : (LeaseTable.start now).Ordered ∧ (LeaseTable.start now).Bounded :=
    ⟨List.Pairwise.nil, by simp [LeaseTable.Bounded, LeaseTable.start]⟩
  rw [forall_prefix_iff, and_iff_right (idles_iff_ordered.mpr hstart.1)]
  simp only [idles_iff_ordered]
  refine along_iff_of_invariant (I := fun t => t.Ordered ∧ t.Bounded) ?_ ?_ hstart
  · intro t act t' h hlast hstep
    exact ⟨(ordered_step_iff h.1 h.2 hstep).mpr hlast, h.2.step hstep⟩
  · intro t act h
    constructor
    · intro hordered
      cases hstep : t.step act with
      | none =>
        obtain ⟨t', hstep', -⟩ : ∃ t', t.step act = some t' ∧ True := by
          cases act with
          | alarm =>
            obtain ⟨t', ht', -⟩ := h.1.step (show LeaseAct.IsIdle .alarm from trivial)
            exact ⟨t', ht', trivial⟩
          | _ => exact ⟨_, rfl, trivial⟩
        rw [hstep] at hstep'
        cases hstep'
      | some t' => exact (ordered_step_iff h.1 h.2 hstep).mp (hordered t' hstep)
    · exact fun hlast t' hstep => (ordered_step_iff h.1 h.2 hstep).mpr hlast

/-! ## Different clients -/

/-- A lease is the only one with its address and port. -/
def LeaseTable.Distinct (t : LeaseTable) : Prop := (t.leases.map fun l => (l.host, l.port)).Nodup

theorem LeaseTable.Distinct.step (h : t.Distinct) {t' : LeaseTable} {act : LeaseAct}
    (hstep : t.step act = some t') : t'.Distinct := by
  have hrenew (p : Lease → Bool) : ((renewFirst p (Lease.renew t.now) t.leases).map
      fun l => (l.host, l.port)).Nodup := by
    rw [map_renewFirst (f := Lease.renew t.now) fun _ => rfl]
    exact h
  cases act with
  | tick seconds =>
    obtain rfl := Option.some.inj hstep
    exact h
  | alarm =>
    rw [LeaseTable.step] at hstep
    split_ifs at hstep
    obtain rfl := Option.some.inj hstep
    exact List.Nodup.sublist (List.filter_sublist.map _) h
  | alive sender =>
    obtain rfl := Option.some.inj hstep
    exact hrenew _
  | add host port =>
    rw [LeaseTable.step, addLease] at hstep
    split_ifs at hstep with hany
    · obtain rfl := Option.some.inj hstep
      exact hrenew _
    · obtain rfl := Option.some.inj hstep
      rw [LeaseTable.Distinct, List.map_append]
      refine List.nodup_append.mpr ⟨h, List.nodup_singleton _, fun key hkey key' hkey' => ?_⟩
      rintro rfl
      obtain ⟨l, hl, heq⟩ := List.mem_map.mp hkey
      obtain ⟨hhost, hport⟩ := Prod.mk.inj (heq.trans (List.mem_singleton.mp hkey'))
      refine hany (List.any_eq_true.mpr ⟨l, hl, ?_⟩)
      simp [Lease.isAt, hhost, hport]

/-- So there is at most one with a given address and port. -/
theorem LeaseTable.Distinct.length_filter_le (h : t.Distinct) (host port : UInt32) :
    (t.leases.filter (Lease.isAt host port)).length ≤ 1 := by
  have hnodup : ((t.leases.filter (Lease.isAt host port)).map
      fun l => (l.host, l.port)).Nodup := List.Nodup.sublist (List.filter_sublist.map _) h
  have hall : (t.leases.filter (Lease.isAt host port)).map (fun l => (l.host, l.port))
      = List.replicate (t.leases.filter (Lease.isAt host port)).length (host, port) := by
    refine List.eq_replicate_iff.mpr ⟨List.length_map _, fun key hkey => ?_⟩
    obtain ⟨l, hl, rfl⟩ := List.mem_map.mp hkey
    have hat := (List.mem_filter.mp hl).2
    rw [Lease.isAt, Bool.and_eq_true, decide_eq_true_iff, decide_eq_true_iff] at hat
    rw [hat.1, hat.2]
  rw [hall] at hnodup
  exact List.nodup_replicate.mp hnodup

/-! ## Two sockets at one address -/

/-- Behind the first lease of an address there is one of that address, with that port, that expires
at that time. -/
def Beside (host port : UInt32) (expires : ℤ) (t : LeaseTable) : Prop :=
  ∃ l ∈ behindFirst (fun l => host = l.host) t.leases,
    l.host = host ∧ l.port = port ∧ l.seconds = expires

/-- When the alarm comes, the first lease of that address has not expired. -/
def FirstAlive (host : UInt32) (t : LeaseTable) : LeaseAct → Prop
  | .alarm => ∀ l ∈ t.leases.find? (fun l => host = l.host), t.now.tvSec < l.seconds
  | _ => True

instance decidableBeside (host port : UInt32) (expires : ℤ) (t : LeaseTable) :
    Decidable (Beside host port expires t) :=
  inferInstanceAs (Decidable (∃ l ∈ behindFirst _ t.leases, _))

instance decidableFirstAlive (host : UInt32) (t : LeaseTable) :
    (act : LeaseAct) → Decidable (FirstAlive host t act)
  | .alarm => inferInstanceAs (Decidable (∀ l ∈ t.leases.find? _, _))
  | .tick _ | .add _ _ | .alive _ => .isTrue trivial

variable {expires : ℤ} {act : LeaseAct} {t' : LeaseTable}

/-- **A second socket is not renewed**, unless it broadcasts again. -/
theorem Beside.step (h : Beside host port expires t) (hact : act ≠ .add host port)
    (halive : FirstAlive host t act) (hstep : t.step act = some t') :
    Beside host port expires t' := by
  obtain ⟨l, hl, hhost, hport, hexpires⟩ := h
  refine ⟨l, ?_, hhost, hport, hexpires⟩
  cases act with
  | tick seconds =>
    obtain rfl := Option.some.inj hstep
    exact hl
  | alarm =>
    rw [LeaseTable.step] at hstep
    split_ifs at hstep with hsweep
    obtain rfl := Option.some.inj hstep
    refine mem_behindFirst_sweep hl halive ?_
    by_contra hexpired
    exact not_sweepable hl halive (not_lt.mp hexpired) hsweep
  | alive sender =>
    obtain rfl := Option.some.inj hstep
    by_cases hsender : sender.host = host
    · have hsame := behindFirst_renewFirst (p := fun l => decide (host = l.host))
        (f := Lease.renew t.now) (l := t.leases) fun _ => rfl
      simpa only [renewLease, hsender, hsame] using hl
    · exact mem_behindFirst_renewFirst (fun _ => rfl) hl (by simpa [hhost] using hsender)
  | add newHost newPort =>
    rw [LeaseTable.step, addLease] at hstep
    split_ifs at hstep
    · obtain rfl := Option.some.inj hstep
      refine mem_behindFirst_renewFirst (fun _ => rfl) hl ?_
      rw [Lease.isAt, hhost, hport]
      by_contra hsame
      simp only [Bool.not_eq_false, Bool.and_eq_true, decide_eq_true_eq] at hsame
      exact hact (by rw [hsame.1, hsame.2])
    · obtain rfl := Option.some.inj hstep
      exact mem_behindFirst_concat hl

/-- **A client with two sockets crashes the server.** Once it has been added with two ports, and as
long as its first lease is renewed in time, an alarm after the second lease has expired reads an
entry that was freed. -/
theorem alarm_crashes (now : Timeval) {before after : List LeaseAct} (turns : ℕ)
    (hturns : (before ++ after).length < turns)
    (hbefore : exec LeaseTable.step (LeaseTable.start now) before = some t)
    (hbeside : Beside host port expires t) (hbroadcast : .add host port ∉ after)
    (halive : Along LeaseTable.step (FirstAlive host) t (after ++ [LeaseAct.alarm]))
    (hlate : ∀ t', exec LeaseTable.step t after = some t' → expires ≤ t'.now.tvSec) :
    exec (LeaseServer.step turns) (LeaseServer.start now) (before ++ after ++ [LeaseAct.alarm])
      = none := by
  have hlength : (before ++ after ++ [LeaseAct.alarm]).length ≤ turns := by
    rwa [List.length_append, List.length_singleton]
  rw [exec_eq_none_iff now hlength, exec_append, exec_append, hbefore, Option.bind_some]
  cases hafter : exec LeaseTable.step t after with
  | none => rfl
  | some t' =>
    have halive' := halive.of_append hafter
    have hother : ∀ act ∈ after, LeaseTable → act ≠ .add host port :=
      fun act hact _ heq => hbroadcast (heq ▸ hact)
    obtain ⟨l, hl, -, -, hexpires⟩ : Beside host port expires t' :=
      exec_invariant (fun _ _ _ h hC hstep => Beside.step h hC.2 hC.1 hstep) hbeside
        (halive.left.and (along_of_forall hother t)) hafter
    have hsweep : ¬ Sweepable Lease.seconds t'.now.tvSec t'.leases :=
      not_sweepable hl halive'.1 (hexpires.trans_le (hlate t' hafter))
    rw [Option.bind_some, exec_cons, LeaseTable.step, if_neg hsweep]
    rfl

/-- A client broadcasts from one socket and answers from another, and says five minutes later that
it is still alive. The alarm comes ten minutes after its broadcast. -/
theorem alarm_crashes_greeting : exec (LeaseServer.step 7) (LeaseServer.start ⟨0, 0⟩)
    ([LeaseAct.add 1 2000, .add 1 40000] ++ [.tick 300, .alive ⟨1, 40000⟩, .tick 300] ++ [.alarm])
      = none :=
  alarm_crashes (t := ⟨[⟨1, 2000, ⟨540, 0⟩⟩, ⟨1, 40000, ⟨540, 0⟩⟩], ⟨0, 0⟩⟩) ⟨0, 0⟩ 7 (by decide)
    rfl (show Beside 1 40000 540 _ by decide) (by simp) (by decide) (by rintro t' ⟨⟩; decide)

end Peep
