import Peep.EngineQueue
import Mathlib.Data.Fintype.Basic
import Mathlib.Data.List.Perm.Subperm

/-!
# The engine queue under several threads

Every servlet of the TCP server is a thread of its own that calls `engineEnqueue` for each event it
receives, and the engine thread calls `engineDequeue` in a loop. The globals `head` and `tail` are
not guarded; the semaphore counts the events and nothing else. This module takes the two functions
apart into their accesses to the list and lets any number of servlets and the engine interleave
them.

## Choices

The steps of `engineEnqueue` are: `cur_pos = head`, the test of `head`, the creation of a first
node, `tail = head`, one iteration of the walk, the creation and linking of a node behind `cur_pos`,
`tail = cur_pos->next` and the release of the semaphore. The steps of `engineDequeue` are the
acquisition of the semaphore and the rest of the function. Each call of `engineEnqueue` has a
number, so that two calls with equal events are not the same. A step that dereferences `NULL` or a
node that was freed ends the program.

## Main results

* `EngineThreads.safe_of_undisturbed` — if no write of a thread hits a link that another thread has
  changed since it was read, nothing is lost or duplicated and the queue is never empty after the
  semaphore was acquired
* `EngineThreads.not_safe_two_producers` — two servlets that find the queue empty lose an event
-/

namespace Peep

open Linked StepSystem

/-- A call of `engineEnqueue`: its number and its event. -/
abbrev Call (α : Type) := ℕ × α

variable {T α : Type}

/-- A servlet, by what it does next in `engineEnqueue`. -/
inductive Producer (α : Type)
  /-- It is not in `engineEnqueue`. -/
  | idle
  /-- `cur_pos = head`. -/
  | reading (c : Call α)
  /-- `head == NULL`. -/
  | testing (cur : Option ℕ) (c : Call α)
  /-- `head = malloc (...)`. -/
  | creating (c : Call α)
  /-- `tail = head`. -/
  | heading (c : Call α)
  /-- `cur_pos->next != NULL`. -/
  | walking (cur : Option ℕ) (c : Call α)
  /-- `cur_pos->next = malloc (...)`. -/
  | linking (cur : ℕ) (c : Call α)
  /-- `tail = cur_pos->next`. -/
  | tailing (cur : ℕ) (c : Call α)
  /-- `semaphoreRelease (semaphore)`. -/
  | releasing (c : Call α)

namespace Producer

/-- The node that a servlet stands on. -/
def cursor : Producer α → Option ℕ
  | .walking cur _ => cur
  | .linking cur _ | .tailing cur _ => some cur
  | _ => none

/-- The call that a servlet is in. -/
def call? : Producer α → Option (Call α)
  | .idle => none
  | .reading c | .testing _ c | .creating c | .heading c | .walking _ c | .linking _ c
  | .tailing _ c | .releasing c => some c

/-- Whether the node of the call has been created. -/
def linked : Producer α → Bool
  | .heading _ | .tailing _ _ | .releasing _ => true
  | _ => false

/-- A servlet that walks stands on one of the nodes. -/
def Within (as : List ℕ) : Producer α → Prop
  | .walking cur _ => ∃ a ∈ as, cur = some a
  | .linking cur _ | .tailing cur _ => cur ∈ as
  | _ => True

/-- What the next step of a servlet relies on is still so: `head` is as it was read when it is
tested, it is still `NULL` when the first node is created, and the walk has ended at a node that is
still the last one. -/
def Undisturbed (q : EngineQueue (Call α)) : Producer α → Prop
  | .testing cur _ => q.head = none ∨ cur = q.head
  | .creating _ => q.head = none
  | .linking cur _ => q.next? cur = some none
  | _ => True

instance (q : EngineQueue (Call α)) (p : Producer α) : Decidable (p.Undisturbed q) :=
  match p with
  | .testing cur _ => inferInstanceAs (Decidable (q.head = none ∨ cur = q.head))
  | .creating _ => inferInstanceAs (Decidable (q.head = none))
  | .linking cur _ => inferInstanceAs (Decidable (q.next? cur = some none))
  | .idle | .reading _ | .heading _ | .walking _ _ | .tailing _ _ | .releasing _ =>
    inferInstanceAs (Decidable True)

variable {p : Producer α} {as bs : List ℕ} {b : ℕ}

theorem Within.mono (h : p.Within as) (hsub : as ⊆ bs) : p.Within bs := by
  cases p with
  | walking cur c => exact h.imp fun a ha => ⟨hsub ha.1, ha.2⟩
  | linking cur c | tailing cur c => exact hsub h
  | _ => trivial

/-- A servlet stays within the list when a node goes on which it does not stand. -/
theorem Within.of_concat (h : p.Within (as ++ [b])) (hb : p.cursor ≠ some b) : p.Within as := by
  have hmem : ∀ a ∈ as ++ [b], p.cursor = some a → a ∈ as := fun a ha hcur => by
    rcases List.mem_append.mp ha with ha | ha
    · exact ha
    · rw [List.mem_singleton.mp ha] at hcur
      exact absurd hcur hb
  cases p with
  | walking cur c =>
    obtain ⟨a, ha, rfl⟩ := h
    exact ⟨a, hmem a ha rfl, rfl⟩
  | linking cur c => exact hmem cur h rfl
  | tailing cur c => exact hmem cur h rfl
  | _ => trivial

end Producer

/-- The servlets `T`, the engine thread and the queue. -/
structure EngineThreads (T α : Type) where
  /-- The queue of the code. -/
  queue : EngineQueue (Call α)
  /-- The servlets. -/
  producer : T → Producer α
  /-- The engine has acquired the semaphore and not yet taken an event. -/
  acquired : Bool
  /-- How many calls of `engineEnqueue` were begun. -/
  calls : ℕ
  /-- The calls of `engineEnqueue` that have completed. -/
  completed : List (Call α)
  /-- What `engineDequeue` has returned. -/
  returned : List (Call α)
  /-- A pointer was dereferenced that points to no node. -/
  crashed : Bool

/-- Which thread takes a step. -/
inductive Turn (T α : Type)
  /-- A servlet calls `engineEnqueue (d)`. -/
  | call (t : T) (d : α)
  /-- A servlet takes its next step; `malloc` returns `addr`. -/
  | produce (t : T) (addr : ℕ)
  /-- The engine takes its next step. -/
  | consume

namespace EngineThreads

/-- No servlet is in `engineEnqueue`, and the queue is fresh. -/
def start : EngineThreads T α := ⟨engineQueueInit, fun _ => .idle, false, 0, [], [], false⟩

section Steps

variable [DecidableEq T]

/-- A servlet comes to its next step. -/
def goto (s : EngineThreads T α) (t : T) (p : Producer α) : EngineThreads T α :=
  { s with producer := Function.update s.producer t p }

/-- The end of the program. -/
def crash (s : EngineThreads T α) : EngineThreads T α := { s with crashed := true }

/-- A servlet calls `engineEnqueue (d)`. -/
def call (s : EngineThreads T α) (t : T) (d : α) : Option (EngineThreads T α) :=
  match s.producer t with
  | .idle => some ({ s with calls := s.calls + 1 }.goto t (.reading (s.calls, d)))
  | _ => none

/-- The next step of a servlet. -/
def produce (s : EngineThreads T α) (t : T) (addr : ℕ) : Option (EngineThreads T α) :=
  match s.producer t with
  | .idle => none
  | .reading c => some (s.goto t (.testing s.queue.head c))
  | .testing cur c =>
    if s.queue.head = none then some (s.goto t (.creating c))
    else some (s.goto t (.walking cur c))
  | .creating c =>
    if (s.queue.cells addr).isSome then none
    else some ({ s with queue := s.queue.newHead addr c }.goto t (.heading c))
  | .heading c =>
    some ({ s with queue := { s.queue with tail := s.queue.head } }.goto t (.releasing c))
  | .walking none _ => some s.crash
  | .walking (some cur) c =>
    match s.queue.next? cur with
    | none => some s.crash
    | some none => some (s.goto t (.linking cur c))
    | some (some next) => some (s.goto t (.walking (some next) c))
  | .linking cur c =>
    if (s.queue.cells addr).isSome then none
    else if (s.queue.cells cur).isNone then some s.crash
    else some ({ s with queue := s.queue.linkBehind cur addr c }.goto t (.tailing cur c))
  | .tailing cur c =>
    match s.queue.next? cur with
    | none => some s.crash
    | some next =>
      some ({ s with queue := { s.queue with tail := next } }.goto t (.releasing c))
  | .releasing c =>
    some ({ s with queue := s.queue.post, completed := s.completed ++ [c] }.goto t .idle)

/-- The next step of the engine. -/
def consume (s : EngineThreads T α) : Option (EngineThreads T α) :=
  if s.acquired then
    match s.queue.unlinkTail with
    | none => some s.crash
    | some (c, q) => some { s with queue := q, acquired := false, returned := s.returned ++ [c] }
  else if s.queue.semaphore = 0 then none
  else some { s with
    queue := { s.queue with semaphore := s.queue.semaphore - 1 }
    acquired := true }

/-- One step. -/
def step (s : EngineThreads T α) (turn : Turn T α) : Option (EngineThreads T α) :=
  if s.crashed then none else
    match turn with
    | .call t d => s.call t d
    | .produce t addr => s.produce t addr
    | .consume => s.consume

end Steps

/-! ## What is asked of the queue -/

/-- A node that holds the call can be reached from `head`. -/
def Reachable (s : EngineThreads T α) (c : Call α) : Prop :=
  ∃ a n, Reaches s.queue.cells s.queue.head a ∧ s.queue.cells a = some n ∧ n.value = c

/-- Every call that completed is in the list or was returned, once; the engine finds the list
nonempty after it has acquired the semaphore; and no pointer led nowhere. -/
structure Safe [DecidableEq α] (s : EngineThreads T α) : Prop where
  /-- None lost and none duplicated. -/
  accounted : ∀ c ∈ s.completed, (s.Reachable c ∧ s.returned.count c = 0) ∨
    (¬ s.Reachable c ∧ s.returned.count c = 1)
  /-- There is something to take. -/
  nonempty : s.acquired = true → engineQueueEmpty s.queue = false
  /-- The program is running. -/
  running : s.crashed = false

/-! ## The condition -/

/-- No step is disturbed: neither one of a servlet, nor the engine, which takes the last node of
the list while no servlet stands on it. -/
def Undisturbed (s : EngineThreads T α) : Turn T α → Prop
  | .call _ _ => True
  | .produce t _ => (s.producer t).Undisturbed s.queue
  | .consume => s.acquired = true → ∃ b ∈ s.queue.tail, s.queue.next? b = some none ∧
      ∀ t, (s.producer t).cursor ≠ some b

instance [Fintype T] (s : EngineThreads T α) (turn : Turn T α) :
    Decidable (s.Undisturbed turn) :=
  match turn with
  | .call _ _ => inferInstanceAs (Decidable True)
  | .produce t _ => inferInstanceAs (Decidable ((s.producer t).Undisturbed s.queue))
  | .consume => inferInstanceAs (Decidable (_ → _))

/-! ## The invariant -/

/-- The links: the list is a chain from `head`, and `tail` and the servlets that walk stand on
nodes of it. `tail` need not be the last one. -/
structure Links (s : EngineThreads T α) (as : List ℕ) : Prop where
  /-- No node is visited twice. -/
  nodup : as.Nodup
  /-- The nodes are linked in both directions. -/
  chain : Chain s.queue.cells none as
  /-- `head` is the first of them. -/
  head : s.queue.head = as.head?
  /-- `tail` is one of them, if any. -/
  tail : ∀ b, s.queue.tail = some b → b ∈ as
  /-- The servlets. -/
  within : ∀ t, (s.producer t).Within as

/-- The calls whose node was created are those of `cs`. -/
structure Ledger (s : EngineThreads T α) (cs : List (Call α)) : Prop where
  /-- Each of them once. -/
  nodup : cs.Nodup
  /-- They were begun. -/
  begun : ∀ c ∈ cs, c.1 < s.calls
  /-- Completed calls are among them. -/
  completed : s.completed ⊆ cs
  /-- A call completes once. -/
  once : s.completed.Nodup
  /-- The semaphore counts the calls completed and not yet answered. -/
  count : s.completed.length =
    s.queue.semaphore + (if s.acquired then 1 else 0) + s.returned.length
  /-- The calls that the servlets are in. -/
  pending : ∀ t c, (s.producer t).call? = some c →
    c.1 < s.calls ∧ c ∉ s.completed ∧ ((s.producer t).linked = true ↔ c ∈ cs)
  /-- They differ. -/
  distinct : ∀ t t' c, (s.producer t).call? = some c → (s.producer t').call? = some c → t = t'

/-- What undisturbed steps preserve. -/
def Inv (s : EngineThreads T α) : Prop :=
  s.crashed = false ∧ ∃ as cs, s.Links as ∧ s.Ledger cs ∧
    cs.Perm (s.queue.contents as ++ s.returned)

variable {s s' : EngineThreads T α} {as bs : List ℕ} {cs : List (Call α)} {t u : T}
  {p : Producer α} {c d : Call α} {a b addr : ℕ}

theorem inv_start : (start : EngineThreads T α).Inv := by
  refine ⟨rfl, [], [], ⟨.nil, trivial, rfl, ?_, fun _ => trivial⟩,
    ⟨.nil, by simp, List.nil_subset _, .nil, rfl, ?_, ?_⟩, .nil⟩
  · intro b hb
    cases hb
  · intro t c hc
    cases hc
  · intro t t' c hc
    cases hc

/-! ### The links -/

theorem Links.reachable_iff (h : s.Links as) : s.Reachable c ↔ c ∈ s.queue.contents as := by
  rw [Reachable, EngineQueue.contents, mem_values_iff, h.head]
  simp only [h.chain.reaches_iff]
  constructor
  · rintro ⟨a, n, ha, hn⟩
    exact ⟨a, ha, n, hn⟩
  · rintro ⟨a, ha, n, hn⟩
    exact ⟨a, n, ha, hn⟩

/-- `next` of a node of the list is `NULL` or another node of it. -/
theorem Links.next (h : s.Links as) (ha : a ∈ as) :
    ∃ next, s.queue.next? a = some next ∧ ∀ b, next = some b → b ∈ as := by
  obtain ⟨bs, ds, rfl⟩ := List.append_of_mem ha
  obtain ⟨n, hn, hnext⟩ := h.chain.next
  refine ⟨n.next, by rw [EngineQueue.next?, hn]; rfl, ?_⟩
  intro b hb
  rw [hnext] at hb
  exact List.mem_append_right _ (List.mem_cons_of_mem _ (List.mem_of_mem_head? hb))

/-- A node of the list whose `next` is `NULL` is the last one. -/
theorem Links.eq_concat (h : s.Links as) (ha : a ∈ as) (hlast : s.queue.next? a = some none) :
    ∃ bs, as = bs ++ [a] := by
  obtain ⟨bs, ds, rfl⟩ := List.append_of_mem ha
  obtain ⟨n, hn, hnext⟩ := h.chain.next
  rw [EngineQueue.next?, hn, Option.map_some, Option.some.injEq, hnext,
    List.head?_eq_none_iff] at hlast
  exact ⟨bs, by rw [hlast]⟩

/-- Writing `tail`. -/
theorem Links.setTail {tail : Option ℕ} (h : s.Links as) (htail : ∀ b, tail = some b → b ∈ as) :
    ({ s with queue := { s.queue with tail := tail } } : EngineThreads T α).Links as :=
  ⟨h.nodup, h.chain, h.head, htail, h.within⟩

/-- Taking the last node. -/
theorem Links.unlinkTail (h : s.Links (bs ++ [b])) (htail : s.queue.tail = some b)
    (hcursor : ∀ t, (s.producer t).cursor ≠ some b) :
    ∃ c q, s.queue.unlinkTail = some (c, q) ∧ q.semaphore = s.queue.semaphore ∧
      s.queue.contents (bs ++ [b]) = q.contents bs ++ [c] ∧
      ({ s with queue := q, acquired := false, returned := s.returned ++ [c] } :
        EngineThreads T α).Links bs := by
  have hrep : s.queue.Represents (bs ++ [b]) := ⟨h.nodup, h.chain, h.head, by simpa using htail⟩
  obtain ⟨c, q, hq, hrep', hsem, -, hcont⟩ := hrep.unlinkTail
  refine ⟨c, q, hq, hsem, hcont, hrep'.nodup, hrep'.chain, hrep'.head, ?_,
    fun t => (h.within t).of_concat (hcursor t)⟩
  intro a ha
  rw [hrep'.tail] at ha
  exact List.mem_of_getLast? ha

/-- The ledger does not look at the list. -/
theorem Ledger.setQueue {q : EngineQueue (Call α)} (h : s.Ledger cs)
    (hsem : q.semaphore = s.queue.semaphore) :
    ({ s with queue := q } : EngineThreads T α).Ledger cs :=
  ⟨h.nodup, h.begun, h.completed, h.once, by rw [hsem]; exact h.count, h.pending, h.distinct⟩

/-! ### Steps of the engine -/

/-- The list is not empty once the engine has acquired the semaphore. -/
theorem length_pos_of_acquired (hledger : s.Ledger cs) (hlinks : s.Links as)
    (hperm : cs.Perm (s.queue.contents as ++ s.returned)) (hacq : s.acquired = true) :
    0 < as.length := by
  have hle : s.completed.length ≤ cs.length :=
    (List.subperm_of_subset hledger.once hledger.completed).length_le
  have hcount := hledger.count
  have hcs := hperm.length_eq
  rw [List.length_append, EngineQueue.contents, hlinks.chain.length_values] at hcs
  rw [if_pos hacq] at hcount
  omega

/-- **A step of the engine** that is not disturbed. -/
theorem Inv.consume (h : s.Inv) (hC : s.Undisturbed .consume) (hs : s.consume = some s') :
    s'.Inv := by
  obtain ⟨hrun, as, cs, hlinks, hledger, hperm⟩ := h
  rw [EngineThreads.consume] at hs
  have hcount := hledger.count
  split_ifs at hs with hacq hsem
  · obtain ⟨b, htail, hlast, hcursor⟩ := hC hacq
    obtain ⟨bs, rfl⟩ := hlinks.eq_concat (hlinks.tail b htail) hlast
    obtain ⟨c, q, hq, hqsem, hcont, hlinks'⟩ := hlinks.unlinkTail htail hcursor
    rw [hq] at hs
    cases hs
    rw [if_pos hacq] at hcount
    refine ⟨hrun, bs, cs, hlinks', ⟨hledger.nodup, hledger.begun, hledger.completed, hledger.once,
      ?_, hledger.pending, hledger.distinct⟩, ?_⟩
    · show s.completed.length = q.semaphore + 0 + (s.returned ++ [c]).length
      rw [hqsem, List.length_append, List.length_singleton]
      omega
    · rw [hcont, List.append_assoc] at hperm
      exact hperm.trans (List.perm_append_comm.append_left _)
  · cases hs
    rw [if_neg hacq] at hcount
    refine ⟨hrun, as, cs, ⟨hlinks.nodup, hlinks.chain, hlinks.head, hlinks.tail, hlinks.within⟩,
      ⟨hledger.nodup, hledger.begun, hledger.completed, hledger.once, ?_, hledger.pending,
        hledger.distinct⟩, hperm⟩
    show s.completed.length = s.queue.semaphore - 1 + 1 + s.returned.length
    omega

/-- What the invariant says of the queue. -/
theorem Inv.safe [DecidableEq α] (h : s.Inv) : s.Safe := by
  obtain ⟨hrun, as, cs, hlinks, hledger, hperm⟩ := h
  refine ⟨?_, ?_, hrun⟩
  · intro c hc
    have hmem := hperm.mem_iff.mp (hledger.completed hc)
    have hnd := List.nodup_append.mp (hperm.nodup_iff.mp hledger.nodup)
    rw [hlinks.reachable_iff]
    by_cases hin : c ∈ s.queue.contents as
    · refine .inl ⟨hin, List.count_eq_zero.mpr ?_⟩
      intro hout
      exact hnd.2.2 c hin c hout rfl
    · have hout := (List.mem_append.mp hmem).resolve_left hin
      exact .inr ⟨hin, List.count_eq_one_of_mem hnd.2.1 hout⟩
  · intro hacq
    have hpos := length_pos_of_acquired hledger hlinks hperm hacq
    obtain ⟨a, ds, rfl⟩ := List.exists_cons_of_length_pos hpos
    rw [engineQueueEmpty, hlinks.head]
    rfl

/-! ### Steps of a servlet -/

variable [DecidableEq T]

@[simp] theorem producer_goto_self : (s.goto t p).producer t = p := Function.update_self ..

theorem producer_goto_of_ne (h : u ≠ t) : (s.goto t p).producer u = s.producer u :=
  Function.update_of_ne h ..

@[simp] theorem queue_goto : (s.goto t p).queue = s.queue := rfl

@[simp] theorem completed_goto : (s.goto t p).completed = s.completed := rfl

@[simp] theorem returned_goto : (s.goto t p).returned = s.returned := rfl

/-- A step of a servlet leaves the others where they are. -/
theorem within_goto {as ds : List ℕ} (h : ∀ u, (s.producer u).Within as) (hsub : as ⊆ ds)
    (hp : p.Within ds) (u : T) : ((s.goto t p).producer u).Within ds := by
  rcases eq_or_ne u t with rfl | hu
  · rwa [producer_goto_self]
  · rw [producer_goto_of_ne hu]
    exact (h u).mono hsub

theorem Links.move (h : s.Links as) (hp : p.Within as) : (s.goto t p).Links as :=
  ⟨h.nodup, h.chain, h.head, h.tail, within_goto h.within (List.Subset.refl as) hp⟩

/-- The first node. -/
theorem Links.newHead (h : s.Links []) :
    ({ s with queue := s.queue.newHead addr c }.goto t (.heading c)).Links [addr] := by
  refine ⟨List.nodup_singleton addr, ⟨⟨c, ?_⟩, trivial⟩, rfl, ?_, ?_⟩
  · exact Function.update_self ..
  · exact fun b hb => absurd (h.tail b hb) List.not_mem_nil
  · exact within_goto h.within (List.nil_subset _) trivial

/-- A node behind the last one. -/
theorem Links.linkBehind (h : s.Links (bs ++ [a])) (haddr : s.queue.cells addr = none) :
    ({ s with queue := s.queue.linkBehind a addr c }.goto t (.tailing a c)).Links
        (bs ++ [a, addr]) ∧
      (s.queue.linkBehind a addr c).contents (bs ++ [a, addr]) =
        s.queue.contents (bs ++ [a]) ++ [c] := by
  have hrep : ({ s.queue with tail := some a } : EngineQueue (Call α)).Represents (bs ++ [a]) :=
    ⟨h.nodup, h.chain, h.head, by simp⟩
  obtain ⟨hlinked, hcont⟩ := hrep.linkBehind (d := c) haddr
  have hsub : bs ++ [a] ⊆ bs ++ [a, addr] := by simp
  have ha : a ∈ bs ++ [a, addr] := by simp
  exact ⟨⟨hlinked.nodup, hlinked.chain, hlinked.head, fun b hb => hsub (h.tail b hb),
    within_goto h.within hsub ha⟩, hcont⟩

/-- A step of a servlet that stays in its call and creates no node. -/
theorem Ledger.move (h : s.Ledger cs) (hcall : p.call? = (s.producer t).call?)
    (hlinked : p.linked = (s.producer t).linked) : (s.goto t p).Ledger cs := by
  have hsame : ∀ u, ((s.goto t p).producer u).call? = (s.producer u).call? ∧
      ((s.goto t p).producer u).linked = (s.producer u).linked := fun u => by
    rcases eq_or_ne u t with rfl | hu
    · rw [producer_goto_self]
      exact ⟨hcall, hlinked⟩
    · rw [producer_goto_of_ne hu]
      exact ⟨rfl, rfl⟩
  refine ⟨h.nodup, h.begun, h.completed, h.once, h.count, ?_, ?_⟩
  · intro u c hc
    rw [(hsame u).1] at hc
    rw [(hsame u).2]
    exact h.pending u c hc
  · intro u u' c hc hc'
    rw [(hsame u).1] at hc
    rw [(hsame u').1] at hc'
    exact h.distinct u u' c hc hc'

/-- A new call. -/
theorem Ledger.call {d : α} (h : s.Ledger cs) :
    ({ s with calls := s.calls + 1 }.goto t (.reading (s.calls, d))).Ledger cs := by
  have hnew : ∀ u c, (s.producer u).call? = some c → c ≠ (s.calls, d) := fun u c hc he => by
    have := (h.pending u c hc).1
    rw [he] at this
    exact lt_irrefl _ this
  have hcs : (s.calls, d) ∉ cs := fun hm => lt_irrefl _ (h.begun _ hm)
  refine ⟨h.nodup, fun c hc => Nat.lt_succ_of_lt (h.begun c hc), h.completed, h.once, h.count,
    ?_, ?_⟩
  · intro u c hc
    rcases eq_or_ne u t with rfl | hu
    · rw [producer_goto_self] at hc
      obtain rfl : (s.calls, d) = c := Option.some.inj hc
      rw [producer_goto_self]
      exact ⟨Nat.lt_succ_self _, fun hm => hcs (h.completed hm), by simpa [Producer.linked]⟩
    · rw [producer_goto_of_ne hu] at hc ⊢
      obtain ⟨hlt, hrest⟩ := h.pending u c hc
      exact ⟨Nat.lt_succ_of_lt hlt, hrest⟩
  · intro u u' c hc hc'
    by_cases hu : u = t
    · subst hu
      rw [producer_goto_self] at hc
      obtain rfl : (s.calls, d) = c := Option.some.inj hc
      by_contra hne
      rw [producer_goto_of_ne (Ne.symm hne)] at hc'
      exact hnew u' _ hc' rfl
    · rw [producer_goto_of_ne hu] at hc
      by_cases hu' : u' = t
      · subst hu'
        rw [producer_goto_self] at hc'
        obtain rfl : (s.calls, d) = c := Option.some.inj hc'
        exact absurd rfl (hnew u _ hc)
      · rw [producer_goto_of_ne hu'] at hc'
        exact h.distinct u u' c hc hc'

/-- A node is created. -/
theorem Ledger.link (h : s.Ledger cs) (ht : (s.producer t).call? = some c)
    (hunlinked : (s.producer t).linked = false) (hp : p.call? = some c)
    (hlinked : p.linked = true) : (s.goto t p).Ledger (cs ++ [c]) := by
  obtain ⟨hlt, hfresh, hmem⟩ := h.pending t c ht
  have hc : c ∉ cs := fun hm => by simpa [hunlinked] using hmem.mpr hm
  have hcall : ∀ u, ((s.goto t p).producer u).call? = (s.producer u).call? := fun u => by
    rcases eq_or_ne u t with rfl | hu
    · rw [producer_goto_self, hp, ht]
    · rw [producer_goto_of_ne hu]
  have hsub : s.completed ⊆ cs ++ [c] :=
    List.Subset.trans h.completed (List.subset_append_left _ _)
  refine ⟨?_, ?_, hsub, h.once, h.count, ?_, ?_⟩
  · simpa using h.nodup.concat hc
  · intro e he
    rcases List.mem_append.mp he with he | he
    · exact h.begun e he
    · rw [List.mem_singleton.mp he]
      exact hlt
  · intro u e he
    rw [hcall] at he
    rcases eq_or_ne u t with rfl | hu
    · obtain rfl : c = e := by simpa [ht] using he
      rw [producer_goto_self]
      exact ⟨hlt, hfresh, by simp [hlinked]⟩
    · rw [producer_goto_of_ne hu]
      obtain ⟨hlt', hfresh', hmem'⟩ := h.pending u e he
      have hne : e ≠ c := fun hec => hu (h.distinct u t e he (hec ▸ ht))
      exact ⟨hlt', hfresh', by simp [hmem', hne]⟩
  · intro u u' e he he'
    rw [hcall] at he he'
    exact h.distinct u u' e he he'

theorem call?_goto_idle (h : ((s.goto t .idle).producer u).call? = some c) :
    u ≠ t ∧ (s.producer u).call? = some c := by
  rcases eq_or_ne u t with rfl | hu
  · rw [producer_goto_self] at h
    cases h
  · rw [producer_goto_of_ne hu] at h
    exact ⟨hu, h⟩

/-- A call completes. -/
theorem Ledger.release (h : s.Ledger cs) (ht : s.producer t = .releasing c) :
    ({ s with queue := s.queue.post, completed := s.completed ++ [c] }.goto t .idle).Ledger cs := by
  obtain ⟨-, hfresh, hmem⟩ := h.pending t c (by rw [ht]; rfl)
  have hin : c ∈ cs := hmem.mp (by rw [ht]; rfl)
  refine ⟨h.nodup, h.begun, ?_, ?_, ?_, ?_, ?_⟩
  · exact List.append_subset.mpr ⟨h.completed, by simpa⟩
  · simpa using h.once.concat hfresh
  · have := h.count
    show (s.completed ++ [c]).length = s.queue.semaphore + 1 + (if s.acquired then 1 else 0) +
      s.returned.length
    rw [List.length_append, List.length_singleton]
    omega
  · intro u e he
    obtain ⟨hu, he⟩ := call?_goto_idle he
    obtain ⟨hlt, hfresh', hmem'⟩ := h.pending u e he
    have hne : e ≠ c := fun hec => hu (h.distinct u t e he (by rw [ht, hec]; rfl))
    rw [producer_goto_of_ne hu]
    refine ⟨hlt, ?_, hmem'⟩
    simp only [completed_goto, List.mem_append, List.mem_singleton, not_or]
    exact ⟨hfresh', hne⟩
  · intro u u' e he he'
    exact h.distinct u u' e (call?_goto_idle he).2 (call?_goto_idle he').2

/-- A step of a servlet that touches neither the list nor the ledger. -/
theorem Inv.move (h : s.Inv) (hp : ∀ as, s.Links as → p.Within as)
    (hcall : p.call? = (s.producer t).call?) (hlinked : p.linked = (s.producer t).linked) :
    (s.goto t p).Inv := by
  obtain ⟨hrun, as, cs, hlinks, hledger, hperm⟩ := h
  exact ⟨hrun, as, cs, hlinks.move (hp as hlinks), hledger.move hcall hlinked, hperm⟩

/-- The first node. -/
theorem Inv.newHead (h : s.Inv) (ht : s.producer t = .creating c) (hhead : s.queue.head = none) :
    ({ s with queue := s.queue.newHead addr c }.goto t (.heading c)).Inv := by
  obtain ⟨hrun, as, cs, hlinks, hledger, hperm⟩ := h
  obtain rfl : as = [] := List.head?_eq_none_iff.mp (hlinks.head ▸ hhead)
  have hledger' := hledger.link (p := .heading c) (by rw [ht]; rfl) (by rw [ht]; rfl) rfl rfl
  refine ⟨hrun, [addr], cs ++ [c], hlinks.newHead, hledger'.setQueue rfl, ?_⟩
  have hcont : (s.queue.newHead addr c).contents [addr] = [c] :=
    values_singleton (n := ⟨c, none, none⟩) (Function.update_self ..)
  rw [queue_goto, returned_goto, hcont]
  exact List.perm_append_comm.trans (hperm.append_left [c])

/-- A node behind the last one. -/
theorem Inv.linkBehind (h : s.Inv) (ht : s.producer t = .linking a c)
    (hlast : s.queue.next? a = some none) (haddr : s.queue.cells addr = none) :
    (s.queue.cells a).isSome ∧
      ({ s with queue := s.queue.linkBehind a addr c }.goto t (.tailing a c)).Inv := by
  obtain ⟨hrun, as, cs, hlinks, hledger, hperm⟩ := h
  have ha := hlinks.within t
  rw [ht] at ha
  obtain ⟨n, hn⟩ := hlinks.chain.exists_node ha
  obtain ⟨bs, rfl⟩ := hlinks.eq_concat ha hlast
  have hledger' := hledger.link (p := .tailing a c) (by rw [ht]; rfl) (by rw [ht]; rfl) rfl rfl
  obtain ⟨hlinks', hcont⟩ := hlinks.linkBehind (c := c) (t := t) haddr
  refine ⟨by rw [hn]; rfl, hrun, bs ++ [a, addr], cs ++ [c], hlinks', hledger'.setQueue rfl, ?_⟩
  rw [queue_goto, returned_goto, hcont, List.append_assoc]
  have hcomm : (s.returned ++ [c]).Perm ([c] ++ s.returned) := List.perm_append_comm
  refine (hperm.append_right [c]).trans ?_
  rw [List.append_assoc]
  exact hcomm.append_left _

/-- A call completes. -/
theorem Inv.release (h : s.Inv) (ht : s.producer t = .releasing c) :
    ({ s with queue := s.queue.post, completed := s.completed ++ [c] }.goto t .idle).Inv := by
  obtain ⟨hrun, as, cs, hlinks, hledger, hperm⟩ := h
  have hlinks' : ({ s with queue := s.queue.post, completed := s.completed ++ [c] }.goto t
      .idle).Links as :=
    ⟨hlinks.nodup, hlinks.chain, hlinks.head, hlinks.tail,
      within_goto hlinks.within (List.Subset.refl as) trivial⟩
  exact ⟨hrun, as, cs, hlinks', hledger.release ht, hperm⟩

/-- **A step of a servlet** that is not disturbed. -/
theorem Inv.produce (h : s.Inv) (hC : s.Undisturbed (.produce t addr))
    (hs : s.produce t addr = some s') : s'.Inv := by
  obtain ⟨hrun, as, cs, hlinks, hledger, hperm⟩ := id h
  have hwithin := hlinks.within t
  rw [EngineThreads.produce] at hs
  rw [Undisturbed, Producer.Undisturbed.eq_def] at hC
  cases ht : s.producer t with
  | idle =>
    rw [ht] at hs
    cases hs
  | reading c =>
    rw [ht] at hs
    cases hs
    exact h.move (fun _ _ => trivial) (by rw [ht]; rfl) (by rw [ht]; rfl)
  | testing cur c =>
    simp only [ht] at hs hC
    split_ifs at hs with hhead
    · cases hs
      exact h.move (fun _ _ => trivial) (by rw [ht]; rfl) (by rw [ht]; rfl)
    · cases hs
      refine h.move ?_ (by rw [ht]; rfl) (by rw [ht]; rfl)
      intro as hlinks
      obtain ⟨a, ha⟩ := Option.ne_none_iff_exists'.mp hhead
      refine ⟨a, List.mem_of_mem_head? (hlinks.head ▸ ha), ?_⟩
      rw [hC.resolve_left hhead, ha]
  | creating c =>
    simp only [ht] at hs hC
    split_ifs at hs
    cases hs
    exact h.newHead ht hC
  | heading c =>
    simp only [ht] at hs
    cases hs
    have hlinks' : ({ s with queue := { s.queue with tail := s.queue.head } } :
        EngineThreads T α).Links as :=
      hlinks.setTail fun b hb => List.mem_of_mem_head? (hlinks.head ▸ hb)
    exact Inv.move ⟨hrun, as, cs, hlinks', hledger.setQueue rfl, hperm⟩ (fun _ _ => trivial)
      (by rw [ht]; rfl) (by rw [ht]; rfl)
  | walking cur c =>
    rw [ht] at hwithin
    obtain ⟨a, ha, rfl⟩ := hwithin
    obtain ⟨next, hnext, hmem⟩ := hlinks.next ha
    cases next with
    | none =>
      simp only [ht, hnext] at hs
      cases hs
      refine ⟨hrun, as, cs, hlinks.move ha, hledger.move ?_ ?_, hperm⟩ <;> (rw [ht]; rfl)
    | some b =>
      simp only [ht, hnext] at hs
      cases hs
      refine ⟨hrun, as, cs, hlinks.move ⟨b, hmem b rfl, rfl⟩, hledger.move ?_ ?_, hperm⟩ <;>
        (rw [ht]; rfl)
  | linking cur c =>
    simp only [ht] at hs hC
    split_ifs at hs with haddr hnode
    · obtain ⟨hsome, -⟩ := h.linkBehind ht hC (Option.not_isSome_iff_eq_none.mp haddr)
      rw [Option.isNone_iff_eq_none.mp hnode] at hsome
      cases hsome
    · cases hs
      exact (h.linkBehind ht hC (Option.not_isSome_iff_eq_none.mp haddr)).2
  | tailing cur c =>
    rw [ht] at hwithin
    obtain ⟨next, hnext, hmem⟩ := hlinks.next hwithin
    simp only [ht, hnext] at hs
    cases hs
    have hlinks' : ({ s with queue := { s.queue with tail := next } } :
        EngineThreads T α).Links as := hlinks.setTail hmem
    exact Inv.move ⟨hrun, as, cs, hlinks', hledger.setQueue rfl, hperm⟩ (fun _ _ => trivial)
      (by rw [ht]; rfl) (by rw [ht]; rfl)
  | releasing c =>
    simp only [ht] at hs
    cases hs
    exact h.release ht

/-- **A new call.** -/
theorem Inv.call {d : α} (h : s.Inv) (hs : s.call t d = some s') : s'.Inv := by
  obtain ⟨hrun, as, cs, hlinks, hledger, hperm⟩ := h
  rw [EngineThreads.call] at hs
  cases ht : s.producer t <;> rw [ht] at hs <;> cases hs
  exact ⟨hrun, as, cs, ⟨hlinks.nodup, hlinks.chain, hlinks.head, hlinks.tail,
    within_goto hlinks.within (List.Subset.refl as) trivial⟩, hledger.call, hperm⟩

/-- **A step** that is not disturbed. -/
theorem Inv.step {turn : Turn T α} (h : s.Inv) (hC : s.Undisturbed turn)
    (hs : s.step turn = some s') : s'.Inv := by
  unfold EngineThreads.step at hs
  rw [if_neg (by rw [h.1]; decide)] at hs
  cases turn with
  | call t d => exact h.call hs
  | produce t addr => exact h.produce hC hs
  | consume => exact h.consume hC hs

/-- **What is safe.** As long as no step is disturbed, every completed call is in the list or was
returned once, and the engine never finds the list empty. -/
theorem safe_of_undisturbed [DecidableEq α] {turns : List (Turn T α)}
    (hC : Along step Undisturbed start turns) (hs : exec step start turns = some s) : s.Safe :=
  (exec_invariant (I := Inv) (fun _ _ _ hI hC hs => hI.step hC hs) inv_start hC hs).safe

/-- Two servlets whose calls overlap: the one walks to the node that the other has just created. -/
def overlapping : List (Turn Bool ℕ) :=
  [.call false 7, .produce false 0, .call true 8, .produce false 0, .produce false 0,
    .produce true 0, .produce true 0, .produce false 0, .produce false 0, .produce true 0,
    .produce true 1, .produce true 0, .consume, .consume]

theorem safe_overlapping : ∃ s, exec step start overlapping = some s ∧ s.Safe := by
  obtain ⟨s, hs⟩ : ∃ s, exec step start overlapping = some s := ⟨_, rfl⟩
  exact ⟨s, hs, safe_of_undisturbed (by decide) hs⟩

/-- Two servlets that both find the queue empty. -/
def bothFindEmpty : List (Turn Bool ℕ) :=
  [.call false 7, .produce false 0, .produce false 0, .call true 8, .produce true 0,
    .produce true 0, .produce false 0, .produce false 0, .produce false 0, .produce true 1,
    .produce true 0, .produce true 0]

/-- **The first of the two events is lost**: its call has completed, and it is neither in the list
nor returned. -/
theorem not_safe_two_producers :
    ∃ s, exec step start bothFindEmpty = some s ∧ ¬ s.Safe := by
  obtain ⟨s, hs, hhead, hcell, hcompleted, hreturned⟩ :
      ∃ s, exec step start bothFindEmpty = some s ∧ s.queue.head = some 1 ∧
        s.queue.cells 1 = some ⟨(1, 8), none, none⟩ ∧ s.completed = [(0, 7), (1, 8)] ∧
        s.returned = [] := ⟨_, rfl, rfl, rfl, rfl, rfl⟩
  refine ⟨s, hs, ?_⟩
  intro h
  have hmem : (0, 7) ∈ s.completed := by simp [hcompleted]
  rcases h.accounted (0, 7) hmem with ⟨⟨a, n, hreach, hn, hvalue⟩, -⟩ | ⟨-, hcount⟩
  · rw [hhead] at hreach
    rcases hreach with _ | ⟨hnode, hreach⟩
    · rw [hcell] at hn
      cases hn
      cases hvalue
    · rw [hcell] at hnode
      cases hnode
      cases hreach
  · rw [hreturned] at hcount
    cases hcount

end EngineThreads

end Peep
