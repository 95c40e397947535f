import Peep.Library.Linked
import Peep.Library.StepSystem
import Mathlib.Data.List.Infix

/-!
# The engine queue, one call at a time

`engine_queue.c`: the servlets hand events to the engine thread through a doubly linked list with
the globals `head` and `tail` and a semaphore that counts the events. This module runs the calls
one after the other; `Peep.EngineQueue.Concurrent` takes them apart into the steps that several
threads interleave.

`engineEnqueue` walks to the end of the list and links the new node there. `engineDequeue` takes
the node at `tail`, which is the node that was linked last: the list is a stack.

## Choices

The queue copies events and never looks into one, so it is generic in them. `malloc` returns an
address that is not allocated, and the caller of the model chooses which. The walk needs a bound
on its length, and `mallocs`, the number of nodes ever allocated, is one; the code keeps no such
count. An operation returns `none` when it would block, follow a pointer to a node that is not
allocated, or free one.

## Main results

* `engineEnqueue_spec`, `engineDequeue_spec` — the list is a stack: its last event is the one
  enqueued last and the one dequeued first
* `EngineQueueRun.inOrder_iff_alone` — first in, first out, exactly when every event is dequeued
  before the next one is enqueued
-/

namespace Peep

open Linked StepSystem

/-- The nodes of the list, the globals `head`, `tail` and `semaphore`, and a bound on the length of
the list. -/
structure EngineQueue (α : Type) where
  /-- The allocated `ENGINE_QUEUE_ELEMENT`s. -/
  cells : Memory α
  /-- `head`. -/
  head : Option ℕ
  /-- `tail`. -/
  tail : Option ℕ
  /-- The value of `semaphore`. -/
  semaphore : ℕ
  /-- How many nodes were ever allocated. -/
  mallocs : ℕ

variable {α : Type}

/-- `engineQueueInit`. -/
def engineQueueInit : EngineQueue α := ⟨fun _ => none, none, none, 0, 0⟩

/-- `engineQueueEmpty`. -/
def engineQueueEmpty (q : EngineQueue α) : Bool := q.head.isNone

namespace EngineQueue

/-- `head = malloc (...)` and the initialisation of its fields. -/
def newHead (q : EngineQueue α) (addr : ℕ) (d : α) : EngineQueue α :=
  { q with
    cells := Function.update q.cells addr (some ⟨d, none, none⟩)
    head := some addr
    mallocs := q.mallocs + 1 }

/-- `cur_pos->next = malloc (...)` and the initialisation of its fields. -/
def linkBehind (q : EngineQueue α) (cur addr : ℕ) (d : α) : EngineQueue α :=
  { q with cells := link q.cells cur addr d, mallocs := q.mallocs + 1 }

/-- `cur->next`. -/
def next? (q : EngineQueue α) (cur : ℕ) : Option (Option ℕ) := (q.cells cur).map Node.next

/-- `while (cur_pos->next != NULL) cur_pos = cur_pos->next`. -/
def walk (q : EngineQueue α) : ℕ → ℕ → Option ℕ
  | 0, _ => none
  | fuel + 1, cur => (q.next? cur).bind fun n =>
      match n with
      | none => some cur
      | some cur => walk q fuel cur

/-- `semaphoreRelease`. -/
def post (q : EngineQueue α) : EngineQueue α := { q with semaphore := q.semaphore + 1 }

/-- `free`, which does nothing on `NULL`. -/
def free (cells : Memory α) : Option ℕ → Option (Memory α)
  | none => some cells
  | some a => (cells a).map fun _ => Function.update cells a none

/-- `engineDequeue` after it has acquired the semaphore. -/
def unlinkTail (q : EngineQueue α) : Option (α × EngineQueue α) := do
  let t ← q.tail
  let node ← q.cells t
  match node.prev with
  | some p =>
    -- `tail = tail->prev; free (tail->next); tail->next = NULL`
    let freed ← q.next? p
    let cells ← free q.cells freed
    let before ← cells p
    some (node.value,
      { q with
        cells := Function.update cells p (some { before with next := none })
        tail := some p })
  | none =>
    let cells ← free q.cells (some t)
    some (node.value, { q with cells := cells, head := none, tail := none })

end EngineQueue

open EngineQueue in
/-- `engineEnqueue`, with the address that `malloc` returns. -/
def engineEnqueue (q : EngineQueue α) (d : α) (addr : ℕ) : Option (EngineQueue α) :=
  match q.head with
  | none =>
    let q := q.newHead addr d
    some (EngineQueue.post { q with tail := q.head })
  | some h => do
    let cur ← q.walk q.mallocs h
    let q := q.linkBehind cur addr d
    let tail ← q.next? cur
    some (EngineQueue.post { q with tail := tail })

open EngineQueue in
/-- `engineDequeue`; `none` also where `semaphoreAcquire` would block. -/
def engineDequeue (q : EngineQueue α) : Option (α × EngineQueue α) :=
  if q.semaphore = 0 then none else
    EngineQueue.unlinkTail { q with semaphore := q.semaphore - 1 }

namespace EngineQueue

variable {q : EngineQueue α} {as bs : List ℕ} {a b : ℕ} {d : α}

/-! ## The list -/

/-- The globals describe the list of the nodes at `as`. -/
structure Represents (q : EngineQueue α) (as : List ℕ) : Prop where
  /-- No node is visited twice. -/
  nodup : as.Nodup
  /-- The nodes are linked in both directions. -/
  chain : Chain q.cells none as
  /-- `head` is the first of them. -/
  head : q.head = as.head?
  /-- `tail` is the last of them. -/
  tail : q.tail = as.getLast?

/-- What the list holds, from `head` to `tail`. -/
def contents (q : EngineQueue α) (as : List ℕ) : List α := values q.cells as

theorem Represents.next? (h : q.Represents (bs ++ a :: as)) : q.next? a = some as.head? := by
  obtain ⟨n, hn, hnext⟩ := h.chain.next
  simp [EngineQueue.next?, hn, hnext]

/-- The walk from any node ends at the last one. -/
theorem Represents.walk (h : q.Represents (bs ++ a :: as)) : ∀ {fuel : ℕ}, as.length < fuel →
    q.walk fuel a = (a :: as).getLast? := by
  induction as generalizing bs a with
  | nil =>
    intro fuel hfuel
    obtain ⟨fuel, rfl⟩ := Nat.exists_eq_succ_of_ne_zero (Nat.ne_of_gt hfuel)
    simp [EngineQueue.walk, h.next?]
  | cons c as ih =>
    intro fuel hfuel
    obtain ⟨fuel, rfl⟩ := Nat.exists_eq_succ_of_ne_zero (by omega : fuel ≠ 0)
    have h' : q.Represents ((bs ++ [a]) ++ c :: as) := by simpa using h
    have := @ih _ _ h' fuel (by simpa using hfuel)
    simp [EngineQueue.walk, h.next?, this]

theorem Represents.walk_head (h : q.Represents (a :: as)) {fuel : ℕ} (hfuel : as.length < fuel) :
    q.walk fuel a = (a :: as).getLast? := @Represents.walk _ _ _ [] _ h fuel hfuel

/-- **Linking at the end.** -/
theorem Represents.linkBehind (h : q.Represents (bs ++ [a])) (hb : q.cells b = none) :
    ({ q.linkBehind a b d with tail := some b } : EngineQueue α).Represents (bs ++ [a, b]) ∧
      (q.linkBehind a b d).contents (bs ++ [a, b]) = q.contents (bs ++ [a]) ++ [d] := by
  have hb' : b ∉ bs ++ [a] := fun hm => by
    obtain ⟨n, hn⟩ := h.chain.exists_node hm
    rw [hb] at hn
    cases hn
  refine ⟨⟨?_, h.chain.link h.nodup hb', ?_, ?_⟩, values_link h.chain hb'⟩
  · rw [show bs ++ [a, b] = (bs ++ [a]) ++ [b] by simp]
    exact List.nodup_append.mpr ⟨h.nodup, List.nodup_singleton b,
      fun x hx y hy he => hb' (by simp_all)⟩
  · have : q.head = (bs ++ [a]).head? := h.head
    rw [show (q.linkBehind a b d).head = q.head from rfl, this]
    cases bs <;> rfl
  · simp

/-- **Cutting off the last node.** -/
theorem Represents.unlinkTail (h : q.Represents (as ++ [b])) :
    ∃ v q', q.unlinkTail = some (v, q') ∧ q'.Represents as ∧ q'.semaphore = q.semaphore ∧
      q'.mallocs = q.mallocs ∧ q.contents (as ++ [b]) = q'.contents as ++ [v] := by
  obtain ⟨v, hv⟩ := h.chain.last
  have htail : q.tail = some b := by simpa using h.tail
  rcases List.eq_nil_or_concat' as with rfl | ⟨bs, a, rfl⟩
  · refine ⟨v, { q with cells := Function.update q.cells b none, head := none, tail := none },
      ?_, ⟨List.nodup_nil, trivial, rfl, rfl⟩, rfl, rfl, ?_⟩
    · simp [EngineQueue.unlinkTail, htail, hv, free]
    · exact values_singleton hv
  · have hnd : (bs ++ [a, b]).Nodup := by simpa using h.nodup
    have hchain : Chain q.cells none (bs ++ [a, b]) := by simpa using h.chain
    have hnext : q.next? a = some (some b) := by
      have h' : q.Represents (bs ++ a :: [b]) := by simpa using h
      exact h'.next?
    obtain ⟨n, hn, -⟩ := hchain.next
    have hab : a ≠ b := by
      rintro rfl
      simpa using (List.nodup_append.mp hnd).2.1
    have hcells : cut q.cells a b
        = Function.update (Function.update q.cells b none) a (some { n with next := none }) := by
      rw [cut, hn]
      rfl
    refine ⟨v, { q with cells := cut q.cells a b, tail := some a }, ?_,
      ⟨h.nodup.sublist (List.sublist_append_left ..), hchain.cut hnd, ?_, by simp⟩, rfl, rfl, ?_⟩
    · have hprev : lastOr none (bs ++ [a]) = some a := lastOr_concat ..
      simp [EngineQueue.unlinkTail, htail, hv, hprev, hnext, free, hn, hcells, hab]
    · have : q.head = ((bs ++ [a]) ++ [b]).head? := h.head
      rw [show ({ q with cells := cut q.cells a b, tail := some a } : EngineQueue α).head = q.head
        from rfl, this]
      cases bs <;> rfl
    · rw [contents, values_append, values_singleton hv]
      exact congrArg (· ++ [v]) (values_cut hnd).symm

/-! ## The operations -/

/-- The queue between two calls holds the nodes at `as`. -/
structure Holds (q : EngineQueue α) (as : List ℕ) : Prop extends q.Represents as where
  /-- The semaphore counts the nodes. -/
  semaphore : q.semaphore = as.length
  /-- The bound on the walk. -/
  mallocs : as.length ≤ q.mallocs

theorem holds_engineQueueInit : (engineQueueInit : EngineQueue α).Holds [] :=
  ⟨⟨List.nodup_nil, trivial, rfl, rfl⟩, rfl, Nat.le_refl _⟩

theorem Holds.empty_iff (h : q.Holds as) : engineQueueEmpty q = true ↔ as = [] := by
  rw [engineQueueEmpty, h.head, Option.isNone_iff_eq_none, List.head?_eq_none_iff]

/-- **Enqueueing puts the event last.** -/
theorem engineEnqueue_spec (h : q.Holds as) (ha : q.cells a = none) :
    ∃ q', engineEnqueue q d a = some q' ∧ q'.Holds (as ++ [a]) ∧
      q'.contents (as ++ [a]) = q.contents as ++ [d] := by
  rcases as with _ | ⟨hd, tl⟩
  · have hhead : q.head = none := by simpa using h.head
    refine ⟨({ q.newHead a d with tail := some a } : EngineQueue α).post, ?_, ⟨?_, ?_, ?_⟩, ?_⟩
    · simp [engineEnqueue, hhead, newHead]
    · exact ⟨List.nodup_singleton a, ⟨⟨d, by simp [newHead, post]⟩, trivial⟩, rfl, rfl⟩
    · simp [post, newHead, h.semaphore]
    · simp [post, newHead]
    · exact values_singleton (n := ⟨d, none, none⟩) (by simp [newHead, post])
  · have hhead : q.head = some hd := by simpa using h.head
    have hwalk : q.walk q.mallocs hd = (hd :: tl).getLast? :=
      h.toRepresents.walk_head h.mallocs
    obtain ⟨bs, c, hbs⟩ : ∃ bs c, hd :: tl = bs ++ [c] :=
      (List.eq_nil_or_concat' (hd :: tl)).resolve_left (by simp)
    rw [hbs] at h hwalk ⊢
    obtain ⟨hrep, hcont⟩ := h.toRepresents.linkBehind (d := d) ha
    have hrep' : ({ q.linkBehind c a d with tail := some a } : EngineQueue α).Represents
        (bs ++ c :: [a]) := hrep
    have hnext : (q.linkBehind c a d).next? c = some (some a) := hrep'.next?
    refine ⟨({ q.linkBehind c a d with tail := some a } : EngineQueue α).post, ?_, ⟨?_, ?_, ?_⟩, ?_⟩
    · simp [engineEnqueue, hhead, hwalk, hnext]
    · rw [List.append_assoc]
      exact ⟨hrep.nodup, hrep.chain, hrep.head, hrep.tail⟩
    · simp [post, EngineQueue.linkBehind, h.semaphore]
    · have := h.mallocs
      simp only [List.length_append, List.length_singleton, post, EngineQueue.linkBehind] at this ⊢
      omega
    · rw [List.append_assoc]
      exact hcont

/-- **Dequeueing takes the last event.** -/
theorem engineDequeue_spec (h : q.Holds (as ++ [b])) :
    ∃ v q', engineDequeue q = some (v, q') ∧ q'.Holds as ∧
      q.contents (as ++ [b]) = q'.contents as ++ [v] := by
  have hsem : q.semaphore = as.length + 1 := by simpa using h.semaphore
  obtain ⟨v, q', hq, hrep, hs, hm, hcont⟩ :=
    Represents.unlinkTail (q := { q with semaphore := q.semaphore - 1 })
      ⟨h.nodup, h.chain, h.head, h.tail⟩
  refine ⟨v, q', by rw [engineDequeue, if_neg (by omega), hq], ⟨hrep, ?_, ?_⟩, hcont⟩
  · rw [hs]; simp [hsem]
  · rw [hm]
    have := h.mallocs
    simp only [List.length_append, List.length_singleton] at this
    exact (Nat.le_succ _).trans this

end EngineQueue

/-! ## Runs

A dequeue on an empty queue blocks, so a run makes one only when the queue is not empty. The run
keeps the events in the order in which they were enqueued and the order in which they came out. -/

/-- A call of one of the two operations. -/
inductive EngineQueueCall (α : Type)
  /-- `engineEnqueue (d)`, in which `malloc` returns `addr`. -/
  | enqueue (d : α) (addr : ℕ)
  /-- `engineDequeue ()`. -/
  | dequeue

/-- The event that a call enqueues. -/
def EngineQueueCall.event? : EngineQueueCall α → Option α
  | .enqueue d _ => some d
  | .dequeue => none

/-- The queue, and what went in and came out. -/
structure EngineQueueRun (α : Type) where
  /-- The queue of the code. -/
  queue : EngineQueue α
  /-- The events passed to `engineEnqueue`, oldest first. -/
  enqueued : List α
  /-- The events returned by `engineDequeue`, oldest first. -/
  dequeued : List α

namespace EngineQueueRun

open EngineQueue

/-- A run starts with a fresh queue. -/
def start : EngineQueueRun α := ⟨engineQueueInit, [], []⟩

/-- One call: `malloc` returns an address that is free, and a dequeue finds the queue nonempty. -/
def step (r : EngineQueueRun α) : EngineQueueCall α → Option (EngineQueueRun α)
  | .enqueue d addr =>
    if (r.queue.cells addr).isSome then none
    else (engineEnqueue r.queue d addr).map fun q =>
      { r with queue := q, enqueued := r.enqueued ++ [d] }
  | .dequeue =>
    if engineQueueEmpty r.queue then none
    else (engineDequeue r.queue).map fun p =>
      { r with queue := p.2, dequeued := r.dequeued ++ [p.1] }

/-- What first in, first out asks of a call: it completes, and what has come out after it is a
prefix of what went in. -/
def InOrder (r : EngineQueueRun α) : EngineQueueCall α → Prop
  | .enqueue d addr => r.queue.cells addr = none → ∃ q, engineEnqueue r.queue d addr = some q
  | .dequeue => engineQueueEmpty r.queue = false →
      ∃ v q, engineDequeue r.queue = some (v, q) ∧ r.dequeued ++ [v] <+: r.enqueued

/-- The condition on the calls: a dequeue finds a single node in the list. -/
def Alone (r : EngineQueueRun α) : EngineQueueCall α → Prop
  | .enqueue _ _ => True
  | .dequeue => r.queue.head = r.queue.tail

instance (r : EngineQueueRun α) (c : EngineQueueCall α) : Decidable (r.Alone c) :=
  match c with
  | .enqueue _ _ => .isTrue trivial
  | .dequeue => inferInstanceAs (Decidable (_ = _))

variable {r r' : EngineQueueRun α} {c : EngineQueueCall α} {as bs : List ℕ} {a b : ℕ} {v : α}

/-- **What a call does** to the list and to the two sequences. -/
theorem step_cases (h : r.queue.Holds as) (hr : r.step c = some r') :
    (∃ d a, c = .enqueue d a ∧ r'.queue.Holds (as ++ [a]) ∧
      r'.queue.contents (as ++ [a]) = r.queue.contents as ++ [d] ∧
      r'.enqueued = r.enqueued ++ [d] ∧ r'.dequeued = r.dequeued) ∨
    (∃ bs b v, c = .dequeue ∧ as = bs ++ [b] ∧ r'.queue.Holds bs ∧
      r.queue.contents as = r'.queue.contents bs ++ [v] ∧
      r'.enqueued = r.enqueued ∧ r'.dequeued = r.dequeued ++ [v]) := by
  cases c with
  | enqueue d a =>
    simp only [step] at hr
    split_ifs at hr with ha
    obtain ⟨q, hq, hholds, hcont⟩ := engineEnqueue_spec (d := d) h (by simpa using ha)
    obtain rfl : { r with queue := q, enqueued := r.enqueued ++ [d] } = r' := by
      simpa [hq] using hr
    exact .inl ⟨d, a, rfl, hholds, hcont, rfl, rfl⟩
  | dequeue =>
    simp only [step] at hr
    split_ifs at hr with hempty
    obtain ⟨bs, b, rfl⟩ := (List.eq_nil_or_concat' as).resolve_left (hempty ∘ h.empty_iff.mpr)
    obtain ⟨v, q, hq, hholds, hcont⟩ := engineDequeue_spec h
    obtain rfl : { r with queue := q, dequeued := r.dequeued ++ [v] } = r' := by
      simpa [hq] using hr
    exact .inr ⟨bs, b, v, rfl, rfl, hholds, hcont, rfl, rfl⟩

/-- What every call preserves: the list is well formed, and it holds one event for each one that
went in and has not come out. -/
structure Valid (r : EngineQueueRun α) (as : List ℕ) : Prop where
  /-- The nodes of the list. -/
  holds : r.queue.Holds as
  /-- Nothing is lost and nothing is duplicated. -/
  perm : r.enqueued.Perm (r.dequeued ++ r.queue.contents as)

theorem valid_start : (start : EngineQueueRun α).Valid [] := ⟨holds_engineQueueInit, .nil⟩

theorem Valid.step_cases (h : r.Valid as) (hr : r.step c = some r') :
    (∃ d a, c = .enqueue d a ∧ r'.Valid (as ++ [a])) ∨
      ∃ bs b, c = .dequeue ∧ as = bs ++ [b] ∧ r'.Valid bs := by
  obtain ⟨d, a, rfl, hholds, hcont, hin, hout⟩ | ⟨bs, b, v, rfl, rfl, hholds, hcont, hin, hout⟩ :=
    EngineQueueRun.step_cases h.holds hr
  · refine .inl ⟨d, a, rfl, hholds, ?_⟩
    rw [hcont, hin, hout, ← List.append_assoc]
    exact h.perm.append_right [d]
  · refine .inr ⟨bs, b, rfl, rfl, hholds, ?_⟩
    rw [hin, hout, List.append_assoc]
    refine h.perm.trans (.append_left _ ?_)
    rw [hcont]
    exact List.perm_append_comm

theorem Valid.step (h : r.Valid as) (hr : r.step c = some r') : ∃ as', r'.Valid as' := by
  obtain ⟨-, a, -, hvalid⟩ | ⟨bs, -, -, -, hvalid⟩ := h.step_cases hr
  · exact ⟨as ++ [a], hvalid⟩
  · exact ⟨bs, hvalid⟩

/-- **No event is lost or duplicated** by calls made one after the other, in whatever order they
come out. -/
theorem exec_valid {calls : List (EngineQueueCall α)} (h : exec step start calls = some r) :
    ∃ as, r.Valid as :=
  exec_invariant (I := fun r : EngineQueueRun α => ∃ as, r.Valid as) (C := fun _ _ => True)
    (fun _ _ _ ⟨_, hI⟩ _ hs => hI.step hs) ⟨[], valid_start⟩ (along_trivial _ _) h

/-- What the calls preserve that find a single node: the events also come out in order. -/
structure Fifo (r : EngineQueueRun α) (as : List ℕ) : Prop where
  /-- The nodes of the list. -/
  holds : r.queue.Holds as
  /-- What went in is what came out followed by what is in the list. -/
  order : r.enqueued = r.dequeued ++ r.queue.contents as

theorem fifo_start : (start : EngineQueueRun α).Fifo [] := ⟨holds_engineQueueInit, rfl⟩

/-- `head` and `tail` meet in a list of one node only. -/
theorem eq_nil_of_head_eq_tail {q : EngineQueue α} (h : q.Represents (bs ++ [b]))
    (heq : q.head = q.tail) : bs = [] := by
  rcases bs with _ | ⟨c, bs⟩
  · rfl
  · have htail : q.tail = some b := h.tail.trans List.getLast?_concat
    have hcb : c = b := by simpa [h.head, htail] using heq
    have := h.nodup
    simp [hcb] at this

theorem Fifo.step (h : r.Fifo as) (hc : r.Alone c) (hr : r.step c = some r') :
    ∃ as', r'.Fifo as' := by
  obtain ⟨d, a, -, hholds, hcont, hin, hout⟩ | ⟨bs, b, v, rfl, rfl, hholds, hcont, hin, hout⟩ :=
    step_cases h.holds hr
  · refine ⟨_, hholds, ?_⟩
    rw [hcont, hin, hout, h.order, List.append_assoc]
  · obtain rfl := eq_nil_of_head_eq_tail h.holds.toRepresents hc
    refine ⟨_, hholds, ?_⟩
    rw [hin, hout, h.order, hcont]
    simp [contents, values]

theorem Fifo.inOrder (h : r.Fifo as) (hc : r.Alone c) : r.InOrder c := by
  cases c with
  | enqueue d a =>
    intro ha
    obtain ⟨q, hq, -⟩ := engineEnqueue_spec (d := d) h.holds ha
    exact ⟨q, hq⟩
  | dequeue =>
    intro hempty
    have hne : as ≠ [] := fun he => by simp [h.holds.empty_iff.mpr he] at hempty
    obtain ⟨bs, b, rfl⟩ := (List.eq_nil_or_concat' as).resolve_left hne
    obtain rfl := eq_nil_of_head_eq_tail h.holds.toRepresents hc
    obtain ⟨v, q, hq, -, hcont⟩ := engineDequeue_spec h.holds
    refine ⟨v, q, hq, ?_⟩
    rw [h.order, hcont]
    simp [contents, values]

/-- **What is left of the order.** The events come out in order as long as each is dequeued
before the next is enqueued. -/
theorem inOrder_of_alone {calls : List (EngineQueueCall α)}
    (h : Along step Alone start calls) : Along step InOrder start calls :=
  along_of_invariant (I := fun r : EngineQueueRun α => ∃ as, r.Fifo as)
    (fun _ _ _ ⟨_, hI⟩ hC hs => hI.step hC hs)
    (fun _ _ ⟨_, hI⟩ hC => hI.inOrder hC) ⟨[], fifo_start⟩ h

/-- Conversely, a dequeue that keeps the order finds a single node, if the events it finds are
distinct. -/
theorem Fifo.alone (h : r.Fifo as) (hnd : r.enqueued.Nodup) (hc : r.InOrder .dequeue)
    (hempty : engineQueueEmpty r.queue = false) : r.Alone .dequeue := by
  have hne : as ≠ [] := fun he => by simp [h.holds.empty_iff.mpr he] at hempty
  obtain ⟨bs, b, rfl⟩ := (List.eq_nil_or_concat' as).resolve_left hne
  obtain ⟨v, q, hq, hholds, hcont⟩ := engineDequeue_spec h.holds
  obtain ⟨v', q', hq', hpre⟩ := hc hempty
  obtain ⟨rfl, rfl⟩ : v' = v ∧ q' = q := by simpa [hq, eq_comm] using hq'
  rw [h.order, hcont, List.prefix_append_right_inj] at hpre
  rw [h.order, hcont] at hnd
  have hbs : bs = [] := by
    rcases hcs : q'.contents bs with _ | ⟨w, ws⟩
    · have := hholds.chain.length_values
      rw [show values q'.cells bs = [] from hcs] at this
      exact List.length_eq_zero_iff.mp this.symm
    · -- the first event in the list is then the last one again
      rw [hcs, List.cons_append, List.cons_prefix_cons] at hpre
      rw [hcs, hpre.1] at hnd
      simpa using (List.nodup_append.mp hnd).2.1
  subst hbs
  rw [Alone, h.holds.head, h.holds.tail]
  rfl

theorem step_enqueued (h : r.queue.Holds as) (hr : r.step c = some r') :
    r'.enqueued = r.enqueued ++ c.event?.toList := by
  obtain ⟨d, a, rfl, -, -, hin, -⟩ | ⟨bs, b, v, rfl, -, -, -, hin, -⟩ := step_cases h hr
  · exact hin
  · rw [hin]
    exact (List.append_nil _).symm

theorem along_alone_of_inOrder {calls : List (EngineQueueCall α)} (h : r.Fifo as)
    (hnd : (r.enqueued ++ calls.filterMap EngineQueueCall.event?).Nodup)
    (hin : Along step InOrder r calls) : Along step Alone r calls := by
  induction calls generalizing r as with
  | nil => trivial
  | cons c calls ih =>
    have halone : r.Alone c := by
      cases c with
      | enqueue d a => trivial
      | dequeue =>
        cases hempty : engineQueueEmpty r.queue with
        | false => exact h.alone hnd.of_append_left hin.1 hempty
        | true =>
          rw [Alone, h.holds.head, h.holds.tail, h.holds.empty_iff.mp hempty]
          rfl
    refine ⟨halone, ?_⟩
    intro r' hr
    obtain ⟨as', h'⟩ := h.step halone hr
    refine ih h' ?_ (hin.2 r' hr)
    rw [step_enqueued h.holds hr, List.append_assoc]
    cases c <;> exact hnd

/-- **Exactly then**, when the events enqueued are distinct. -/
theorem inOrder_iff_alone {calls : List (EngineQueueCall α)}
    (hnd : (calls.filterMap EngineQueueCall.event?).Nodup) :
    Along step InOrder start calls ↔ Along step Alone start calls :=
  ⟨along_alone_of_inOrder fifo_start hnd, inOrder_of_alone⟩

end EngineQueueRun

end Peep
