import Peep.EngineQueue
import Mathlib.Data.Multiset.AddSub

/-!
# What the engine queue looks like between two calls

The list of `engine_queue.c` is described by the links of its nodes, by `head` and `tail`, and by
the value of the semaphore, and an operation changes several of them. This module says what holds of
them together between two calls, when calls are made one after the other: the nodes are those on the
way from `head` to `tail`, `prev` leads back, no other node is allocated, and the semaphore counts
them. The order in which the events come out does not matter here.

## Main results

* `engineEnqueue_cells`, `engineDequeue_cells` — what the operations allocate and free
* `EngineQueueRun.completes_and_represents` — what holds in every run
-/

namespace Peep

open Linked StepSystem

variable {α : Type}

namespace EngineQueue

/-- The nodes that a walk along `next` visits until it comes to `NULL`. -/
def trail (q : EngineQueue α) : ℕ → Option ℕ → Option (List ℕ)
  | _, none => some []
  | 0, some _ => none
  | fuel + 1, some a => do
    let next ← q.next? a
    let rest ← q.trail fuel next
    some (a :: rest)

/-- `cur->prev`. -/
def prev? (q : EngineQueue α) (cur : ℕ) : Option (Option ℕ) := (q.cells cur).map Node.prev

variable {q q' : EngineQueue α} {as bs : List ℕ} {a b c : ℕ} {d v : α}

/-- **A walk along the list** visits its nodes. -/
theorem Represents.trail (h : q.Represents (bs ++ as)) :
    q.trail as.length as.head? = some as := by
  induction as generalizing bs with
  | nil => rfl
  | cons a as ih =>
    have hrest : q.trail as.length as.head? = some as :=
      ih (show q.Represents ((bs ++ [a]) ++ as) by rwa [List.append_assoc])
    show (q.next? a).bind
      (fun next => (q.trail as.length next).bind fun rest => some (a :: rest)) = _
    rw [h.next?, Option.bind_some, hrest, Option.bind_some]

/-! ## Allocation -/

/-- A walk ends at a node. -/
theorem isSome_of_walk {fuel cur last : ℕ} (h : q.walk fuel cur = some last) :
    (q.cells last).isSome := by
  induction fuel generalizing cur with
  | zero => cases h
  | succ fuel ih =>
    obtain ⟨n, hn, h⟩ := Option.bind_eq_some_iff.mp h
    cases n with
    | none =>
      obtain rfl := Option.some.inj h
      obtain ⟨node, hnode, -⟩ := Option.map_eq_some_iff.mp hn
      rw [hnode]
      rfl
    | some cur' => exact ih h

/-- **An enqueue allocates one node.** -/
theorem engineEnqueue_cells (ha : q.cells a = none) (h : engineEnqueue q d a = some q') (c : ℕ) :
    (q'.cells c).isSome ↔ (q.cells c).isSome ∨ c = a := by
  rw [engineEnqueue] at h
  cases hhead : q.head with
  | none =>
    rw [hhead] at h
    obtain rfl := Option.some.inj h
    rcases eq_or_ne c a with rfl | hca
    · simp [newHead, post]
    · simp [newHead, post, hca]
  | some hd =>
    rw [hhead] at h
    obtain ⟨cur, hcur, h⟩ := Option.bind_eq_some_iff.mp h
    obtain ⟨tail, -, h⟩ := Option.bind_eq_some_iff.mp h
    obtain rfl := Option.some.inj h
    refine isSome_link ?_
    rintro rfl
    have hsome := isSome_of_walk hcur
    rw [ha] at hsome
    cases hsome

/-- **A dequeue frees the last node.** -/
theorem engineDequeue_cells (h : q.Holds (as ++ [b])) (hq : engineDequeue q = some (v, q'))
    (c : ℕ) : (q'.cells c).isSome ↔ (q.cells c).isSome ∧ c ≠ b := by
  have htail : q.tail = some b := by simpa using h.tail
  obtain ⟨w, hb⟩ := h.chain.last
  rw [engineDequeue] at hq
  split_ifs at hq
  rcases List.eq_nil_or_concat' as with rfl | ⟨bs, a, rfl⟩
  · simp only [unlinkTail, htail, hb, free, Option.bind_eq_bind, Option.bind_some, lastOr_nil,
      Option.map_some, Option.some.injEq, Prod.mk.injEq] at hq
    obtain ⟨-, rfl⟩ := hq
    rcases eq_or_ne c b with rfl | hcb
    · simp
    · simp [hcb]
  · have hnd : (bs ++ [a, b]).Nodup := by simpa using h.nodup
    have hba : b ≠ a := by
      rintro rfl
      simpa using (List.nodup_append.mp hnd).2.1
    have hrep : q.Represents (bs ++ a :: [b]) := by simpa using h.toRepresents
    obtain ⟨n, hn, hnext⟩ := hrep.chain.next
    simp only [unlinkTail, EngineQueue.next?, htail, hb, hn, hnext, free, lastOr_concat,
      List.head?_cons, Option.bind_eq_bind, Option.bind_some, Option.map_some,
      Function.update_of_ne hba.symm, Option.some.injEq, Prod.mk.injEq] at hq
    obtain ⟨-, rfl⟩ := hq
    have hcut : (cut q.cells a b c).isSome ↔ (q.cells c).isSome ∧ c ≠ b := isSome_cut hba
    rwa [cut, hn, Option.map_some] at hcut

end EngineQueue

/-! ## Runs -/

namespace EngineQueueRun

open EngineQueue

/-- What is asked of a call: it completes, if `malloc` returns a free address and a dequeue finds
the queue nonempty. -/
def Completes (r : EngineQueueRun α) : EngineQueueCall α → Prop
  | .enqueue d addr => r.queue.cells addr = none → ∃ q, engineEnqueue r.queue d addr = some q
  | .dequeue => engineQueueEmpty r.queue = false → ∃ v q, engineDequeue r.queue = some (v, q)

/-- **The representation.** The queue is the list of the nodes at `as`. -/
structure Representation (r : EngineQueueRun α) (as : List ℕ) : Prop where
  /-- A walk from `head` along `next` visits these nodes, -/
  walk : r.queue.trail as.length r.queue.head = some as
  /-- ends at `tail`, -/
  tail : r.queue.tail = as.getLast?
  /-- and visits each of them once. -/
  nodup : as.Nodup
  /-- No other node is stored. -/
  stored : ∀ a, (r.queue.cells a).isSome ↔ a ∈ as
  /-- `prev` is the inverse of `next`. -/
  inverse : ∀ a ∈ as, ∀ b ∈ as,
    r.queue.next? a = some (some b) ↔ r.queue.prev? b = some (some a)
  /-- Before the first node there is none. -/
  first : ∀ a, r.queue.head = some a → r.queue.prev? a = some none
  /-- `head` and `tail` are `NULL` together, -/
  null : r.queue.head = none ↔ r.queue.tail = none
  /-- and they are if the queue is empty. -/
  empty : r.queue.head = none ↔ as = []
  /-- The semaphore counts the nodes. -/
  semaphore : r.queue.semaphore = as.length
  /-- What was enqueued was dequeued or is stored. -/
  conserved : (r.enqueued : Multiset α) = r.dequeued + r.queue.contents as

variable {r r' : EngineQueueRun α} {c : EngineQueueCall α} {as : List ℕ}

/-- What every call preserves: the list is valid, and no other node is allocated. -/
structure Allocated (r : EngineQueueRun α) (as : List ℕ) : Prop extends r.Valid as where
  /-- The nodes of the list are those that are allocated. -/
  stored : ∀ a, (r.queue.cells a).isSome ↔ a ∈ as

theorem allocated_start : (start : EngineQueueRun α).Allocated [] :=
  ⟨valid_start, fun a => by simp [start, engineQueueInit]⟩

theorem Allocated.step (h : r.Allocated as) (hr : r.step c = some r') :
    ∃ as', r'.Allocated as' := by
  obtain ⟨d, a, rfl, hvalid⟩ | ⟨bs, b, rfl, rfl, hvalid⟩ := h.toValid.step_cases hr
  · simp only [EngineQueueRun.step] at hr
    split_ifs at hr with ha
    obtain ⟨q, hq, rfl⟩ := Option.map_eq_some_iff.mp hr
    refine ⟨as ++ [a], hvalid, fun c => ?_⟩
    show (q.cells c).isSome ↔ c ∈ as ++ [a]
    rw [engineEnqueue_cells (by simpa using ha) hq, h.stored, List.mem_append, List.mem_singleton]
  · simp only [EngineQueueRun.step] at hr
    split_ifs at hr
    obtain ⟨⟨v, q⟩, hq, rfl⟩ := Option.map_eq_some_iff.mp hr
    have hnd := List.nodup_append.mp h.holds.nodup
    refine ⟨bs, hvalid, fun c => ?_⟩
    show (q.cells c).isSome ↔ c ∈ bs
    rw [engineDequeue_cells h.holds hq, h.stored, List.mem_append, List.mem_singleton]
    constructor
    · rintro ⟨hc | hc, hne⟩
      · exact hc
      · exact absurd hc hne
    · intro hc
      exact ⟨.inl hc, fun heq => hnd.2.2 c hc b List.mem_cons_self heq⟩

theorem Allocated.representation (h : r.Allocated as) : r.Representation as where
  walk := by
    have hrep : r.queue.Represents ([] ++ as) := h.holds.toRepresents
    have hwalk := hrep.trail
    rwa [← h.holds.head] at hwalk
  tail := h.holds.tail
  nodup := h.holds.nodup
  stored := h.stored
  inverse := fun _ ha _ hb => h.holds.chain.next_eq_iff_prev_eq ha hb
  first := by
    intro a ha
    rw [h.holds.head] at ha
    obtain ⟨as, rfl⟩ := List.head?_eq_some_iff.mp ha
    have hback : ∃ n, r.queue.cells a = some n ∧ n.prev = lastOr none [] :=
      Chain.prev h.holds.chain
    obtain ⟨n, hn, hprev⟩ := hback
    rw [prev?, hn, Option.map_some, hprev, lastOr_nil]
  null := by
    rw [h.holds.head, h.holds.tail, List.head?_eq_none_iff, List.getLast?_eq_none_iff]
  empty := by rw [h.holds.head, List.head?_eq_none_iff]
  semaphore := h.holds.semaphore
  conserved := Multiset.coe_eq_coe.mpr h.perm

theorem Allocated.completes (h : r.Allocated as) (c : EngineQueueCall α) : r.Completes c := by
  cases c with
  | enqueue d addr =>
    intro ha
    obtain ⟨q, hq, -⟩ := engineEnqueue_spec (d := d) h.holds ha
    exact ⟨q, hq⟩
  | dequeue =>
    intro hempty
    have hne : as ≠ [] := fun he => by simp [h.holds.empty_iff.mpr he] at hempty
    obtain ⟨bs, b, rfl⟩ := (List.eq_nil_or_concat' as).resolve_left hne
    obtain ⟨v, q, hq, -⟩ := engineDequeue_spec h.holds
    exact ⟨v, q, hq⟩

/-- **Every call completes, and leaves a well-formed list behind.** -/
theorem completes_and_represents (calls : List (EngineQueueCall α)) :
    Along step Completes (start : EngineQueueRun α) calls ∧
      ∀ r, exec step (start : EngineQueueRun α) calls = some r →
        ∃ as, r.Representation as := by
  constructor
  · exact along_of_invariant (I := fun r : EngineQueueRun α => ∃ as, r.Allocated as)
      (C := fun _ _ => True) (fun _ _ _ ⟨_, hI⟩ _ hs => hI.step hs)
      (fun _ c ⟨_, hI⟩ _ => hI.completes c) ⟨[], allocated_start⟩ (along_trivial _ _)
  · intro r hr
    obtain ⟨as, h⟩ : ∃ as, r.Allocated as :=
      exec_invariant (I := fun r : EngineQueueRun α => ∃ as, r.Allocated as)
        (C := fun _ _ => True) (fun _ _ _ ⟨_, hI⟩ _ hs => hI.step hs) ⟨[], allocated_start⟩
        (along_trivial _ _) hr
    exact ⟨as, h.representation⟩

end EngineQueueRun

end Peep
