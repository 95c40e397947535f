import Peep.MixerQueue

/-!
# The mixer queue between two threads

The engine thread puts events into the mixer queue and the mixer thread takes them out. `qlock`
guards the body of `mixerEnqueue` and that of `mixerDequeue`, but not `mixerQueueFull`, which
`engineIO` (`engine.c`) calls before the one, nor `mixerQueueEmpty`, which `mixer` (`mixer.c`) calls
before the other. So what a thread has found out may be out of date when it acts on it.

Here the two threads take turns in any order, and each turn is one of the two tests or one of the
two locked bodies. What a test has found stays true for the thread that made it: the other thread
can only make room, or add an event.

## Main results

* `bubbleUpPlaces_lt`, `bubbleDownPlaces_lt` — the places of the array that the loops look at
* `QueueThreads.safe_and_balanced` — what holds in every interleaving
-/

namespace Peep

open StepSystem

namespace MixerQueue

/-! ## Places

What the operations read and write, in the order in which they do. -/

/-- The places that `bubbleUp` looks at. -/
def bubbleUpPlaces : ℕ → MixerQueue → ℕ → List ℕ
  | 0, _, _ => []
  | fuel + 1, q, pos =>
    let parent := (pos + 1) / 2
    parent :: pos ::
      if q.key parent > q.key pos ∧ parent ≠ 0 then bubbleUpPlaces fuel (swap q parent pos) parent
      else []

/-- The places that `bubbleDown` looks at. -/
def bubbleDownPlaces : ℕ → MixerQueue → ℕ → List ℕ
  | 0, _, _ => []
  | fuel + 1, q, pos =>
    let lchild := (pos + 1) * 2 - 1
    let rchild := (pos + 1) * 2
    if lchild < q.top ∧ rchild < q.top then
      lchild :: rchild :: pos ::
        if q.key lchild ≤ q.key rchild ∧ q.key lchild < q.key pos then
          bubbleDownPlaces fuel (swap q pos lchild) lchild
        else if q.key rchild ≤ q.key lchild ∧ q.key rchild < q.key pos then
          bubbleDownPlaces fuel (swap q pos rchild) rchild
        else []
    else if lchild < q.top then [lchild, pos]
    else []

/-- The places that `mixerEnqueue` looks at. -/
def mixerEnqueuePlaces (q : MixerQueue) (newEvent : EngineEvent) : List ℕ :=
  q.top :: bubbleUpPlaces (q.top + 1) (q.assign q.top (some newEvent)) q.top

/-- The places that `mixerDequeue` looks at. -/
def mixerDequeuePlaces (q : MixerQueue) : List ℕ :=
  0 :: (q.top - 1) :: bubbleDownPlaces q.top q.lastToRoot 0

variable {q : MixerQueue} {n i : ℕ}

/-- `bubbleUp` does not look beyond the place where it starts. -/
theorem bubbleUpPlaces_lt {fuel pos : ℕ} (hpos : pos < n) (hi : i ∈ bubbleUpPlaces fuel q pos) :
    i < n := by
  induction fuel generalizing q pos with
  | zero => exact absurd hi List.not_mem_nil
  | succ fuel ih =>
    rw [bubbleUpPlaces] at hi
    rcases List.mem_cons.mp hi with rfl | hi
    · omega
    rcases List.mem_cons.mp hi with rfl | hi
    · exact hpos
    split_ifs at hi
    · exact ih (by omega) hi
    · exact absurd hi List.not_mem_nil

/-- `bubbleDown` does not look beyond the places in use. -/
theorem bubbleDownPlaces_lt {fuel pos : ℕ} (hi : i ∈ bubbleDownPlaces fuel q pos) : i < q.top := by
  induction fuel generalizing q pos with
  | zero => exact absurd hi List.not_mem_nil
  | succ fuel ih =>
    rw [bubbleDownPlaces] at hi
    split_ifs at hi with hboth hleft hright honly
    · simp only [List.mem_cons] at hi
      obtain rfl | rfl | rfl | hi := hi
      · exact hboth.1
      · exact hboth.2
      · omega
      · exact ih (q := swap q pos _) hi
    · simp only [List.mem_cons] at hi
      obtain rfl | rfl | rfl | hi := hi
      · exact hboth.1
      · exact hboth.2
      · omega
      · exact ih (q := swap q pos _) hi
    · simp only [List.mem_cons, List.not_mem_nil, or_false] at hi
      obtain rfl | rfl | rfl := hi
      · exact hboth.1
      · exact hboth.2
      · omega
    · simp only [List.mem_cons, List.not_mem_nil, or_false] at hi
      obtain rfl | rfl := hi
      · exact honly
      · omega
    · exact absurd hi List.not_mem_nil

/-- An event that is enqueued stays inside the array. -/
theorem mixerEnqueuePlaces_lt {e : EngineEvent} (h : q.top < q.queueSize)
    (hi : i ∈ mixerEnqueuePlaces q e) : i < q.queueSize := by
  rcases List.mem_cons.mp hi with rfl | hi
  · exact h
  · exact bubbleUpPlaces_lt h hi

/-- An event that is dequeued was inside the array. -/
theorem mixerDequeuePlaces_lt (h : q.top ≤ q.queueSize) (hpos : 0 < q.top)
    (hi : i ∈ mixerDequeuePlaces q) : i < q.queueSize := by
  rcases List.mem_cons.mp hi with rfl | hi
  · omega
  rcases List.mem_cons.mp hi with rfl | hi
  · omega
  · have hlt : i < q.top - 1 := bubbleDownPlaces_lt hi
    omega

end MixerQueue

/-! ## The threads -/

/-- The queue, what each thread has found out about it, and what has become of the events. -/
structure QueueThreads where
  /-- The queue. -/
  queue : MixerQueue
  /-- The event for which the engine has found that the queue is not full. -/
  engine : Option EngineEvent
  /-- Whether the mixer has found that the queue is not empty. -/
  mixer : Bool
  /-- The events enqueued. -/
  enqueued : Multiset EngineEvent
  /-- The events dequeued. -/
  dequeued : Multiset EngineEvent
  /-- The events that found the queue full. -/
  discarded : Multiset EngineEvent

/-- A turn of one of the threads. -/
inductive QueueTurn
  /-- `mixerQueueFull ()` in `engineIO`, for an event that has found no channel. -/
  | full (e : EngineEvent)
  /-- `mixerEnqueue (engine_event)`. -/
  | enqueue
  /-- `mixerQueueEmpty ()` in `mixer`. -/
  | empty
  /-- `mixerDequeue ()`. -/
  | dequeue

namespace QueueThreads

open MixerQueue

/-- Both threads begin with a fresh queue. -/
def start (size : ℕ) : QueueThreads := ⟨mixerQueueInit size, none, false, 0, 0, 0⟩

/-- One turn. A thread that has found out what it wants to know acts on it next. -/
def step (s : QueueThreads) : QueueTurn → Option QueueThreads
  | .full e =>
    if s.engine.isSome then none
    else if mixerQueueFull s.queue then some { s with discarded := e ::ₘ s.discarded }
    else some { s with engine := some e }
  | .enqueue => do
    let e ← s.engine
    let queue ← mixerEnqueue s.queue e
    some { s with queue := queue, engine := none, enqueued := e ::ₘ s.enqueued }
  | .empty =>
    if s.mixer then none
    else some { s with mixer := !mixerQueueEmpty s.queue }
  | .dequeue =>
    if s.mixer then do
      let (e, queue) ← mixerDequeue s.queue
      some { s with queue := queue, mixer := false, dequeued := e ::ₘ s.dequeued }
    else none

/-- What is asked of a locked body when a thread comes to it: the queue is as the thread has found
it, no place outside the array is looked at, and the loop in the body ends. -/
def Safe (s : QueueThreads) : QueueTurn → Prop
  | .enqueue => ∀ e, s.engine = some e → mixerQueueFull s.queue = false ∧
      (∀ i ∈ mixerEnqueuePlaces s.queue e, i < s.queue.queueSize) ∧
      ∃ queue, mixerEnqueue s.queue e = some queue
  | .dequeue => s.mixer = true → mixerQueueEmpty s.queue = false ∧
      (∀ i ∈ mixerDequeuePlaces s.queue, i < s.queue.queueSize) ∧
      ∃ e queue, mixerDequeue s.queue = some (e, queue)
  | _ => True

/-- What every turn preserves. -/
structure Balanced (s : QueueThreads) : Prop where
  /-- The places in use hold events. -/
  filled : Filled s.queue s.queue.top
  /-- There is room for an event that the engine is about to enqueue. -/
  room : s.engine.isSome → s.queue.top < s.queue.queueSize
  /-- There is an event if the mixer is about to dequeue one. -/
  waiting : s.mixer = true → 0 < s.queue.top
  /-- What was enqueued was dequeued or is still in the queue. -/
  balance : s.enqueued = s.dequeued + s.queue.contents

variable {s s' : QueueThreads} {turn : QueueTurn}

theorem balanced_start (size : ℕ) : (start size).Balanced :=
  ⟨⟨Nat.zero_le _, fun _ hi => absurd hi (Nat.not_lt_zero _)⟩, nofun, nofun, rfl⟩

theorem mixerQueueFull_eq_false {q : MixerQueue} (h : q.top < q.queueSize) :
    mixerQueueFull q = false := beq_eq_false_iff_ne.mpr h.ne

theorem mixerQueueEmpty_eq_false {q : MixerQueue} (h : 0 < q.top) : mixerQueueEmpty q = false :=
  beq_eq_false_iff_ne.mpr h.ne'

theorem Balanced.step (h : s.Balanced) (hs : s.step turn = some s') : s'.Balanced := by
  cases turn with
  | full e =>
    simp only [QueueThreads.step] at hs
    split_ifs at hs with hengine hfull <;> obtain rfl := Option.some.inj hs
    · exact ⟨h.filled, h.room, h.waiting, h.balance⟩
    · have hle := h.filled.le
      have hne : s.queue.top ≠ s.queue.queueSize := by simpa [mixerQueueFull] using hfull
      exact ⟨h.filled, fun _ => lt_of_le_of_ne hle hne, h.waiting, h.balance⟩
  | enqueue =>
    obtain ⟨e, he, hs⟩ := Option.bind_eq_some_iff.mp hs
    have hroom := h.room (by rw [he]; rfl)
    obtain ⟨q, hq, htop, hsize, hfill, hcont, -⟩ :=
      mixerEnqueue_spec h.filled (mixerQueueFull_eq_false hroom) e
    rw [hq] at hs
    obtain rfl := Option.some.inj hs
    refine ⟨hfill, fun hsome => ?_, fun _ => ?_, ?_⟩
    · cases hsome
    · show 0 < q.top
      omega
    · show e ::ₘ s.enqueued = s.dequeued + q.contents
      rw [hcont, h.balance, Multiset.add_cons]
  | empty =>
    simp only [QueueThreads.step] at hs
    split_ifs at hs
    obtain rfl := Option.some.inj hs
    refine ⟨h.filled, h.room, fun hempty => ?_, h.balance⟩
    have hne : s.queue.top ≠ 0 := by simpa [mixerQueueEmpty] using hempty
    exact Nat.pos_of_ne_zero hne
  | dequeue =>
    simp only [QueueThreads.step] at hs
    split_ifs at hs with hmixer
    have hwaiting := h.waiting hmixer
    obtain ⟨e, q, hq, -, htop, hsize, hfill, hcont, -⟩ :=
      mixerDequeue_spec h.filled (mixerQueueEmpty_eq_false hwaiting)
    rw [hq] at hs
    obtain rfl := Option.some.inj hs
    have hle := h.filled.le
    refine ⟨hfill, fun _ => ?_, fun htrue => absurd htrue Bool.false_ne_true, ?_⟩
    · show q.top < q.queueSize
      omega
    · show s.enqueued = e ::ₘ s.dequeued + q.contents
      rw [h.balance, ← hcont, Multiset.cons_add, Multiset.add_cons]

theorem Balanced.safe (h : s.Balanced) (turn : QueueTurn) : s.Safe turn := by
  cases turn with
  | full e => trivial
  | enqueue =>
    intro e he
    have hroom := h.room (by rw [he]; rfl)
    have hfull := mixerQueueFull_eq_false hroom
    obtain ⟨q, hq, -⟩ := mixerEnqueue_spec h.filled hfull e
    exact ⟨hfull, fun _ hi => mixerEnqueuePlaces_lt hroom hi, q, hq⟩
  | empty => trivial
  | dequeue =>
    intro hmixer
    have hwaiting := h.waiting hmixer
    have hempty := mixerQueueEmpty_eq_false hwaiting
    obtain ⟨e, q, hq, -⟩ := mixerDequeue_spec h.filled hempty
    exact ⟨hempty, fun _ hi => mixerDequeuePlaces_lt h.filled.le hwaiting hi, e, q, hq⟩

/-- **Every interleaving is safe, and no event is lost or duplicated.** The priorities, and the
order of the array, do not matter. -/
theorem safe_and_balanced (size : ℕ) (turns : List QueueTurn) :
    Along step Safe (start size) turns ∧ ∀ s, exec step (start size) turns = some s →
      s.enqueued = s.dequeued + s.queue.contents := by
  constructor
  · exact along_of_invariant (C := fun _ _ => True) (fun _ _ _ hI _ hs => hI.step hs)
      (fun _ turn hI _ => hI.safe turn) (balanced_start size) (along_trivial _ _)
  · intro s hs
    have hI : s.Balanced := exec_invariant (C := fun _ _ => True)
      (fun _ _ _ hI _ hs => Balanced.step hI hs) (balanced_start size) (along_trivial _ _) hs
    exact hI.balance

end QueueThreads

end Peep
