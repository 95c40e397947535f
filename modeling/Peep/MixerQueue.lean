import Peep.Event
import Peep.Library.HeapOrder
import Peep.Library.StepSystem
import Mathlib.Data.Multiset.Filter

/-!
# The mixer's priority queue

`mixer_queue.c`: events that found no free channel wait in an array of `queueSize` pointers, of
which the first `top` are in use. The array is meant to be a binary heap ordered by
`event.prior`, with the most urgent event, the one with the smallest `prior`, in place `0`.

`bubbleUp` and `bubbleDown` do not walk the same tree. `bubbleDown` looks at `2 * pos + 1` and
`2 * pos + 2`, the children of `pos` in a heap rooted at `0`. `bubbleUp`, under the comment
"Correct for offset 0 rather than 1", looks at `(pos + 1) / 2`, which is the right neighbour of
the parent of `pos` in that heap. Place `1` is compared with itself, so no enqueued event ever
reaches the root of a queue that is not empty.

## Failure

A pointer is an `Option`, and the operations return an `Option`: `none` is an access outside the
array, a `NULL` that is dereferenced, or a loop that did not end within its fuel.
`mixerEnqueue_spec` and `mixerDequeue_spec` say that none of these happens to a caller that
checks `mixerQueueFull` and `mixerQueueEmpty` first, whatever the order of the array.

## Main results

* `mixerEnqueue_spec`, `mixerDequeue_spec` — both operations complete, and what they do to the
  contents of the queue
* `bubbleDown_heapOrdered` — `bubbleDown` restores the heap order
* `QueueRun.returnsMinimal_of_inPlace` — every event dequeued is minimal in a run whose events
  were all enqueued `InPlace`
* `MixerQueue.mixerDequeue_restores` — a dequeue from a heap
-/

namespace Peep

open HeapOrder StepSystem

/-- `heap` and `top`. `queueSize` is the length the array was allocated with. -/
structure MixerQueue where
  /-- The array of event pointers. -/
  heap : Array (Option EngineEvent)
  /-- The number of places in use. -/
  top : ℕ
  deriving DecidableEq

namespace MixerQueue

/-- The allocated size of the heap. -/
def queueSize (q : MixerQueue) : ℕ := q.heap.size

/-- The event that `heap[i]` points to. -/
def slot? (q : MixerQueue) (i : ℕ) : Option EngineEvent := q.heap[i]?.join

/-- `heap[i]->event.prior`. -/
def prior? (q : MixerQueue) (i : ℕ) : Option ℕ := (q.slot? i).map fun e => e.event.prior.toNat

/-- The assignment `heap[i] = p`. -/
def assign (q : MixerQueue) (i : ℕ) (p : Option EngineEvent) : MixerQueue :=
  { q with heap := q.heap.setIfInBounds i p }

end MixerQueue

/-! ## The operations -/

/-- `mixerQueueInit`: `calloc` fills the array with `NULL`. -/
def mixerQueueInit (s : ℕ) : MixerQueue := ⟨Array.replicate s none, 0⟩

/-- `mixerQueueEmpty`. -/
def mixerQueueEmpty (q : MixerQueue) : Bool := q.top == 0

/-- `mixerQueueFull`. -/
def mixerQueueFull (q : MixerQueue) : Bool := q.top == q.queueSize

/-- `swap`. -/
def swap (q : MixerQueue) (i j : ℕ) : MixerQueue :=
  (q.assign i (q.slot? j)).assign j (q.slot? i)

/-- `bubbleUp`. The branch for `parent < 0` has no counterpart: a place in the array is not
negative, and neither is half of it. -/
def bubbleUp : ℕ → MixerQueue → ℕ → Option (MixerQueue × ℕ)
  | 0, _, _ => none
  | fuel + 1, q, pos => do
    let parent := (pos + 1) / 2
    let above ← q.prior? parent
    let here ← q.prior? pos
    if above > here then
      -- `done` was set before the comparison when `parent == 0`
      if parent = 0 then some (swap q parent pos, parent)
      else bubbleUp fuel (swap q parent pos) parent
    else some (q, pos)

/-- `mixerEnqueue`. -/
def mixerEnqueue (q : MixerQueue) (newEvent : EngineEvent) : Option MixerQueue :=
  if q.top < q.queueSize then do
    let (q', _) ← bubbleUp (q.top + 1) (q.assign q.top (some newEvent)) q.top
    some { q' with top := q'.top + 1 }
  else none

/-- `bubbleDown`. -/
def bubbleDown : ℕ → MixerQueue → ℕ → Option (MixerQueue × ℕ)
  | 0, _, _ => none
  | fuel + 1, q, pos =>
    let lchild := (pos + 1) * 2 - 1
    let rchild := (pos + 1) * 2
    if lchild < q.top ∧ rchild < q.top then do
      let l ← q.prior? lchild
      let r ← q.prior? rchild
      let here ← q.prior? pos
      if l ≤ r ∧ l < here then bubbleDown fuel (swap q pos lchild) lchild
      else if r ≤ l ∧ r < here then bubbleDown fuel (swap q pos rchild) rchild
      else some (q, pos)
    else if lchild < q.top then do
      let l ← q.prior? lchild
      let here ← q.prior? pos
      if l < here then some (swap q pos lchild, lchild) else some (q, pos)
    else some (q, pos)

/-- The assignment `heap[0] = heap[--top]`. -/
def MixerQueue.lastToRoot (q : MixerQueue) : MixerQueue :=
  { q.assign 0 (q.slot? (q.top - 1)) with top := q.top - 1 }

/-- `mixerDequeue`: the root, and the queue with its last entry sunk from the root. -/
def mixerDequeue (q : MixerQueue) : Option (EngineEvent × MixerQueue) :=
  if 0 < q.top then do
    let res ← q.slot? 0
    let (q', _) ← bubbleDown q.top q.lastToRoot 0
    some (res, q')
  else none

namespace MixerQueue

variable {q : MixerQueue} {n i j : ℕ}

/-! ## Places and contents -/

@[simp] theorem queueSize_assign (q : MixerQueue) (i : ℕ) (p) :
    (q.assign i p).queueSize = q.queueSize := by simp [queueSize, assign]

@[simp] theorem top_assign (q : MixerQueue) (i : ℕ) (p) : (q.assign i p).top = q.top := rfl

@[simp] theorem queueSize_swap (q : MixerQueue) (i j : ℕ) :
    (swap q i j).queueSize = q.queueSize := by simp [swap]

@[simp] theorem top_swap (q : MixerQueue) (i j : ℕ) : (swap q i j).top = q.top := rfl

theorem slot?_assign (hi : i < q.queueSize) (p : Option EngineEvent) :
    (q.assign i p).slot? = Function.update q.slot? i p := by
  funext k
  rcases eq_or_ne k i with rfl | hk
  · simp only [slot?, assign, Function.update_self]
    rw [Array.getElem?_setIfInBounds_self_of_lt hi]
    rfl
  · simp [slot?, assign, Function.update_of_ne hk, Array.getElem?_setIfInBounds_ne hk.symm]

theorem slot?_swap (hi : i < q.queueSize) (hj : j < q.queueSize) :
    (swap q i j).slot? = q.slot? ∘ Equiv.swap i j := by
  rw [swap, slot?_assign (by simpa using hj), slot?_assign hi]
  funext k
  rcases eq_or_ne k j with rfl | hkj
  · simp
  · rcases eq_or_ne k i with rfl | hki
    · simp [Function.update_of_ne hkj]
    · simp [Function.update_of_ne hkj, Function.update_of_ne hki,
        Equiv.swap_apply_of_ne_of_ne hki hkj]

/-- The priority of a place, `0` where there is no event. -/
def key (q : MixerQueue) (i : ℕ) : ℕ := (q.prior? i).getD 0

theorem key_swap (hi : i < q.queueSize) (hj : j < q.queueSize) :
    (swap q i j).key = q.key ∘ Equiv.swap i j := by
  funext k
  simp [key, prior?, slot?_swap hi hj]

theorem key_eq {e : EngineEvent} (h : q.slot? i = some e) : q.key i = e.event.prior.toNat := by
  simp [key, prior?, h]

/-- The first `n` places are inside the array and hold events. -/
structure Filled (q : MixerQueue) (n : ℕ) : Prop where
  /-- They are inside the array. -/
  le : n ≤ q.queueSize
  /-- None of them is `NULL`. -/
  event : ∀ i < n, ∃ e, q.slot? i = some e

theorem Filled.lt (h : Filled q n) (hi : i < n) : i < q.queueSize := hi.trans_le h.le

theorem Filled.prior? (h : Filled q n) (hi : i < n) : q.prior? i = some (q.key i) := by
  obtain ⟨e, he⟩ := h.event i hi
  simp [key, MixerQueue.prior?, he]

theorem Filled.swap (h : Filled q n) (hi : i < n) (hj : j < n) : Filled (swap q i j) n := by
  refine ⟨by simpa using h.le, ?_⟩
  intro k hk
  rw [slot?_swap (h.lt hi) (h.lt hj)]
  exact h.event _ (swap_lt hi hj hk)

/-- The events among the first `n` places, as a multiset. -/
def entries (q : MixerQueue) (n : ℕ) : Multiset EngineEvent :=
  ((Multiset.range n).map q.slot?).filterMap id

/-- The events that wait in the queue. -/
def contents (q : MixerQueue) : Multiset EngineEvent := q.entries q.top

@[simp] theorem entries_zero (q : MixerQueue) : q.entries 0 = 0 := rfl

theorem entries_succ {e : EngineEvent} (h : q.slot? n = some e) :
    q.entries (n + 1) = e ::ₘ q.entries n := by
  rw [entries, entries, Multiset.range_succ, Multiset.map_cons,
    Multiset.filterMap_cons_some id _ _ (by simpa using h)]

theorem entries_congr {q' : MixerQueue} (h : ∀ i < n, q.slot? i = q'.slot? i) :
    q.entries n = q'.entries n := by
  rw [entries, entries, Multiset.map_congr rfl fun i hi => h i (Multiset.mem_range.mp hi)]

theorem entries_swap (h : Filled q n) (hi : i < n) (hj : j < n) :
    (Peep.swap q i j).entries n = q.entries n := by
  rw [entries, slot?_swap (h.lt hi) (h.lt hj), map_range_swap _ hi hj, entries]

theorem mem_entries {e : EngineEvent} : e ∈ q.entries n ↔ ∃ i < n, q.slot? i = some e := by
  simp [entries, Multiset.mem_filterMap]

/-- The entries but the root, when the last of them is put in its place. -/
theorem entries_assign_root {r : EngineEvent} (h : Filled q (n + 1)) (hr : q.slot? 0 = some r) :
    r ::ₘ (q.assign 0 (q.slot? n)).entries n = q.entries (n + 1) := by
  have h0 : 0 < q.queueSize := h.lt (Nat.succ_pos n)
  cases n with
  | zero => rw [entries_zero, entries_succ hr, entries_zero]
  | succ m =>
    obtain ⟨e, he⟩ := h.event (m + 1) (Nat.lt_succ_self _)
    have hswap : (swap q 0 (m + 1)).entries (m + 2) = q.entries (m + 2) :=
      entries_swap h (by omega) (by omega)
    have hlast : (swap q 0 (m + 1)).slot? (m + 1) = some r := by
      rw [slot?_swap h0 (h.lt (by omega))]
      simpa using hr
    rw [← hswap, entries_succ hlast]
    refine congrArg _ (entries_congr ?_)
    intro i hi
    rw [slot?_swap h0 (h.lt (by omega)), slot?_assign h0]
    rcases Nat.eq_zero_or_pos i with rfl | hpos
    · simp
    · rw [Function.update_of_ne (by omega), Function.comp_apply,
        Equiv.swap_apply_of_ne_of_ne (by omega) (by omega)]

/-! ## The operations complete

Whatever its order, a filled array stays filled, and neither loop adds or loses an event. -/

/-- `q'` is `q` with its first `n` places permuted. -/
structure Rearranged (q q' : MixerQueue) (n : ℕ) : Prop where
  /-- The places still hold events. -/
  filled : Filled q' n
  /-- The allocation is the same. -/
  queueSize : q'.queueSize = q.queueSize
  /-- The number of places in use is the same. -/
  top : q'.top = q.top
  /-- The events are the same. -/
  entries : q'.entries n = q.entries n

theorem Rearranged.refl (h : Filled q n) : Rearranged q q n := ⟨h, rfl, rfl, rfl⟩

theorem Rearranged.trans {q' q'' : MixerQueue} (h : Rearranged q q' n)
    (h' : Rearranged q' q'' n) : Rearranged q q'' n :=
  ⟨h'.filled, h'.queueSize.trans h.queueSize, h'.top.trans h.top, h'.entries.trans h.entries⟩

theorem Filled.rearranged_swap (h : Filled q n) (hi : i < n) (hj : j < n) :
    Rearranged q (Peep.swap q i j) n :=
  ⟨h.swap hi hj, queueSize_swap .., rfl, entries_swap h hi hj⟩

theorem bubbleUp_rearranged : ∀ {fuel : ℕ} {q : MixerQueue} {pos : ℕ}, pos < fuel → pos < n →
    Filled q n → ∃ q' pos', bubbleUp fuel q pos = some (q', pos') ∧ Rearranged q q' n := by
  intro fuel
  induction fuel with
  | zero => intro q pos h; omega
  | succ fuel ih =>
    intro q pos hfuel hpos h
    have hle : (pos + 1) / 2 ≤ pos ∨ pos = 0 := by omega
    have hpar : (pos + 1) / 2 < n := by omega
    simp only [bubbleUp, h.prior? hpar, h.prior? hpos, Option.bind_eq_bind, Option.bind_some]
    split_ifs with hgt hzero
    · exact ⟨_, _, rfl, h.rearranged_swap hpar hpos⟩
    · -- the keys differ, so the place compared with is another one, and it is lower
      have hne : (pos + 1) / 2 ≠ pos := fun he => by rw [he] at hgt; omega
      have hsw := h.rearranged_swap hpar hpos
      obtain ⟨q', pos', heq, hq'⟩ := ih (q := swap q ((pos + 1) / 2) pos) (by omega) hpar hsw.filled
      exact ⟨q', pos', heq, hsw.trans hq'⟩
    · exact ⟨_, _, rfl, .refl h⟩

theorem bubbleDown_rearranged : ∀ {fuel : ℕ} {q : MixerQueue} {pos : ℕ}, q.top ≤ pos + fuel →
    0 < fuel → Filled q q.top → (pos < q.top ∨ q.top ≤ 1) →
    ∃ q' pos', bubbleDown fuel q pos = some (q', pos') ∧ Rearranged q q' q.top := by
  intro fuel
  induction fuel with
  | zero => intro q pos _ h; omega
  | succ fuel ih =>
    intro q pos hfuel _ h hpos
    have next : ∀ c, pos < c → c < q.top → c < (swap q pos c).top →
        ∃ q' pos', bubbleDown fuel (swap q pos c) c = some (q', pos') ∧
          Rearranged q q' q.top := fun c hlt hc hc' => by
      have hsw := h.rearranged_swap (show pos < q.top by omega) hc
      obtain ⟨q', pos', heq, hq'⟩ := @ih (swap q pos c) c
        (by rw [top_swap]; omega) (by omega) hsw.filled (Or.inl hc')
      exact ⟨q', pos', heq, hsw.trans hq'⟩
    simp only [bubbleDown]
    split_ifs with hboth hleft
    · have hp : pos < q.top := by omega
      simp only [h.prior? hboth.1, h.prior? hboth.2, h.prior? hp, Option.bind_eq_bind,
        Option.bind_some]
      split_ifs
      · exact next _ (by omega) hboth.1 hboth.1
      · exact next _ (by omega) hboth.2 hboth.2
      · exact ⟨_, _, rfl, .refl h⟩
    · have hp : pos < q.top := by omega
      simp only [h.prior? hleft, h.prior? hp, Option.bind_eq_bind, Option.bind_some]
      split_ifs
      · exact ⟨_, _, rfl, h.rearranged_swap hp hleft⟩
      · exact ⟨_, _, rfl, .refl h⟩
    · exact ⟨_, _, rfl, .refl h⟩

/-- A place other than the root never reaches the root. -/
theorem slot?_zero_bubbleUp : ∀ {fuel : ℕ} {q q' : MixerQueue} {pos pos' : ℕ}, 0 < pos →
    pos < n → Filled q n → bubbleUp fuel q pos = some (q', pos') → q'.slot? 0 = q.slot? 0 := by
  intro fuel
  induction fuel with
  | zero => intro q q' pos pos' _ _ _ heq; simp [bubbleUp] at heq
  | succ fuel ih =>
    intro q q' pos pos' h0 hpos h heq
    have hpar : (pos + 1) / 2 < n := by omega
    have hpar0 : 0 < (pos + 1) / 2 := by omega
    simp only [bubbleUp, h.prior? hpar, h.prior? hpos, Option.bind_eq_bind, Option.bind_some,
      if_neg (Nat.ne_of_gt hpar0)] at heq
    split_ifs at heq with hgt
    · rw [ih hpar0 hpar (h.swap hpar hpos) heq, slot?_swap (h.lt hpar) (h.lt hpos),
        Function.comp_apply, Equiv.swap_apply_of_ne_of_ne (by omega) (by omega)]
    · simp only [Option.some.injEq, Prod.mk.injEq] at heq
      rw [heq.1]

/-- **Enqueueing.** A queue that is not full takes the event and keeps the others. -/
theorem mixerEnqueue_spec (h : Filled q q.top) (hfull : mixerQueueFull q = false)
    (e : EngineEvent) : ∃ q', mixerEnqueue q e = some q' ∧ q'.top = q.top + 1 ∧
      q'.queueSize = q.queueSize ∧ Filled q' q'.top ∧ q'.contents = e ::ₘ q.contents ∧
      (0 < q.top → q'.slot? 0 = q.slot? 0) := by
  have hlt : q.top < q.queueSize := by
    have := h.le
    simp only [mixerQueueFull, beq_eq_false_iff_ne] at hfull
    omega
  have hslot : (q.assign q.top (some e)).slot? = Function.update q.slot? q.top (some e) :=
    slot?_assign hlt _
  have htop : (q.assign q.top (some e)).slot? q.top = some e := by rw [hslot]; simp
  have hbelow : ∀ i < q.top, (q.assign q.top (some e)).slot? i = q.slot? i := fun i hi => by
    rw [hslot, Function.update_of_ne (by omega)]
  have hfill : Filled (q.assign q.top (some e)) (q.top + 1) := by
    refine ⟨by rw [queueSize_assign]; exact hlt, ?_⟩
    intro i hi
    rcases Nat.lt_succ_iff_lt_or_eq.mp hi with hi' | rfl
    · rw [hbelow i hi']; exact h.event i hi'
    · exact ⟨e, htop⟩
  obtain ⟨q', pos', heq, hq'⟩ := bubbleUp_rearranged (Nat.lt_succ_self q.top) (by omega) hfill
  refine ⟨{ q' with top := q'.top + 1 }, by simp [mixerEnqueue, hlt, heq], ?_, ?_, ?_, ?_,
    fun hpos => (slot?_zero_bubbleUp hpos (Nat.lt_succ_self _) hfill heq).trans (hbelow 0 hpos)⟩
  · simp [hq'.top]
  · exact hq'.queueSize.trans (queueSize_assign ..)
  · rw [hq'.top]
    exact ⟨hq'.filled.le, hq'.filled.event⟩
  · calc ({ q' with top := q'.top + 1 } : MixerQueue).contents
        = q'.entries (q.top + 1) := by rw [contents, hq'.top]; rfl
      _ = (q.assign q.top (some e)).entries (q.top + 1) := hq'.entries
      _ = e ::ₘ q.contents := by rw [entries_succ htop, entries_congr hbelow]; rfl

theorem slot?_lastToRoot (h : Filled q (n + 1)) (hn : q.top = n + 1) :
    q.lastToRoot.slot? = Function.update q.slot? 0 (q.slot? n) := by
  have : q.lastToRoot.slot? = (q.assign 0 (q.slot? (q.top - 1))).slot? := rfl
  rw [this, slot?_assign (h.lt (Nat.succ_pos n)), hn, Nat.add_sub_cancel]

theorem Filled.lastToRoot (h : Filled q (n + 1)) (hn : q.top = n + 1) :
    Filled q.lastToRoot n := by
  constructor
  · have hle : n ≤ q.queueSize := (Nat.le_succ n).trans h.le
    exact hle.trans (queueSize_assign ..).ge
  intro i hi
  rw [slot?_lastToRoot h hn]
  rcases Nat.eq_zero_or_pos i with rfl | hpos
  · simpa using h.event n (Nat.lt_succ_self n)
  · rw [Function.update_of_ne (by omega)]
    exact h.event i (by omega)

theorem key_lastToRoot (h : Filled q (n + 1)) (hn : q.top = n + 1) :
    q.lastToRoot.key = Function.update q.key 0 (q.key n) := by
  funext i
  rcases eq_or_ne i 0 with rfl | hi
  · simp [key, prior?, slot?_lastToRoot h hn]
  · simp [key, prior?, slot?_lastToRoot h hn, Function.update_of_ne hi]

/-- **Dequeueing.** A queue that is not empty gives its root and keeps the others. -/
theorem mixerDequeue_spec (h : Filled q q.top) (hempty : mixerQueueEmpty q = false) :
    ∃ e q', mixerDequeue q = some (e, q') ∧ q.slot? 0 = some e ∧ q'.top + 1 = q.top ∧
      q'.queueSize = q.queueSize ∧ Filled q' q'.top ∧ e ::ₘ q'.contents = q.contents ∧
      ∃ pos', bubbleDown q.top q.lastToRoot 0 = some (q', pos') := by
  obtain ⟨n, hn⟩ : ∃ n, q.top = n + 1 := by
    simp only [mixerQueueEmpty, beq_eq_false_iff_ne] at hempty
    exact ⟨q.top - 1, by omega⟩
  rw [hn] at h
  obtain ⟨r, hr⟩ := h.event 0 (Nat.succ_pos n)
  have htop : q.lastToRoot.top = n := by simp [lastToRoot, hn]
  obtain ⟨q', pos', heq, hq'⟩ := @bubbleDown_rearranged q.top q.lastToRoot 0
    (by omega) (by omega) (htop ▸ h.lastToRoot hn) (by omega)
  refine ⟨r, q', ?_, hr, by rw [hq'.top, htop, hn], ?_, ?_, ?_, pos', heq⟩
  · rw [mixerDequeue, if_pos (by omega), hr]
    simp [heq]
  · exact hq'.queueSize.trans (queueSize_assign ..)
  · rw [hq'.top]
    exact hq'.filled
  · calc r ::ₘ q'.contents = r ::ₘ q.lastToRoot.entries n := by
          rw [contents, hq'.top, hq'.entries, htop]
      _ = r ::ₘ (q.assign 0 (q.slot? n)).entries n := by
          rw [lastToRoot, hn, Nat.add_sub_cancel]; rfl
      _ = q.contents := by rw [entries_assign_root h hr, contents, hn]

/-! ## Heap order -/

theorem parent_left (pos : ℕ) : parent ((pos + 1) * 2 - 1) = pos := by
  unfold parent
  omega

theorem parent_right (pos : ℕ) : parent ((pos + 1) * 2) = pos := by
  unfold parent
  omega

/-- The children of a place. -/
theorem child_cases {i pos : ℕ} (hi : 0 < i) (hp : parent i = pos) :
    i = (pos + 1) * 2 - 1 ∨ i = (pos + 1) * 2 := by
  have := (parent_eq_iff hi).mp hp
  omega

/-- Sinking to a smallest child that is smaller than `pos`. -/
theorem sinkOrdered_swap {pos c : ℕ} (h : Filled q q.top) (hs : SinkOrdered q.key q.top pos)
    (hpos : pos < q.top) (hc0 : 0 < c) (hc : c < q.top) (hpc : parent c = pos)
    (hlt : q.key c < q.key pos)
    (hmin : ∀ i, 0 < i → i < q.top → parent i = pos → q.key c ≤ q.key i) :
    SinkOrdered (swap q pos c).key (swap q pos c).top c := by
  rw [key_swap (h.lt hpos) (h.lt hc)]
  exact hs.swap hc0 hc hpc hmin hlt.le

/-- **`bubbleDown` sinks.** If only the edges that leave `pos` are in doubt, none is afterwards. -/
theorem bubbleDown_heapOrdered : ∀ {fuel : ℕ} {q q' : MixerQueue} {pos pos' : ℕ},
    Filled q q.top → pos < q.top → SinkOrdered q.key q.top pos →
    bubbleDown fuel q pos = some (q', pos') → HeapOrdered q'.key q.top := by
  intro fuel
  induction fuel with
  | zero => intro q q' pos pos' _ _ _ heq; simp [bubbleDown] at heq
  | succ fuel ih =>
    intro q q' pos pos' h hpos hs heq
    simp only [bubbleDown] at heq
    split_ifs at heq with hboth hleft
    · simp only [h.prior? hboth.1, h.prior? hboth.2, h.prior? hpos, Option.bind_eq_bind,
        Option.bind_some] at heq
      split_ifs at heq with hl hr
      · refine ih (q := swap q pos _) (h.swap hpos hboth.1) hboth.1
          (sinkOrdered_swap h hs hpos (by omega) hboth.1 (parent_left pos) hl.2 ?_) heq
        intro i hi0 hi hp
        rcases child_cases hi0 hp with rfl | rfl
        · exact le_refl _
        · exact hl.1
      · refine ih (q := swap q pos _) (h.swap hpos hboth.2) hboth.2
          (sinkOrdered_swap h hs hpos (by omega) hboth.2 (parent_right pos) hr.2 ?_) heq
        intro i hi0 hi hp
        rcases child_cases hi0 hp with rfl | rfl
        · exact hr.1
        · exact le_refl _
      · simp only [Option.some.injEq, Prod.mk.injEq] at heq
        rw [← heq.1]
        refine hs.heapOrdered ?_
        intro i hi0 hi hp
        rcases child_cases hi0 hp with rfl | rfl <;> omega
    · simp only [h.prior? hleft, h.prior? hpos, Option.bind_eq_bind, Option.bind_some] at heq
      have only : ∀ i, 0 < i → i < q.top → parent i = pos → i = (pos + 1) * 2 - 1 :=
        fun i hi0 hi hp => by have := child_cases hi0 hp; omega
      split_ifs at heq with hl <;> simp only [Option.some.injEq, Prod.mk.injEq] at heq
      · -- the left child is the last place of the array, so nothing is below it
        have hs' := sinkOrdered_swap h hs hpos (by omega) hleft (parent_left pos) hl
          fun i hi0 hi hp => by rw [only i hi0 hi hp]
        rw [← heq.1]
        refine hs'.heapOrdered ?_
        intro i hi0 hi hp
        have := (parent_eq_iff hi0).mp hp
        rw [top_swap] at hi
        omega
      · rw [← heq.1]
        refine hs.heapOrdered ?_
        intro i hi0 hi hp
        rw [only i hi0 hi hp]
        omega
    · simp only [Option.some.injEq, Prod.mk.injEq] at heq
      rw [← heq.1]
      refine hs.heapOrdered ?_
      intro i hi0 hi hp
      have := child_cases hi0 hp
      omega

theorem mixerDequeue_heapOrdered {q' : MixerQueue} {e : EngineEvent} (h : Filled q q.top)
    (ho : HeapOrdered q.key q.top) (hempty : mixerQueueEmpty q = false)
    (heq : mixerDequeue q = some (e, q')) : HeapOrdered q'.key q'.top := by
  obtain ⟨e', q'', heq', -, htop, -, -, -, pos', hb⟩ := mixerDequeue_spec h hempty
  obtain ⟨rfl, rfl⟩ : e' = e ∧ q'' = q' := by simpa [heq'] using heq
  have hlast : q.lastToRoot.top = q''.top := by simp [lastToRoot, ← htop]
  rcases Nat.eq_zero_or_pos q''.top with h0 | hpos
  · rw [h0]
    exact heapOrdered_zero _
  · rw [← htop] at h ho
    have hs : SinkOrdered q.lastToRoot.key q.lastToRoot.top 0 := by
      rw [key_lastToRoot h htop.symm, hlast]
      exact ho.sinkOrdered_update _
    rw [← hlast]
    exact bubbleDown_heapOrdered (hlast ▸ h.lastToRoot htop.symm) (hlast ▸ hpos) hs hb

/-- The event at the root of a heap is minimal. -/
theorem root_minimal {e e' : EngineEvent} (ho : HeapOrdered q.key q.top) (he : q.slot? 0 = some e)
    (he' : e' ∈ q.contents) : e.event.prior ≤ e'.event.prior := by
  obtain ⟨i, hi, hslot⟩ := mem_entries.mp he'
  have hle := ho.root_le i hi
  rwa [key_eq he, key_eq hslot] at hle

/-- The event needs no bubbling: neither its parent in the heap nor the right neighbour of its
parent, which is where `bubbleUp` looks, is less urgent than the event. -/
def InPlace (q : MixerQueue) (e : EngineEvent) : Prop :=
  (0 < q.top → q.key (parent q.top) ≤ e.event.prior.toNat) ∧
    ((q.top + 1) / 2 < q.top → q.key ((q.top + 1) / 2) ≤ e.event.prior.toNat)

theorem bubbleUp_of_inPlace {e : EngineEvent} (h : Filled q q.top) (hlt : q.top < q.queueSize)
    (he : InPlace q e) :
    bubbleUp (q.top + 1) (q.assign q.top (some e)) q.top
      = some (q.assign q.top (some e), q.top) := by
  have hslot := slot?_assign hlt (some e)
  have htop : (q.assign q.top (some e)).prior? q.top = some e.event.prior.toNat := by
    simp [MixerQueue.prior?, hslot]
  have hle : (q.top + 1) / 2 < q.top ∨ (q.top + 1) / 2 = q.top := by omega
  rcases hle with hne | heq
  · have habove : (q.assign q.top (some e)).prior? ((q.top + 1) / 2)
        = some (q.key ((q.top + 1) / 2)) := by
      rw [MixerQueue.prior?, hslot, Function.update_of_ne (by omega)]
      exact h.prior? hne
    simp [bubbleUp, htop, habove, he.2 hne]
  · simp [bubbleUp, heq, htop]

theorem mixerEnqueue_heapOrdered {e : EngineEvent} {q' : MixerQueue} (h : Filled q q.top)
    (ho : HeapOrdered q.key q.top) (he : InPlace q e) (heq : mixerEnqueue q e = some q') :
    HeapOrdered q'.key q'.top := by
  have hlt : q.top < q.queueSize := by
    by_contra hge
    simp [mixerEnqueue, hge] at heq
  obtain rfl : { q.assign q.top (some e) with top := q.top + 1 } = q' := by
    simpa [mixerEnqueue, hlt, bubbleUp_of_inPlace h hlt he] using heq
  have hslot := slot?_assign hlt (some e)
  have hkey : ∀ i < q.top, q.key i = (q.assign q.top (some e)).key i := fun i hi => by
    rw [key, key, MixerQueue.prior?, MixerQueue.prior?, hslot, Function.update_of_ne (by omega)]
  have hnew : (q.assign q.top (some e)).key q.top = e.event.prior.toNat := key_eq (by simp [hslot])
  refine (ho.congr hkey).snoc ?_
  intro hpos
  rw [hnew, ← hkey _ (parent_lt hpos)]
  exact he.1 hpos

end MixerQueue

/-! ## Runs

A caller enqueues only after `mixerQueueFull` said no and dequeues only after `mixerQueueEmpty`
did. The run keeps, beside the queue, the events enqueued and not yet dequeued. -/

/-- A call of one of the two operations. -/
inductive QueueCall
  /-- `mixerEnqueue (e)`. -/
  | enqueue (e : EngineEvent)
  /-- `mixerDequeue ()`. -/
  | dequeue

/-- The queue, and what a priority queue would hold in its place. -/
structure QueueRun where
  /-- The queue of the code. -/
  queue : MixerQueue
  /-- The events enqueued and not yet dequeued. -/
  pending : Multiset EngineEvent

namespace QueueRun

open MixerQueue

/-- A run starts with a fresh queue. -/
def start (s : ℕ) : QueueRun := ⟨mixerQueueInit s, 0⟩

/-- One call, made only where the caller's check allows it. -/
def step (r : QueueRun) : QueueCall → Option QueueRun
  | .enqueue e =>
    if mixerQueueFull r.queue then none
    else (mixerEnqueue r.queue e).map fun q => ⟨q, e ::ₘ r.pending⟩
  | .dequeue =>
    if mixerQueueEmpty r.queue then none
    else (mixerDequeue r.queue).map fun p => ⟨p.2, r.pending.erase p.1⟩

/-- What the priority order asks of a call: it completes, and a dequeue returns an event of
minimal `prior` among those pending. -/
def ReturnsMinimal (r : QueueRun) : QueueCall → Prop
  | .enqueue e => mixerQueueFull r.queue = false → ∃ q, mixerEnqueue r.queue e = some q
  | .dequeue => mixerQueueEmpty r.queue = false →
      ∃ e q, mixerDequeue r.queue = some (e, q) ∧ e ∈ r.pending ∧
        ∀ e' ∈ r.pending, e.event.prior ≤ e'.event.prior

/-- The condition on the calls: every event is enqueued in place. -/
def EnqueuesInPlace (r : QueueRun) : QueueCall → Prop
  | .enqueue e => InPlace r.queue e
  | .dequeue => True

/-- What the calls preserve. -/
structure Ordered (r : QueueRun) : Prop where
  /-- The places in use hold events. -/
  filled : Filled r.queue r.queue.top
  /-- They are in heap order. -/
  order : HeapOrdered r.queue.key r.queue.top
  /-- They hold the events that are pending. -/
  pending : r.pending = r.queue.contents

theorem ordered_start (s : ℕ) : (start s).Ordered :=
  ⟨⟨Nat.zero_le _, fun _ hi => absurd hi (Nat.not_lt_zero _)⟩, heapOrdered_zero _, rfl⟩

theorem Ordered.step {r r' : QueueRun} {c : QueueCall} (h : r.Ordered) (hc : r.EnqueuesInPlace c)
    (hr : r.step c = some r') : r'.Ordered := by
  cases c with
  | enqueue e =>
    simp only [QueueRun.step] at hr
    split_ifs at hr with hfull
    obtain ⟨q, hq, -, -, hfill, hcont, -⟩ := mixerEnqueue_spec h.filled (by simpa using hfull) e
    obtain rfl : ⟨q, e ::ₘ r.pending⟩ = r' := by simpa [hq] using hr
    exact ⟨hfill, mixerEnqueue_heapOrdered h.filled h.order hc hq, by rw [h.pending, hcont]⟩
  | dequeue =>
    simp only [QueueRun.step] at hr
    split_ifs at hr with hempty
    have hempty : mixerQueueEmpty r.queue = false := by simpa using hempty
    obtain ⟨e, q, hq, -, -, -, hfill, hcont, -⟩ := mixerDequeue_spec h.filled hempty
    obtain rfl : ⟨q, r.pending.erase e⟩ = r' := by simpa [hq] using hr
    refine ⟨hfill, mixerDequeue_heapOrdered h.filled h.order hempty hq, ?_⟩
    rw [h.pending, ← hcont, Multiset.erase_cons_head]

theorem Ordered.returnsMinimal {r : QueueRun} (h : r.Ordered) (c : QueueCall) :
    r.ReturnsMinimal c := by
  cases c with
  | enqueue e =>
    intro hfull
    obtain ⟨q, hq, -⟩ := mixerEnqueue_spec h.filled hfull e
    exact ⟨q, hq⟩
  | dequeue =>
    intro hempty
    obtain ⟨e, q, hq, hroot, -, -, -, hcont, -⟩ := mixerDequeue_spec h.filled hempty
    refine ⟨e, q, hq, by rw [h.pending, ← hcont]; exact Multiset.mem_cons_self .., ?_⟩
    intro e' he'
    rw [h.pending] at he'
    exact root_minimal h.order hroot he'

/-- **What is left of the priority order.** As long as every event is enqueued in place, every
event dequeued is minimal among those pending. -/
theorem returnsMinimal_of_inPlace (s : ℕ) (calls : List QueueCall)
    (h : Along step EnqueuesInPlace (start s) calls) :
    Along step ReturnsMinimal (start s) calls :=
  along_of_invariant (fun _ _ _ hI hC hs => hI.step hC hs) (fun _ c hI _ => hI.returnsMinimal c)
    (ordered_start s) h

/-- An event that differs from others of its kind in its priority. -/
def ofPrior (p : UInt8) : EngineEvent := ⟨⟨EVENT_T, 128, p, 255, 255, 0, 0, some []⟩, ⟨0, 0⟩⟩

/-- The calls of a run whose events come with the priorities given, all enqueued before the first
is dequeued. -/
def fillAndDrain (priors : List UInt8) : List QueueCall :=
  (priors.map fun p => .enqueue (ofPrior p)) ++ priors.map fun _ => .dequeue

/-- Two events in the order of their priorities come out in that order. -/
theorem returnsMinimal_zero_five :
    Along step ReturnsMinimal (start 2) (fillAndDrain [0, 5]) := by
  refine returnsMinimal_of_inPlace 2 _ ?_
  refine (along_cons_of_eq rfl).mpr ⟨⟨by decide, by decide⟩, ?_⟩
  refine (along_cons_of_eq rfl).mpr ⟨⟨by decide, by decide⟩, ?_⟩
  exact ⟨trivial, fun _ _ => ⟨trivial, fun _ _ => along_nil ..⟩⟩

/-- **An urgent event behind a lesser one.** With `5` at the root, `0` is enqueued in place `1`
and compared with itself; the dequeue returns `5`. -/
theorem not_returnsMinimal_five_zero :
    ¬ Along step ReturnsMinimal (start 2) (fillAndDrain [5, 0]) := by
  intro h
  have h := ((along_cons_of_eq rfl).mp h).2
  have h := ((along_cons_of_eq rfl).mp h).2
  obtain ⟨e, q, heq, -, hmin⟩ := h.1 rfl
  obtain rfl : ofPrior 5 = e := congrArg Prod.fst (Option.some.inj heq)
  have hmem : ofPrior 0 ∈ ofPrior 0 ::ₘ ofPrior 5 ::ₘ 0 := Multiset.mem_cons_self ..
  exact absurd (hmin (ofPrior 0) hmem) (by decide)

/-- However many events wait, one more urgent than the root stays behind it: the call that
follows its arrival returns the root. -/
theorem not_returnsMinimal_of_lt_root {r r' : QueueRun} {e root : EngineEvent}
    (hfill : Filled r.queue r.queue.top) (hroot : r.queue.slot? 0 = some root)
    (hpos : 0 < r.queue.top) (hlt : e.event.prior < root.event.prior)
    (hstep : r.step (.enqueue e) = some r') : ¬ r'.ReturnsMinimal .dequeue := by
  simp only [QueueRun.step] at hstep
  split_ifs at hstep with hfull
  obtain ⟨q, hq, htop, -, hfill', -, hsame⟩ := mixerEnqueue_spec hfill (by simpa using hfull) e
  obtain rfl : ⟨q, e ::ₘ r.pending⟩ = r' := by simpa [hq] using hstep
  intro h
  have hempty : mixerQueueEmpty q = false := by simp [mixerQueueEmpty, htop]
  obtain ⟨e', q', hdeq, -, hmin⟩ := h hempty
  obtain ⟨e'', q'', hdeq', hslot, -⟩ := mixerDequeue_spec hfill' hempty
  obtain rfl : e'' = e' := by simp_all
  obtain rfl : e'' = root := by
    rw [hsame hpos, hroot] at hslot
    exact (Option.some.inj hslot).symm
  exact absurd (hmin e (Multiset.mem_cons_self ..)) (UInt8.not_le.mpr hlt)

end QueueRun

/-! ## A single dequeue -/

namespace MixerQueue

/-- **`mixerDequeue` restores the heap.** Whatever the run that has filled the queue, if the events
are in heap order, a minimal one comes out, and the others stay in heap order. -/
theorem mixerDequeue_restores {q : MixerQueue} (h : Filled q q.top)
    (hempty : mixerQueueEmpty q = false) (ho : HeapOrdered q.key q.top) :
    ∃ e q', mixerDequeue q = some (e, q') ∧ (∀ e' ∈ q.contents, e.event.prior ≤ e'.event.prior) ∧
      q.contents = e ::ₘ q'.contents ∧ Filled q' q'.top ∧ HeapOrdered q'.key q'.top := by
  obtain ⟨e, q', hq, hroot, -, -, hfill, hcont, -⟩ := mixerDequeue_spec h hempty
  exact ⟨e, q', hq, fun _ he' => root_minimal ho hroot he', hcont.symm, hfill,
    mixerDequeue_heapOrdered h ho hempty hq⟩

/-- A heap of four events in a queue of five places. -/
def fourEvents : MixerQueue where
  heap := #[some (QueueRun.ofPrior 1), some (QueueRun.ofPrior 4), some (QueueRun.ofPrior 2),
    some (QueueRun.ofPrior 9), none]
  top := 4

/-- The event with priority `1` comes out of it, and the three others stay in heap order. -/
theorem mixerDequeue_restores_fourEvents : ∃ e q', mixerDequeue fourEvents = some (e, q') ∧
    (∀ e' ∈ fourEvents.contents, e.event.prior ≤ e'.event.prior) ∧
    fourEvents.contents = e ::ₘ q'.contents ∧ Filled q' q'.top ∧ HeapOrdered q'.key q'.top := by
  refine mixerDequeue_restores ⟨by decide, fun i hi => ?_⟩ rfl fun i hpos hi => ?_
  · obtain rfl | rfl | rfl | rfl : i = 0 ∨ i = 1 ∨ i = 2 ∨ i = 3 := by
      simp only [fourEvents] at hi
      omega
    all_goals exact ⟨_, rfl⟩
  · obtain rfl | rfl | rfl : i = 1 ∨ i = 2 ∨ i = 3 := by
      simp only [fourEvents] at hi
      omega
    all_goals decide

end MixerQueue

end Peep
