import Mathlib.Data.Multiset.Range
import Mathlib.Logic.Equiv.Basic
import Mathlib.Order.Basic

/-!
# Heap order on a prefix of a sequence

A binary min-heap stored in an array, with the root in place `0`: the children of `i` are
`2 * i + 1` and `2 * i + 2`. The array is a function `f : ℕ → κ` of which only the first `n` places
count, and the order is that of the keys, so that the same lemmas serve an array of records
once it is composed with the projection to the key.

Sinking is the exchange of a place with its smallest child, repeated. `SinkOrdered f n p` is what
holds in between: every edge is in order except those that leave `p`.

## Main results

* `HeapOrdered.root_le` — the root is minimal
* `HeapOrdered.snoc` — appending in order
* `HeapOrdered.sinkOrdered_update` — replacing the root and dropping the last place
* `SinkOrdered.swap`, `SinkOrdered.heapOrdered` — one exchange, and the end of the sinking
* `map_range_swap` — an exchange keeps the multiset of the entries
-/

namespace HeapOrder

variable {κ : Type*} {f : ℕ → κ} {n p : ℕ}

/-- The place above `i` in a heap whose root is in place `0`. -/
def parent (i : ℕ) : ℕ := (i - 1) / 2

theorem parent_lt {i : ℕ} (h : 0 < i) : parent i < i := by unfold parent; omega

theorem parent_eq_iff {i : ℕ} (h : 0 < i) : parent i = p ↔ i = 2 * p + 1 ∨ i = 2 * p + 2 := by
  unfold parent; omega

section Preorder

variable [Preorder κ]

/-- Every entry among the first `n` is at or above its parent. -/
def HeapOrdered (f : ℕ → κ) (n : ℕ) : Prop := ∀ i, 0 < i → i < n → f (parent i) ≤ f i

/-- Every edge is in order except those that leave `p`, and the entries below `p` are in order
with the entry above it. -/
structure SinkOrdered (f : ℕ → κ) (n p : ℕ) : Prop where
  /-- The edges that do not leave `p`. -/
  off : ∀ i, 0 < i → i < n → parent i ≠ p → f (parent i) ≤ f i
  /-- The edges that skip `p`. -/
  across : 0 < p → ∀ i, 0 < i → i < n → parent i = p → f (parent p) ≤ f i

theorem heapOrdered_zero (f : ℕ → κ) : HeapOrdered f 0 := fun _ _ hi => absurd hi (by omega)

theorem HeapOrdered.root_le (h : HeapOrdered f n) : ∀ i, i < n → f 0 ≤ f i := by
  intro i
  induction i using Nat.strong_induction_on with
  | _ i ih =>
    intro hi
    rcases Nat.eq_zero_or_pos i with rfl | hpos
    · exact le_refl _
    · have hp : parent i < i := parent_lt hpos
      exact (ih _ hp (hp.trans hi)).trans (h i hpos hi)

theorem HeapOrdered.congr {g : ℕ → κ} (h : HeapOrdered f n) (hfg : ∀ i < n, f i = g i) :
    HeapOrdered g n := by
  intro i hpos hi
  rw [← hfg i hi, ← hfg _ ((parent_lt hpos).trans hi)]
  exact h i hpos hi

/-- An entry appended at or above its parent keeps the order. -/
theorem HeapOrdered.snoc (h : HeapOrdered f n) (hn : 0 < n → f (parent n) ≤ f n) :
    HeapOrdered f (n + 1) := by
  intro i hpos hi
  rcases Nat.lt_succ_iff_lt_or_eq.mp hi with hlt | rfl
  · exact h i hpos hlt
  · exact hn hpos

/-- The root may be overwritten by anything: only the edges that leave it are in doubt. -/
theorem HeapOrdered.sinkOrdered_update (h : HeapOrdered f (n + 1)) (x : κ) :
    SinkOrdered (Function.update f 0 x) n 0 := by
  refine ⟨?_, fun h0 => absurd h0 (by omega)⟩
  intro i hpos hi hne
  rw [Function.update_of_ne hne, Function.update_of_ne (by omega)]
  exact h i hpos (by omega)

theorem SinkOrdered.congr {g : ℕ → κ} (h : SinkOrdered f n p) (hp : p < n)
    (hfg : ∀ i < n, f i = g i) : SinkOrdered g n p := by
  constructor
  · intro i hpos hi hne
    rw [← hfg i hi, ← hfg _ ((parent_lt hpos).trans hi)]
    exact h.off i hpos hi hne
  · intro h0 i hpos hi he
    rw [← hfg i hi, ← hfg _ ((parent_lt h0).trans hp)]
    exact h.across h0 i hpos hi he

/-- Nothing below `p` is smaller, so nothing is in doubt any more. -/
theorem SinkOrdered.heapOrdered (h : SinkOrdered f n p)
    (hp : ∀ i, 0 < i → i < n → parent i = p → f p ≤ f i) : HeapOrdered f n := by
  intro i hpos hi
  by_cases he : parent i = p
  · rw [he]; exact hp i hpos hi he
  · exact h.off i hpos hi he

/-- **One exchange.** `c` is the smallest child of `p` and at or below it. -/
theorem SinkOrdered.swap {c : ℕ} (h : SinkOrdered f n p) (hc0 : 0 < c) (hc : c < n)
    (hpc : parent c = p) (hmin : ∀ i, 0 < i → i < n → parent i = p → f c ≤ f i)
    (hle : f c ≤ f p) : SinkOrdered (f ∘ Equiv.swap p c) n c := by
  have hlt : p < c := hpc ▸ parent_lt hc0
  have hoff : ∀ i, i ≠ p → i ≠ c → (f ∘ Equiv.swap p c) i = f i := fun i h1 h2 => by
    rw [Function.comp_apply, Equiv.swap_apply_of_ne_of_ne h1 h2]
  have hp' : (f ∘ Equiv.swap p c) p = f c := by simp
  have hc' : (f ∘ Equiv.swap p c) c = f p := by simp
  constructor
  · intro i hpos hi hne
    rcases eq_or_ne i c with rfl | hic
    · rw [hpc, hp', hc']; exact hle
    rcases eq_or_ne i p with rfl | hip
    · have hpi := parent_lt hpos
      rw [hp', hoff _ (by omega) (by omega)]
      exact h.across hpos c hc0 hc hpc
    · rw [hoff i hip hic]
      by_cases hpar : parent i = p
      · rw [hpar, hp']; exact hmin i hpos hi hpar
      · rw [hoff _ hpar hne]; exact h.off i hpos hi hpar
  · intro _ i hpos hi he
    have hci : c < i := he ▸ parent_lt hpos
    rw [hpc, hp', hoff i (by omega) (by omega)]
    have := h.off i hpos hi (by omega)
    rwa [he] at this

end Preorder

theorem swap_lt {i j k : ℕ} (hi : i < n) (hj : j < n) (hk : k < n) : Equiv.swap i j k < n := by
  rw [Equiv.swap_apply_def]
  split_ifs <;> assumption

/-- An exchange of two places below `n` permutes the first `n` entries. -/
theorem map_range_swap (f : ℕ → κ) {i j : ℕ} (hi : i < n) (hj : j < n) :
    (Multiset.range n).map (f ∘ Equiv.swap i j) = (Multiset.range n).map f := by
  rw [← Multiset.map_map]
  congr 1
  refine ((Multiset.nodup_range n).map (Equiv.swap i j).injective).ext (Multiset.nodup_range n)
    |>.mpr fun k => ?_
  simp only [Multiset.mem_map, Multiset.mem_range]
  constructor
  · rintro ⟨m, hm, rfl⟩
    exact swap_lt hi hj hm
  · intro hk
    exact ⟨Equiv.swap i j k, swap_lt hi hj hk, Equiv.swap_apply_self i j k⟩

end HeapOrder
