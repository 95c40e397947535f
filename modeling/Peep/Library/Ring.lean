import Mathlib.Data.List.Rotate
import Mathlib.Data.List.Sort
import Mathlib.Order.Minimal

/-!
# Sorted rings

A ring of entries that are sorted by a key, from one index on to the end of the list and then from
its beginning. The place of an index in that order is its `rank`. A search that begins at any index
and goes around comes to the first entry, in its own order, with at least a given key.

## Main results

* `SortedFrom.lt_iff` — keys are ordered as the places
* `exists_firstFrom` — the search finds an entry, if there is one
* `SortedFrom.filter_rotate` — the entries between two keys are a segment of the list, if they do
  not cross its end
-/

namespace Ring

/-- The place of `k` in a ring of `n` entries that begins at `q`. -/
def rank (n q k : ℕ) : ℕ := if q ≤ k then k - q else k + (n - q)

theorem rank_lt {n q k : ℕ} (hq : q < n) (hk : k < n) : rank n q k < n := by
  rw [rank]
  split <;> omega

theorem rank_inj {n q i j : ℕ} (hi : i < n) (hj : j < n) (h : rank n q i = rank n q j) :
    i = j := by
  rw [rank, rank] at h
  split at h <;> split at h <;> omega

/-- The index with a given place. -/
theorem rank_add_mod {n q k : ℕ} (hq : q < n) (hk : k < n) : (rank n q k + q) % n = k := by
  rw [rank]
  split
  · rw [Nat.sub_add_cancel ‹_›, Nat.mod_eq_of_lt hk]
  · have hsum : k + (n - q) + q = k + n := by omega
    rw [hsum, Nat.add_mod_right, Nat.mod_eq_of_lt hk]

variable {α β : Type*} [LinearOrder β] {key : α → β} {l : List α} {q f i j : ℕ} {a b t : β}

/-- The list is sorted from an index on. -/
structure SortedFrom (key : α → β) (l : List α) (q : ℕ) : Prop where
  /-- The index is in the list. -/
  lt_length : q < l.length
  /-- The ring that begins there is sorted. -/
  pairwise : (l.rotate q).Pairwise fun x y => key x < key y

/-- A ring is sorted by every key that has the same order. -/
theorem SortedFrom.congr {γ : Type*} [LinearOrder γ] {key' : α → γ} (h : SortedFrom key l q)
    (hkey : ∀ x ∈ l, ∀ y ∈ l, key' x < key' y ↔ key x < key y) : SortedFrom key' l q :=
  ⟨h.lt_length, h.pairwise.imp_of_mem fun hx hy hlt =>
    (hkey _ (List.mem_rotate.mp hx) _ (List.mem_rotate.mp hy)).mpr hlt⟩

/-- A list whose keys are a rotation of an increasing sequence is sorted from an index on. -/
theorem SortedFrom.of_isRotated {keys : List β} (hne : l ≠ [])
    (hrotated : (l.map key).IsRotated keys) (hkeys : keys.Pairwise (· < ·)) :
    ∃ q, SortedFrom key l q := by
  obtain ⟨n, rfl⟩ := hrotated
  refine ⟨n % l.length, Nat.mod_lt _ (List.length_pos_iff.mpr hne), ?_⟩
  rw [← List.map_rotate, List.pairwise_map] at hkeys
  rwa [List.rotate_mod]

/-- The entry with the first key that is not below `t`, in the order from `f` on. -/
def FirstFrom (key : α → β) (l : List α) (f : ℕ) (t : β) (j : ℕ) : Prop :=
  ∃ hj : j < l.length, t ≤ key l[j] ∧
    ∀ k (hk : k < l.length), rank l.length f k < rank l.length f j → key l[k] < t

/-- A first entry is one by every key that compares to its bound in the same way. -/
theorem firstFrom_congr {γ : Type*} [LinearOrder γ] {key' : α → γ} {t' : γ}
    (h : ∀ x ∈ l, t ≤ key x ↔ t' ≤ key' x) : FirstFrom key l f t j ↔ FirstFrom key' l f t' j := by
  refine exists_congr fun hj => and_congr (h _ (List.getElem_mem hj)) ?_
  refine forall₂_congr fun k hk => imp_congr_right fun _ => ?_
  rw [← not_le, ← not_le, h _ (List.getElem_mem hk)]

/-- There is a first entry, or all keys are below. -/
theorem exists_firstFrom (key : α → β) (l : List α) (f : ℕ) (t : β) :
    (∃ j, FirstFrom key l f t j) ∨ ∀ k (hk : k < l.length), key l[k] < t := by
  by_cases h : ∃ k, ∃ hk : k < l.length, t ≤ key l[k]
  · obtain ⟨j, ⟨hj, hkey⟩, hmin⟩ := exists_minimalFor_of_wellFoundedLT _ (rank l.length f) h
    refine .inl ⟨j, hj, hkey, fun k hk hrank => ?_⟩
    by_contra hnot
    exact absurd (hmin ⟨hk, not_lt.mp hnot⟩ hrank.le) (not_le.mpr hrank)
  · push Not at h
    exact .inr h

/-- There is only one first entry. -/
theorem FirstFrom.unique (h : FirstFrom key l f t i) (h' : FirstFrom key l f t j) : i = j := by
  obtain ⟨hi, hkey, hbefore⟩ := h
  obtain ⟨hj, hkey', hbefore'⟩ := h'
  have hle : rank l.length f i ≤ rank l.length f j :=
    not_lt.mp fun hlt => absurd (hbefore j hj hlt) (not_lt.mpr hkey')
  have hge : rank l.length f j ≤ rank l.length f i :=
    not_lt.mp fun hlt => absurd (hbefore' i hi hlt) (not_lt.mpr hkey)
  exact rank_inj hi hj (le_antisymm hle hge)

/-- **Keys are ordered as the places in the ring.** -/
theorem SortedFrom.lt_iff (h : SortedFrom key l q) (hi : i < l.length) (hj : j < l.length) :
    key l[i] < key l[j] ↔ rank l.length q i < rank l.length q j := by
  have hmono : ∀ {i j} (hi : i < l.length) (hj : j < l.length),
      rank l.length q i < rank l.length q j → key l[i] < key l[j] := by
    intro i j hi hj hrank
    have hpair := List.pairwise_iff_getElem.mp h.pairwise (rank l.length q i) (rank l.length q j)
      (by rw [List.length_rotate]; exact rank_lt h.lt_length hi)
      (by rw [List.length_rotate]; exact rank_lt h.lt_length hj) hrank
    simpa only [List.getElem_rotate, rank_add_mod h.lt_length hi, rank_add_mod h.lt_length hj]
      using hpair
  refine ⟨fun hkey => ?_, hmono hi hj⟩
  by_contra hnot
  rcases (not_lt.mp hnot).lt_or_eq with hlt | heq
  · exact lt_asymm hkey (hmono hj hi hlt)
  · obtain rfl := rank_inj hj hi heq
    exact lt_irrefl _ hkey

theorem SortedFrom.le_iff (h : SortedFrom key l q) (hi : i < l.length) (hj : j < l.length) :
    key l[i] ≤ key l[j] ↔ rank l.length q i ≤ rank l.length q j := by
  rw [← not_lt, ← not_lt, h.lt_iff hj hi]

/-- **The smallest key** is the one where the ring begins. -/
theorem SortedFrom.key_lt (h : SortedFrom key l q) (hq : q < l.length) (hj : j < l.length)
    (hne : j ≠ q) : key l[q] < key l[j] := by
  rw [h.lt_iff hq hj, rank, rank]
  split_ifs <;> omega

/-- Keys that are not below are those from the first entry on. -/
theorem SortedFrom.le_key_iff (h : SortedFrom key l q) (hfirst : FirstFrom key l q t i)
    (hj : j < l.length) : t ≤ key l[j] ↔ rank l.length q i ≤ rank l.length q j := by
  obtain ⟨hi, hkey, hbefore⟩ := hfirst
  refine ⟨fun hle => ?_, fun hrank => hkey.trans ((h.le_iff hi hj).mpr hrank)⟩
  by_contra hnot
  exact absurd hle (not_le.mpr (hbefore j hj (not_le.mp hnot)))

/-- Behind an entry with a key below `t` the search may begin at the next entry or at the beginning
of the ring. -/
theorem SortedFrom.firstFrom_max_iff (h : SortedFrom key l q) (hi : i < l.length)
    (hkey : key l[i] < t) (hij : i < j) :
    FirstFrom key l (max (i + 1) q) t j ↔ FirstFrom key l q t j := by
  refine exists_congr fun hj => and_congr_right fun _ => forall₂_congr fun k hk => ?_
  have hq := h.lt_length
  by_cases hle : rank l.length q k ≤ rank l.length q i
  · have hlt : key l[k] < t := ((h.le_iff hk hi).mpr hle).trans_lt hkey
    exact ⟨fun _ _ => hlt, fun _ _ => hlt⟩
  · have hrank : rank l.length (max (i + 1) q) k < rank l.length (max (i + 1) q) j ↔
        rank l.length q k < rank l.length q j := by
      simp only [rank] at hle ⊢
      split_ifs at hle ⊢ <;> omega
    rw [hrank]

/-- **The entries between two keys** are a segment of the list, if they do not cross its end. -/
theorem SortedFrom.filter_rotate (h : SortedFrom key l q) (hfirst : FirstFrom key l q a i)
    (hlast : FirstFrom key l q b j) (hi : i < l.length) (hkey : key l[i] < b) (hij : i < j)
    (p : α → Bool) (hp : ∀ x, p x = true ↔ a ≤ key x ∧ key x < b) :
    (l.rotate q).filter p = (l.drop i).take (j - i) := by
  have hj : j < l.length := hlast.1
  have hrank : rank l.length q i < rank l.length q j := by
    rw [← h.lt_iff hi hj]
    exact hkey.trans_le hlast.2.1
  -- the segment does not cross the beginning of the ring
  have hside : q ≤ i ∨ j < q := by
    rw [rank, rank] at hrank
    split_ifs at hrank <;> omega
  have hbetween : ∀ k, k < l.length →
      (rank l.length q i ≤ rank l.length q k ∧ rank l.length q k < rank l.length q j ↔
        i ≤ k ∧ k < j) := by
    intro k hk
    simp only [rank]
    split_ifs <;> omega
  refine List.Pairwise.eq_of_mem_iff (r := fun x y => key x < key y) (h.pairwise.filter p) ?_ ?_
  · rw [List.pairwise_iff_getElem]
    intro x y hx hy hxy
    rw [List.length_take, List.length_drop] at hx hy
    rw [List.getElem_take, List.getElem_take, List.getElem_drop, List.getElem_drop,
      h.lt_iff (by omega) (by omega)]
    simp only [rank]
    split_ifs <;> omega
  · intro x
    rw [List.mem_filter, List.mem_rotate, List.mem_iff_getElem, List.mem_iff_getElem]
    constructor
    · rintro ⟨⟨k, hk, rfl⟩, hx⟩
      have hx := (hp _).mp hx
      rw [h.le_key_iff hfirst hk, ← not_le, h.le_key_iff hlast hk, not_le, hbetween k hk] at hx
      refine ⟨k - i, by rw [List.length_take, List.length_drop]; omega, ?_⟩
      rw [List.getElem_take, List.getElem_drop]
      congr
      omega
    · rintro ⟨k, hk, rfl⟩
      rw [List.length_take, List.length_drop] at hk
      rw [List.getElem_take, List.getElem_drop]
      have hk' : i + k < l.length := by omega
      refine ⟨⟨i + k, hk', rfl⟩, (hp _).mpr ?_⟩
      rw [h.le_key_iff hfirst hk', ← not_le, h.le_key_iff hlast hk', not_le, hbetween _ hk']
      omega

end Ring
