import Mathlib.Data.List.Basic
import Mathlib.Data.List.TakeWhile
import Mathlib.Order.MinMax

/-!
# Lists of what expires

Every entry of a list has a time at which it expires. New entries come to the end of the list, old
ones are renewed where they are, and a sweep removes those that have expired. A sweep that can only
remove entries from the front of the list does its work if no entry that has expired is behind one
that has not.

## Main results

* `sweepable_iff` — a list can be swept at all times from a given one on exactly if the entries that
  have not expired by then expire in the order of the list
* `expiresInOrder_renewFirst_iff` — when renewing an entry keeps a list in order
* `exists_of_renewFirst` — what renewing the first entry of a kind does
* `not_sweepable` — what is behind an entry that is renewed
-/

namespace Expiring

variable {α τ : Type*} [LinearOrder τ] {e : α → τ} {now t : τ} {x : α} {l : List α}
  {p : α → Bool} {f : α → α}

/-- No entry that has expired at that time is behind one that has not. -/
def Sweepable (e : α → τ) (t : τ) (l : List α) : Prop := l.Pairwise fun x y => e y ≤ t → e x ≤ t

/-- The entries that have not expired expire in the order of the list. -/
def ExpiresInOrder (e : α → τ) (now : τ) (l : List α) : Prop :=
  l.Pairwise fun x y => e x ≤ max now (e y)

/-- What a sweep leaves. -/
def sweep (e : α → τ) (t : τ) (l : List α) : List α := l.filter fun x => ¬ e x ≤ t

/-- The first entry that passes a test is renewed. -/
def renewFirst (p : α → Bool) (f : α → α) (l : List α) : List α :=
  l.replaceF fun x => if p x then some (f x) else none

/-- What is behind the first entry that passes a test. -/
def behindFirst (p : α → Bool) (l : List α) : List α := (l.dropWhile fun x => !p x).tail

instance (e : α → τ) (t : τ) (l : List α) : Decidable (Sweepable e t l) :=
  inferInstanceAs (Decidable (l.Pairwise _))

instance (e : α → τ) (now : τ) (l : List α) : Decidable (ExpiresInOrder e now l) :=
  inferInstanceAs (Decidable (l.Pairwise _))

/-! ## Sweeping -/

/-- **When a list can be swept at all later times.** -/
theorem sweepable_iff : (∀ t, now ≤ t → Sweepable e t l) ↔ ExpiresInOrder e now l := by
  constructor
  · intro h
    rw [ExpiresInOrder, List.pairwise_iff_forall_sublist]
    intro x y hxy
    have hsweep := h (max now (e y)) (le_max_left _ _)
    exact List.pairwise_iff_forall_sublist.mp hsweep hxy (le_max_right _ _)
  · intro h t ht
    exact h.imp fun hxy hy => hxy.trans (max_le ht hy)

theorem ExpiresInOrder.sweepable (h : ExpiresInOrder e now l) (ht : now ≤ t) : Sweepable e t l :=
  sweepable_iff.mpr h t ht

theorem ExpiresInOrder.mono (h : ExpiresInOrder e now l) (ht : now ≤ t) : ExpiresInOrder e t l :=
  h.imp fun hxy => hxy.trans (max_le_max ht le_rfl)

theorem ExpiresInOrder.sweep (h : ExpiresInOrder e now l) (t : τ) :
    ExpiresInOrder e now (sweep e t l) := h.filter _

theorem mem_sweep : x ∈ sweep e t l ↔ x ∈ l ∧ t < e x := by
  simp [Expiring.sweep]

/-! ## Adding and renewing -/

/-- **A new entry** that expires last. -/
theorem ExpiresInOrder.concat (h : ExpiresInOrder e now l) (hx : ∀ y ∈ l, e y ≤ max now (e x)) :
    ExpiresInOrder e now (l ++ [x]) := by
  refine List.pairwise_append.mpr ⟨h, List.pairwise_singleton _ _, fun y hy z hz => ?_⟩
  rw [List.mem_singleton.mp hz]
  exact hx y hy

/-- **What renewing the first entry of a kind does**, if there is one. -/
theorem exists_of_renewFirst (hx : x ∈ l) (hp : p x = true) :
    ∃ y front behind, (∀ z ∈ front, p z = false) ∧ p y = true ∧ l = front ++ y :: behind ∧
      renewFirst p f l = front ++ f y :: behind := by
  obtain ⟨y, y', front, behind, hfront, hy, hl, hrenew⟩ :=
    List.exists_of_replaceF (p := fun x => if p x then some (f x) else none) hx
      (show (if p x then some (f x) else none) = some (f x) by simp [hp])
  have hpy : p y = true ∧ f y = y' := by simpa using hy
  refine ⟨y, front, behind, fun z hz => by simpa using hfront z hz, hpy.1, hl, ?_⟩
  rw [hpy.2]
  exact hrenew

theorem renewFirst_of_forall (h : ∀ x ∈ l, p x = false) : renewFirst p f l = l :=
  List.replaceF_of_forall_none fun x hx => by simp [h x hx]

/-- An entry was there, or is one that was there, renewed. -/
theorem mem_of_mem_renewFirst (h : x ∈ renewFirst p f l) : x ∈ l ∨ ∃ y ∈ l, x = f y := by
  by_cases hsome : ∃ y ∈ l, p y = true
  · obtain ⟨y, hy, hp⟩ := hsome
    obtain ⟨z, front, behind, -, -, rfl, hrenew⟩ := exists_of_renewFirst (f := f) hy hp
    rw [hrenew, List.mem_append, List.mem_cons] at h
    obtain h | rfl | h := h
    · exact .inl (List.mem_append_left _ h)
    · exact .inr ⟨z, by simp, rfl⟩
    · exact .inl (List.mem_append_right _ (List.mem_cons_of_mem _ h))
  · rw [renewFirst_of_forall (by simpa using hsome)] at h
    exact .inl h

theorem mem_renewFirst (h : x ∈ l) (hp : p x = false) : x ∈ renewFirst p f l := by
  by_cases hsome : ∃ y ∈ l, p y = true
  · obtain ⟨y, hy, hpy⟩ := hsome
    obtain ⟨z, front, behind, -, hz, rfl, hrenew⟩ := exists_of_renewFirst (f := f) hy hpy
    have hne : x ≠ z := fun heq => by simp [heq, hz] at hp
    have hmem : x ∈ front ∨ x ∈ behind := by simpa [hne] using h
    rw [hrenew, List.mem_append, List.mem_cons]
    exact hmem.imp_right .inr
  · rwa [renewFirst_of_forall (by simpa using hsome)]

@[simp] theorem length_renewFirst : (renewFirst p f l).length = l.length := List.length_replaceF

/-- What renewing an entry does not change. -/
theorem map_renewFirst {β : Type*} {g : α → β} (hf : ∀ x, g (f x) = g x) :
    (renewFirst p f l).map g = l.map g := by
  by_cases hsome : ∃ y ∈ l, p y = true
  · obtain ⟨y, hy, hp⟩ := hsome
    obtain ⟨z, front, behind, -, -, rfl, hrenew⟩ := exists_of_renewFirst (f := f) hy hp
    simp [hrenew, hf]
  · rw [renewFirst_of_forall (by simpa using hsome)]

/-- What is renewed first is the first entry of its kind. -/
theorem renewFirst_cons_of_pos (hp : p x = true) : renewFirst p f (x :: l) = f x :: l :=
  List.replaceF_cons_of_some _ (by simp [hp])

theorem renewFirst_cons_of_neg (hp : p x = false) :
    renewFirst p f (x :: l) = x :: renewFirst p f l :=
  List.replaceF_cons_of_none _ (by simp [hp])

/-! ## Behind the first entry -/

@[simp] theorem behindFirst_cons_of_pos (hp : p x = true) : behindFirst p (x :: l) = l := by
  simp [behindFirst, hp]

@[simp] theorem behindFirst_cons_of_neg (hp : p x = false) :
    behindFirst p (x :: l) = behindFirst p l := by
  simp [behindFirst, hp]

theorem behindFirst_append {front : List α} (hfront : ∀ z ∈ front, p z = false) :
    behindFirst p (front ++ l) = behindFirst p l := by
  rw [behindFirst, List.dropWhile_append_of_pos fun z hz => by simp [hfront z hz], behindFirst]

theorem behindFirst_of_forall (h : ∀ x ∈ l, p x = false) : behindFirst p l = [] := by
  rw [behindFirst, List.dropWhile_eq_nil_iff.mpr fun x hx => by simp [h x hx], List.tail_nil]

/-- **What is behind the first entry** stays there if that one is renewed. -/
theorem behindFirst_renewFirst (hf : ∀ x, p (f x) = p x) :
    behindFirst p (renewFirst p f l) = behindFirst p l := by
  induction l with
  | nil => rfl
  | cons x l ih =>
    by_cases hp : p x = true
    · rw [renewFirst_cons_of_pos hp, behindFirst_cons_of_pos ((hf x).trans hp),
        behindFirst_cons_of_pos hp]
    · rw [Bool.not_eq_true] at hp
      rw [renewFirst_cons_of_neg hp, behindFirst_cons_of_neg hp, behindFirst_cons_of_neg hp, ih]

/-- It stays there if it is not of the kind that is renewed. -/
theorem mem_behindFirst_renewFirst {q : α → Bool} (hf : ∀ x, p (f x) = p x)
    (h : x ∈ behindFirst p l) (hq : q x = false) : x ∈ behindFirst p (renewFirst q f l) := by
  induction l with
  | nil => exact h
  | cons y l ih =>
    by_cases hp : p y = true
    · rw [behindFirst_cons_of_pos hp] at h
      by_cases hqy : q y = true
      · rwa [renewFirst_cons_of_pos hqy, behindFirst_cons_of_pos ((hf y).trans hp)]
      · rw [renewFirst_cons_of_neg (by simpa using hqy), behindFirst_cons_of_pos hp]
        exact mem_renewFirst h hq
    · rw [Bool.not_eq_true] at hp
      rw [behindFirst_cons_of_neg hp] at h
      by_cases hqy : q y = true
      · rwa [renewFirst_cons_of_pos hqy, behindFirst_cons_of_neg ((hf y).trans hp)]
      · rw [renewFirst_cons_of_neg (by simpa using hqy), behindFirst_cons_of_neg hp]
        exact ih h

/-- It stays there if more entries come. -/
theorem mem_behindFirst_concat {l' : List α} (h : x ∈ behindFirst p l) :
    x ∈ behindFirst p (l ++ l') := by
  induction l with
  | nil => cases h
  | cons y l ih =>
    by_cases hp : p y = true
    · rw [behindFirst_cons_of_pos hp] at h
      rw [List.cons_append, behindFirst_cons_of_pos hp]
      exact List.mem_append_left _ h
    · rw [Bool.not_eq_true] at hp
      rw [behindFirst_cons_of_neg hp] at h
      rw [List.cons_append, behindFirst_cons_of_neg hp]
      exact ih h

/-- It stays there if a sweep leaves both. -/
theorem mem_behindFirst_sweep (h : x ∈ behindFirst p l) (hfirst : ∀ y ∈ l.find? p, t < e y)
    (hx : t < e x) : x ∈ behindFirst p (sweep e t l) := by
  induction l with
  | nil => cases h
  | cons y l ih =>
    by_cases hp : p y = true
    · have hy : t < e y := hfirst y (List.find?_cons_of_pos hp)
      rw [behindFirst_cons_of_pos hp] at h
      rw [Expiring.sweep, List.filter_cons_of_pos (by simpa using hy), behindFirst_cons_of_pos hp]
      exact mem_sweep.mpr ⟨h, hx⟩
    · rw [List.find?_cons_of_neg hp] at hfirst
      rw [Bool.not_eq_true] at hp
      rw [behindFirst_cons_of_neg hp] at h
      by_cases hy : t < e y
      · rw [Expiring.sweep, List.filter_cons_of_pos (by simpa using hy),
          behindFirst_cons_of_neg hp]
        exact ih h hfirst
      · rw [Expiring.sweep, List.filter_cons_of_neg (by simpa using hy)]
        exact ih h hfirst

/-- **A list cannot be swept** if something has expired behind a first entry that has not. -/
theorem not_sweepable (h : x ∈ behindFirst p l) (hfirst : ∀ y ∈ l.find? p, t < e y)
    (hx : e x ≤ t) : ¬ Sweepable e t l := by
  intro hsweep
  induction l with
  | nil => cases h
  | cons y l ih =>
    obtain ⟨hpair, hsweep⟩ := List.pairwise_cons.mp hsweep
    by_cases hp : p y = true
    · rw [behindFirst_cons_of_pos hp] at h
      exact (hfirst y (List.find?_cons_of_pos hp)).not_ge (hpair x h hx)
    · rw [List.find?_cons_of_neg hp] at hfirst
      rw [Bool.not_eq_true] at hp
      rw [behindFirst_cons_of_neg hp] at h
      exact ih h hfirst hsweep

/-- **When a list stays in order**, if an entry is renewed that expires last from then on: all the
entries behind it expire last, too. -/
theorem expiresInOrder_renewFirst_iff (h : ExpiresInOrder e now l) (hle : ∀ x ∈ l, e x ≤ t)
    (hf : ∀ x, e (f x) = t) (hnow : now < t) :
    ExpiresInOrder e now (renewFirst p f l) ↔ ∀ y ∈ behindFirst p l, t ≤ e y := by
  by_cases hsome : ∃ x ∈ l, p x = true
  · obtain ⟨x, hx, hp⟩ := hsome
    obtain ⟨y, front, behind, hfront, hy, rfl, hrenew⟩ := exists_of_renewFirst (f := f) hx hp
    rw [hrenew, behindFirst_append hfront, behindFirst_cons_of_pos hy]
    obtain ⟨hinfront, hybehind, hcross⟩ := List.pairwise_append.mp h
    obtain ⟨-, hinbehind⟩ := List.pairwise_cons.mp hybehind
    constructor
    · intro hafter z hz
      have hpair := (List.pairwise_cons.mp (List.pairwise_append.mp hafter).2.1).1 z hz
      rw [hf] at hpair
      exact (le_max_iff.mp hpair).resolve_left hnow.not_ge
    · intro hlast
      refine List.pairwise_append.mpr ⟨hinfront, List.pairwise_cons.mpr ⟨?_, hinbehind⟩, ?_⟩
      · intro z hz
        rw [hf]
        exact le_max_of_le_right (hlast z hz)
      · intro a ha b hb
        obtain rfl | hb := List.mem_cons.mp hb
        · rw [hf]
          exact le_max_of_le_right (hle a (List.mem_append_left _ ha))
        · exact hcross a ha b (List.mem_cons_of_mem _ hb)
  · have hnone : ∀ x ∈ l, p x = false := by simpa using hsome
    rw [renewFirst_of_forall hnone, behindFirst_of_forall hnone]
    exact iff_of_true h (by simp)

end Expiring
