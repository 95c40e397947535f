import Mathlib.Algebra.Order.BigOperators.Group.List
import Mathlib.Algebra.Order.Floor.Ring
import Mathlib.Algebra.Order.Round
import Mathlib.Algebra.Order.Field.Basic
import Mathlib.Algebra.Order.Monoid.Prod
import Mathlib.Data.List.Induction
import Mathlib.Tactic.Linarith

/-!
# Truncated samples and their sums

Sound as signed 16-bit integers: a sample is scaled in an ordered field, truncated towards zero to
a 16-bit integer, and added to what the other sounds have put there.

* `truncate` is the conversion to an integer, `toShort` the conversion to a 16-bit one, which wraps.
* `Within cs b` bounds the partial sums of a list of samples below and above. If the bounds are
  those of the 16-bit range, the sum that is kept in 16 bits is the sum of the integers
  (`toInt_foldl`).
* `Within.append` is the rule for proving it: bound the samples one by one, and add the bounds up.
-/

namespace Pcm

/-! ## Truncation -/

section Truncate

variable {K : Type*} [Field K] [LinearOrder K] [FloorRing K] {x y : K}

/-- Truncation towards zero. -/
def truncate (x : K) : ℤ := if 0 ≤ x then ⌊x⌋ else ⌈x⌉

theorem truncate_of_nonneg (hx : 0 ≤ x) : truncate x = ⌊x⌋ := if_pos hx

theorem truncate_nonneg (hx : 0 ≤ x) : 0 ≤ truncate x := by
  rw [truncate_of_nonneg hx]
  exact Int.floor_nonneg.mpr hx

variable [IsStrictOrderedRing K]

theorem truncate_intCast (z : ℤ) : truncate (z : K) = z := by
  rw [truncate, Int.floor_intCast, Int.ceil_intCast, ite_self]

/-- A random index: a fraction below `1` of `n` things. -/
theorem toNat_truncate_mul_lt {n : ℕ} (hn : 0 < n) (hx : 0 ≤ x) (hlt : x < 1) :
    (truncate (n * x)).toNat < n := by
  have hpos : (0 : K) < n := by exact_mod_cast hn
  have hnonneg : 0 ≤ n * x := mul_nonneg hpos.le hx
  rw [truncate_of_nonneg hnonneg, Int.toNat_lt (Int.floor_nonneg.mpr hnonneg), Int.floor_lt,
    Int.cast_natCast]
  exact mul_lt_of_lt_one_right hpos hlt

theorem truncate_of_nonpos (hx : x ≤ 0) : truncate x = ⌈x⌉ := by
  rcases hx.lt_or_eq with h | rfl
  · exact if_neg h.not_ge
  · simp [truncate]

theorem truncate_neg (x : K) : truncate (-x) = -truncate x := by
  rcases le_total 0 x with h | h
  · rw [truncate_of_nonneg h, truncate_of_nonpos (neg_nonpos.mpr h), Int.ceil_neg]
  · rw [truncate_of_nonpos h, truncate_of_nonneg (neg_nonneg.mpr h), Int.floor_neg]

theorem truncate_mono (hxy : x ≤ y) : truncate x ≤ truncate y := by
  rcases le_total 0 x with hx | hx
  · rw [truncate_of_nonneg hx, truncate_of_nonneg (hx.trans hxy)]
    exact Int.floor_mono hxy
  · rcases le_total 0 y with hy | hy
    · refine le_trans ?_ (truncate_nonneg hy)
      rw [truncate_of_nonpos hx]
      exact Int.ceil_le.mpr (by simpa using hx)
    · rw [truncate_of_nonpos hx, truncate_of_nonpos hy]
      exact Int.ceil_mono hxy

theorem abs_truncate_le (x : K) : |(truncate x : K)| ≤ |x| := by
  rcases le_total 0 x with h | h
  · have h0 : (0 : K) ≤ truncate x := by exact_mod_cast truncate_nonneg h
    rw [abs_of_nonneg h, abs_of_nonneg h0, truncate_of_nonneg h]
    exact Int.floor_le x
  · have h0 : (truncate x : K) ≤ 0 := by
      have := truncate_nonneg (neg_nonneg.mpr h)
      rw [truncate_neg, Left.nonneg_neg_iff] at this
      exact_mod_cast this
    rw [abs_of_nonpos h, abs_of_nonpos h0, truncate_of_nonpos h]
    exact neg_le_neg (Int.le_ceil x)

end Truncate

/-! ## 16-bit integers -/

/-- The 16-bit range. -/
def InRange (x : ℤ) : Prop := -32768 ≤ x ∧ x ≤ 32767

theorem inRange_toInt (s : Int16) : InRange s.toInt := ⟨s.le_toInt, Int.le_of_lt_add_one s.toInt_lt⟩

theorem toInt_ofInt {x : ℤ} (h : InRange x) : (Int16.ofInt x).toInt = x :=
  Int16.toInt_ofInt_of_le h.1 (Int.lt_add_one_of_le h.2)

/-- The partial sums of `cs` are between `-b.1` and `b.2`. -/
def Within (cs : List Int16) (b : ℤ × ℤ) : Prop :=
  ∀ pre, pre <+: cs → -b.1 ≤ (pre.map Int16.toInt).sum ∧ (pre.map Int16.toInt).sum ≤ b.2

theorem toInt_add {a b : Int16} (h : InRange (a.toInt + b.toInt)) :
    (a + b).toInt = a.toInt + b.toInt := by
  rw [← toInt_ofInt h, Int16.ofInt_add, Int16.ofInt_toInt, Int16.ofInt_toInt]

/-- **No overflow.** Partial sums in the 16-bit range are what the 16-bit accumulation computes. -/
theorem toInt_foldl {cs : List Int16} (h : Within cs (32768, 32767)) :
    (cs.foldl (· + ·) 0).toInt = (cs.map Int16.toInt).sum := by
  induction cs using List.reverseRecOn with
  | nil => rfl
  | append_singleton cs c ih =>
    have ih := ih fun pre hpre => h pre (hpre.trans (List.prefix_append cs [c]))
    have hc := h _ (List.prefix_refl _)
    rw [List.map_append, List.sum_append] at hc ⊢
    rw [List.foldl_append, List.foldl_cons, List.foldl_nil, toInt_add, ih]
    · simp
    · rw [ih]
      rw [List.map_singleton, List.sum_singleton] at hc
      exact hc

/-- The conversion to a 16-bit integer. -/
def toShort {K : Type*} [Field K] [LinearOrder K] [FloorRing K] (x : K) : Int16 :=
  Int16.ofInt (truncate x)

/-- A sample between the bounds `-b.1` and `b.2`. -/
def Bounded (c : Int16) (b : ℤ × ℤ) : Prop := -b.1 ≤ c.toInt ∧ c.toInt ≤ b.2

/-- A value between bounds that fit is converted to a sample between their truncations. -/
theorem toShort_bounded {K : Type*} [Field K] [LinearOrder K] [FloorRing K]
    [IsStrictOrderedRing K] {x lo hi : K} (hlo : -lo ≤ x) (hhi : x ≤ hi)
    (hlo' : truncate lo ≤ 32768) (hhi' : truncate hi ≤ 32767) :
    Bounded (toShort x) (truncate lo, truncate hi) := by
  have h1 := truncate_mono hlo
  have h2 := truncate_mono hhi
  rw [truncate_neg] at h1
  rw [Bounded, toShort, toInt_ofInt ⟨by omega, by omega⟩]
  exact ⟨h1, h2⟩

/-- A value in range loses nothing but its fraction. -/
theorem abs_toInt_toShort_le {K : Type*} [Field K] [LinearOrder K] [FloorRing K]
    [IsStrictOrderedRing K] {x : K} (hx : |x| ≤ 32767) : |((toShort x).toInt : K)| ≤ |x| := by
  have h := (abs_truncate_le x).trans hx
  rw [← Int.cast_abs] at h
  have h' : |truncate x| ≤ 32767 := by exact_mod_cast h
  obtain ⟨h1, h2⟩ := abs_le.mp h'
  rw [toShort, toInt_ofInt ⟨by omega, h2⟩]
  exact abs_truncate_le x

theorem abs_toInt_le (s : Int16) : |s.toInt| ≤ 32768 := by
  obtain ⟨h1, h2⟩ := inRange_toInt s
  exact abs_le.mpr ⟨h1, by omega⟩

/-! ## Bounds on partial sums -/

theorem Within.nonneg {cs : List Int16} {b : ℤ × ℤ} (h : Within cs b) : 0 ≤ b := by
  obtain ⟨h1, h2⟩ := h [] List.nil_prefix
  exact ⟨by simpa using h1, by simpa using h2⟩

theorem Within.mono {cs : List Int16} {b b' : ℤ × ℤ} (h : Within cs b) (hb : b ≤ b') :
    Within cs b' := fun pre hpre =>
  ⟨(neg_le_neg hb.1).trans (h pre hpre).1, (h pre hpre).2.trans hb.2⟩

theorem within_nil {b : ℤ × ℤ} (hb : 0 ≤ b) : Within [] b := by
  intro pre hpre
  obtain rfl := List.prefix_nil.mp hpre
  exact ⟨neg_nonpos.mpr hb.1, hb.2⟩

theorem within_singleton {c : Int16} {b : ℤ × ℤ} (hb : 0 ≤ b) (hc : Bounded c b) :
    Within [c] b := by
  intro pre hpre
  rcases List.prefix_cons_iff.mp hpre with rfl | ⟨t, rfl, ht⟩
  · exact within_nil hb [] List.nil_prefix
  · obtain rfl := List.prefix_nil.mp ht
    rw [List.map_singleton, List.sum_singleton]
    exact hc

/-- **Bounds add up.** -/
theorem Within.append {cs ds : List Int16} {b b' : ℤ × ℤ} (h : Within cs b) (h' : Within ds b') :
    Within (cs ++ ds) (b + b') := by
  rintro pre ⟨post, heq⟩
  rcases List.append_eq_append_iff.mp heq with ⟨t, rfl, -⟩ | ⟨t, rfl, rfl⟩
  · exact (h.mono (le_add_of_nonneg_right h'.nonneg)) pre (List.prefix_append ..)
  · obtain ⟨h1, h2⟩ := h _ (List.prefix_refl cs)
    obtain ⟨h3, h4⟩ := h' t (List.prefix_append ..)
    rw [List.map_append, List.sum_append, Prod.fst_add, Prod.snd_add]
    exact ⟨by omega, by omega⟩

/-- Bounds of parts add up to a bound of the whole. -/
theorem within_flatten {α ι : Type*} {f : α → Int16} {b : ι → ℤ × ℤ} {js : List ι}
    {parts : List (List α)} (h : List.Forall₂ (fun j s => Within (s.map f) (b j)) js parts) :
    Within (parts.flatten.map f) (js.map b).sum := by
  induction h with
  | nil => exact within_nil le_rfl
  | @cons j s js parts hj _ ih =>
    rw [List.flatten_cons, List.map_append, List.map_cons, List.sum_cons]
    exact hj.append ih

end Pcm
