import Mathlib.Algebra.Order.Floor.Ring
import Mathlib.Algebra.Order.Round
import Mathlib.Algebra.Ring.Int.Parity
import Mathlib.Data.Int.Log
import Mathlib.Tactic.Linarith
import Mathlib.Tactic.Ring

/-!
# Rounding to a binary format

A number is rounded to the nearest multiple of a power of two, the value of its last bit, and a tie
to the even multiple. The last bit has a fixed distance from the first one and is not below the
least exponent of the format.

* `roundEven` rounds to an integer, `roundTo` to a format, `toDouble` to the format of a double.
* `seconds` is the time in seconds of whole seconds and microseconds, in doubles.
* Rounding is odd and monotone (`roundTo_mono`), does not change an integer that has enough bits
  (`roundTo_intCast`), and is off by half of the last bit at most (`abs_sub_roundTo_le`).
* Below `2 ^ 33` seconds different times are different doubles, in the same order
  (`seconds_lt_iff`).

There is no greatest exponent: a number that is too large for the format is rounded as if it were
not.
-/

namespace Double

variable {K : Type*} [Field K] [LinearOrder K] [FloorRing K]

/-! ## Integers -/

/-- The nearest integer, and the even one of two that are equally near. -/
def roundEven (x : K) : ℤ :=
  if Int.fract x < 1 / 2 then ⌊x⌋
  else if 1 / 2 < Int.fract x then ⌊x⌋ + 1
  else if ⌊x⌋ % 2 = 0 then ⌊x⌋ else ⌊x⌋ + 1

/-- The exponent of the last bit, where `bits` bits follow the first one. -/
def lastBit (bits : ℕ) (least : ℤ) (x : K) : ℤ := max (Int.log 2 |x| - bits) least

/-- The nearest number of a format. -/
def roundTo (bits : ℕ) (least : ℤ) (x : K) : K :=
  roundEven (x / 2 ^ lastBit bits least x) * 2 ^ lastBit bits least x

/-- The nearest double. -/
def toDouble (x : K) : K := roundTo 52 (-1074) x

variable [IsStrictOrderedRing K] {x y : K} {n : ℤ}

theorem roundEven_eq_of_lt (h : |x - n| < 1 / 2) : roundEven x = n := by
  rw [abs_lt] at h
  have hfract := Int.self_sub_floor x
  rcases le_or_gt (n : K) x with hle | hlt
  · have hfloor : ⌊x⌋ = n := Int.floor_eq_iff.mpr ⟨hle, by linarith⟩
    rw [hfloor] at hfract
    rw [roundEven, if_pos (by rw [← hfract]; linarith), hfloor]
  · have hfloor : ⌊x⌋ = n - 1 := by
      rw [Int.floor_eq_iff]
      push_cast
      exact ⟨by linarith, by linarith⟩
    rw [hfloor] at hfract
    push_cast at hfract
    rw [roundEven, if_neg (by rw [← hfract]; linarith), if_pos (by rw [← hfract]; linarith), hfloor,
      sub_add_cancel]

theorem roundEven_eq_of_even (h : |x - n| = 1 / 2) (hn : n % 2 = 0) : roundEven x = n := by
  have hfract := Int.self_sub_floor x
  rcases (abs_eq (by norm_num)).mp h with h | h
  · have hfloor : ⌊x⌋ = n := Int.floor_eq_iff.mpr ⟨by linarith, by linarith⟩
    rw [hfloor] at hfract
    rw [roundEven, if_neg (by rw [← hfract, h]; exact lt_irrefl _),
      if_neg (by rw [← hfract, h]; exact lt_irrefl _), hfloor, if_pos hn]
  · have hfloor : ⌊x⌋ = n - 1 := by
      rw [Int.floor_eq_iff]
      push_cast
      exact ⟨by linarith, by linarith⟩
    rw [hfloor] at hfract
    push_cast at hfract
    rw [roundEven, if_neg (by rw [← hfract]; linarith), if_neg (by rw [← hfract]; linarith), hfloor,
      if_neg (by omega), sub_add_cancel]

/-- What the rounded number is, by its distance. -/
theorem roundEven_spec (x : K) :
    |x - roundEven x| < 1 / 2 ∨ |x - roundEven x| = 1 / 2 ∧ roundEven x % 2 = 0 := by
  have hnonneg := Int.fract_nonneg x
  have hlt := Int.fract_lt_one x
  have hup : x - ((⌊x⌋ + 1 : ℤ) : K) = Int.fract x - 1 := by
    rw [← Int.self_sub_floor]
    push_cast
    ring
  rcases lt_trichotomy (Int.fract x) (1 / 2) with h | h | h
  · rw [roundEven, if_pos h, Int.self_sub_floor, abs_of_nonneg hnonneg]
    exact .inl h
  · right
    rw [roundEven, if_neg h.not_lt, if_neg h.not_gt]
    split
    · rw [Int.self_sub_floor, abs_of_nonneg hnonneg]
      exact ⟨h, ‹_›⟩
    · rw [hup, h, abs_of_neg (by linarith)]
      exact ⟨by linarith, by omega⟩
  · rw [roundEven, if_neg h.not_gt, if_pos h, hup, abs_of_neg (by linarith)]
    exact .inl (by linarith)

theorem abs_sub_roundEven_le (x : K) : |x - roundEven x| ≤ 1 / 2 := by
  rcases roundEven_spec x with h | ⟨h, -⟩
  · exact h.le
  · exact h.le

theorem roundEven_intCast (n : ℤ) : roundEven (n : K) = n :=
  roundEven_eq_of_lt (by simp)

theorem roundEven_neg (x : K) : roundEven (-x) = -roundEven x := by
  have hsub : |-x - ((-roundEven x : ℤ) : K)| = |x - roundEven x| := by
    rw [← abs_neg]
    push_cast
    ring_nf
  rcases roundEven_spec x with h | ⟨h, heven⟩
  · exact roundEven_eq_of_lt (hsub ▸ h)
  · exact roundEven_eq_of_even (hsub ▸ h) (by omega)

theorem roundEven_mono (h : x ≤ y) : roundEven x ≤ roundEven y := by
  by_contra hlt
  -- the two are a half from the number between them, and only one of them is even
  have hone : (roundEven y : K) + 1 ≤ roundEven x := by exact_mod_cast not_le.mp hlt
  have hx := abs_le.mp (abs_sub_roundEven_le x)
  have hy := abs_le.mp (abs_sub_roundEven_le y)
  have heq : (roundEven x : K) = roundEven y + 1 := le_antisymm (by linarith) hone
  have hnext : roundEven x = roundEven y + 1 := by exact_mod_cast heq
  have hxhalf : |x - roundEven x| = 1 / 2 := by
    rw [abs_of_nonpos (by linarith)]
    linarith
  have hyhalf : |y - roundEven y| = 1 / 2 := by
    rw [abs_of_nonneg (by linarith)]
    linarith
  rcases roundEven_spec x with hx' | ⟨-, hx'⟩
  · exact hx'.ne hxhalf
  · rcases roundEven_spec y with hy' | ⟨-, hy'⟩
    · exact hy'.ne hyhalf
    · omega

/-! ## A format -/

variable {bits : ℕ} {least : ℤ}

omit [IsStrictOrderedRing K] in
theorem lastBit_neg [IsOrderedAddMonoid K] (x : K) :
    lastBit bits least (-x) = lastBit bits least x := by
  rw [lastBit, abs_neg, lastBit]

theorem lastBit_le_of_lt {k : ℤ} (hne : x ≠ 0) (hx : |x| < 2 ^ k) (hk : least ≤ k - 1 - bits) :
    lastBit bits least x ≤ k - 1 - bits := by
  have hlog : Int.log 2 |x| < k := by
    rw [← Int.lt_zpow_iff_log_lt one_lt_two (abs_pos.mpr hne)]
    exact_mod_cast hx
  exact max_le (by omega) hk

theorem lastBit_mono (hx : 0 < x) (hxy : x ≤ y) : lastBit bits least x ≤ lastBit bits least y := by
  rw [lastBit, lastBit, abs_of_pos hx, abs_of_pos (hx.trans_le hxy)]
  exact max_le_max_right _ (sub_le_sub_right (Int.log_mono_right hx hxy) _)

@[simp] theorem roundTo_zero : roundTo bits least (0 : K) = 0 := by
  rw [roundTo, zero_div, ← Int.cast_zero, roundEven_intCast, Int.cast_zero, zero_mul]

theorem roundTo_neg (x : K) : roundTo bits least (-x) = -roundTo bits least x := by
  rw [roundTo, lastBit_neg, neg_div, roundEven_neg, Int.cast_neg, neg_mul, roundTo]

/-- Half of the last bit. -/
theorem abs_sub_roundTo_le (x : K) : |x - roundTo bits least x| ≤ 2 ^ lastBit bits least x / 2 := by
  have hpos : (0 : K) < 2 ^ lastBit bits least x := zpow_pos two_pos _
  have hround := abs_sub_roundEven_le (x / 2 ^ lastBit bits least x)
  calc |x - roundTo bits least x|
      = |x / 2 ^ lastBit bits least x - roundEven (x / 2 ^ lastBit bits least x)| *
          2 ^ lastBit bits least x := by
        rw [roundTo, ← abs_of_pos hpos, ← abs_mul, sub_mul, abs_of_pos hpos,
          div_mul_cancel₀ x hpos.ne']
    _ ≤ 1 / 2 * 2 ^ lastBit bits least x := mul_le_mul_of_nonneg_right hround hpos.le
    _ = 2 ^ lastBit bits least x / 2 := by ring

/-- The error below a power of two. -/
theorem abs_sub_roundTo_le_of_lt {k : ℤ} (hx : |x| < 2 ^ k) (hk : least ≤ k - 1 - bits) :
    |x - roundTo bits least x| ≤ 2 ^ (k - 2 - bits) := by
  rcases eq_or_ne x 0 with rfl | hne
  · rw [roundTo_zero, sub_zero, abs_zero]
    exact (zpow_pos two_pos _).le
  · calc |x - roundTo bits least x|
        ≤ 2 ^ lastBit bits least x / 2 := abs_sub_roundTo_le x
      _ ≤ 2 ^ (k - 1 - bits) / 2 := by
        gcongr
        · exact one_le_two
        · exact lastBit_le_of_lt hne hx hk
      _ = 2 ^ (k - 2 - bits) := by
        rw [div_eq_mul_inv, ← zpow_sub_one₀ two_ne_zero]
        congr 1
        omega

omit [FloorRing K] in
/-- A power of two is a multiple of a smaller one. -/
theorem exists_zpow_eq_mul {e k : ℤ} (h : e ≤ k) : ∃ m : ℤ, (2 : K) ^ k = m * 2 ^ e := by
  obtain ⟨d, hd⟩ := Int.eq_ofNat_of_zero_le (sub_nonneg.mpr h)
  refine ⟨2 ^ d, ?_⟩
  push_cast
  rw [← zpow_natCast, ← hd, ← zpow_add₀ two_ne_zero, sub_add_cancel]

/-- A multiple of the last bit is a number of the format. -/
theorem roundTo_of_multiple {e : ℤ} (h : lastBit bits least x ≤ e) (hx : x = n * 2 ^ e) :
    roundTo bits least x = x := by
  have hne : (2 : K) ^ lastBit bits least x ≠ 0 := zpow_ne_zero _ two_ne_zero
  obtain ⟨m, hm⟩ := exists_zpow_eq_mul (K := K) h
  have hquot : x / 2 ^ lastBit bits least x = ((n * m : ℤ) : K) := by
    rw [div_eq_iff hne, Int.cast_mul, mul_assoc, ← hm, hx]
  rw [roundTo, hquot, roundEven_intCast, ← hquot, div_mul_cancel₀ _ hne]

theorem roundTo_intCast (hleast : least ≤ 0) (hn : |n| < 2 ^ (bits + 1)) :
    roundTo bits least (n : K) = n := by
  rcases eq_or_ne n 0 with rfl | hne
  · simp
  · have hlt : |(n : K)| < 2 ^ ((bits : ℤ) + 1) := by exact_mod_cast hn
    have hlast : lastBit bits least (n : K) ≤ (bits : ℤ) + 1 - 1 - bits :=
      lastBit_le_of_lt (Int.cast_ne_zero.mpr hne) hlt (by omega)
    exact roundTo_of_multiple (e := 0) (n := n) (by omega) (by simp)

theorem roundTo_nonneg (hx : 0 ≤ x) : 0 ≤ roundTo bits least x := by
  have hpos : (0 : K) < 2 ^ lastBit bits least x := zpow_pos two_pos _
  have hround := roundEven_mono (div_nonneg hx hpos.le)
  rw [← Int.cast_zero, roundEven_intCast] at hround
  exact mul_nonneg (by exact_mod_cast hround) hpos.le

/-- Rounding does not cross a power of two. -/
theorem roundTo_le_zpow {k : ℤ} (h : lastBit bits least x ≤ k) (hx : x ≤ 2 ^ k) :
    roundTo bits least x ≤ 2 ^ k := by
  have hpos : (0 : K) < 2 ^ lastBit bits least x := zpow_pos two_pos _
  obtain ⟨m, hm⟩ := exists_zpow_eq_mul (K := K) h
  have hround := roundEven_mono ((div_le_iff₀ hpos).mpr (hm ▸ hx))
  rw [roundEven_intCast] at hround
  rw [roundTo, hm]
  exact mul_le_mul_of_nonneg_right (by exact_mod_cast hround) hpos.le

theorem zpow_le_roundTo {k : ℤ} (h : lastBit bits least x ≤ k) (hx : 2 ^ k ≤ x) :
    2 ^ k ≤ roundTo bits least x := by
  have hpos : (0 : K) < 2 ^ lastBit bits least x := zpow_pos two_pos _
  obtain ⟨m, hm⟩ := exists_zpow_eq_mul (K := K) h
  have hround := roundEven_mono ((le_div_iff₀ hpos).mpr (hm ▸ hx))
  rw [roundEven_intCast] at hround
  rw [roundTo, hm]
  exact mul_le_mul_of_nonneg_right (by exact_mod_cast hround) hpos.le

theorem roundTo_mono_of_pos (hx : 0 < x) (hxy : x ≤ y) :
    roundTo bits least x ≤ roundTo bits least y := by
  have hy := hx.trans_le hxy
  have hpos : (0 : K) < 2 ^ lastBit bits least x := zpow_pos two_pos _
  have hbits : lastBit bits least x ≤ lastBit bits least y := lastBit_mono hx hxy
  rcases hbits.eq_or_lt with heq | hlt
  · have hround := roundEven_mono ((div_le_div_iff_of_pos_right hpos).mpr hxy)
    rw [roundTo, roundTo, ← heq]
    exact mul_le_mul_of_nonneg_right (by exact_mod_cast hround) hpos.le
  · -- the greatest power of two that is not above `y` lies between them
    obtain ⟨k, hk⟩ : ∃ k, k = Int.log 2 y := ⟨_, rfl⟩
    have hleast : least ≤ lastBit bits least x := le_max_right _ _
    have hlog : Int.log 2 x - bits ≤ lastBit bits least x := by
      rw [lastBit, abs_of_pos hx]
      exact le_max_left _ _
    have hlast : lastBit bits least y = max (k - bits) least := by
      rw [lastBit, abs_of_pos hy, hk]
    have hxk : x < 2 ^ k := by
      exact_mod_cast (Int.lt_zpow_iff_log_lt one_lt_two hx).mpr (by omega)
    have hyk : 2 ^ k ≤ y := by
      have := Int.zpow_log_le_self (R := K) one_lt_two hy
      rw [hk]
      exact_mod_cast this
    exact (roundTo_le_zpow (by omega) hxk.le).trans (zpow_le_roundTo (by omega) hyk)

theorem roundTo_mono (hxy : x ≤ y) : roundTo bits least x ≤ roundTo bits least y := by
  rcases lt_or_ge 0 x with hx | hx
  · exact roundTo_mono_of_pos hx hxy
  · rcases lt_or_ge y 0 with hy | hy
    · have hneg : roundTo bits least (-y) ≤ roundTo bits least (-x) :=
        roundTo_mono_of_pos (neg_pos.mpr hy) (neg_le_neg hxy)
      rw [roundTo_neg, roundTo_neg] at hneg
      exact neg_le_neg_iff.mp hneg
    · have hneg : 0 ≤ roundTo bits least (-x) := roundTo_nonneg (neg_nonneg.mpr hx)
      rw [roundTo_neg, neg_nonneg] at hneg
      exact hneg.trans (roundTo_nonneg hy)

/-! ## Doubles -/

theorem toDouble_mono (hxy : x ≤ y) : toDouble x ≤ toDouble y := roundTo_mono hxy

theorem toDouble_nonneg (hx : 0 ≤ x) : 0 ≤ toDouble x := roundTo_nonneg hx

theorem toDouble_zero : toDouble (0 : K) = 0 := roundTo_zero

theorem toDouble_neg (x : K) : toDouble (-x) = -toDouble x := roundTo_neg x

theorem toDouble_intCast (hn : |n| < 2 ^ 53) : toDouble (n : K) = n :=
  roundTo_intCast (by norm_num) hn

theorem abs_sub_toDouble_le {k : ℤ} (hx : |x| < 2 ^ k) (hk : -1021 ≤ k) :
    |x - toDouble x| ≤ 2 ^ (k - 54) := by
  have h : |x - roundTo 52 (-1074) x| ≤ 2 ^ (k - 2 - ((52 : ℕ) : ℤ)) :=
    abs_sub_roundTo_le_of_lt hx (by push_cast; omega)
  have hexp : k - 2 - ((52 : ℕ) : ℤ) = k - 54 := by omega
  rwa [hexp] at h

/-! ## Times -/

omit [IsStrictOrderedRing K] in
/-- The double of `s` seconds and `us` microseconds. -/
def seconds (s us : K) : K := toDouble (s + toDouble (us * toDouble (1 / 1000000)))

/-- Whole seconds and microseconds, few enough for a double to tell their times apart. -/
structure Resolved (s us : ℤ) : Prop where
  sec : |s| < 2 ^ 33
  usec_nonneg : 0 ≤ us
  usec_lt : us < 1000000

namespace Resolved

variable {s us s' us' : ℤ}

theorem abs_sub_toDouble_mul_le (h : Resolved s us) :
    |(us : K) / 1000000 - toDouble ((us : K) * toDouble (1 / 1000000))| ≤ 1 / 2 ^ 52 := by
  have hnonneg : (0 : K) ≤ us := by exact_mod_cast h.usec_nonneg
  have hle : (us : K) ≤ 999999 := by exact_mod_cast Int.le_sub_one_of_lt h.usec_lt
  have hunit := abs_le.mp (abs_sub_toDouble_le (x := (1 : K) / 1000000) (k := -19)
    (by rw [abs_of_pos (by norm_num)]; norm_num) (by norm_num))
  obtain ⟨c, hc⟩ : ∃ c : K, c = toDouble (1 / 1000000) := ⟨_, rfl⟩
  rw [← hc] at hunit ⊢
  norm_num at hunit
  have hprod : |(us : K) * c| < 2 ^ (0 : ℤ) := by
    rw [abs_of_nonneg (mul_nonneg hnonneg (by linarith))]
    nlinarith
  have hround := abs_le.mp (abs_sub_toDouble_le hprod (by norm_num))
  norm_num at hround
  rw [abs_le]
  constructor
  · nlinarith
  · nlinarith

/-- The error of the two roundings. -/
theorem abs_sub_seconds_le (h : Resolved s us) :
    |(s : K) + us / 1000000 - seconds (s : K) us| ≤ 1 / 2 ^ 21 + 1 / 2 ^ 52 := by
  have hfrac := abs_le.mp (h.abs_sub_toDouble_mul_le (K := K))
  have hnonneg : (0 : K) ≤ us := by exact_mod_cast h.usec_nonneg
  have hle : (us : K) ≤ 999999 := by exact_mod_cast Int.le_sub_one_of_lt h.usec_lt
  have hsec := abs_lt.mp h.sec
  have hlow : -(2 ^ 33 - 1 : K) ≤ s := by exact_mod_cast (by omega : -(2 ^ 33 - 1) ≤ s)
  have hhigh : (s : K) ≤ 2 ^ 33 - 1 := by exact_mod_cast (by omega : s ≤ 2 ^ 33 - 1)
  rw [seconds]
  obtain ⟨f, hf⟩ : ∃ f : K, f = toDouble ((us : K) * toDouble (1 / 1000000)) := ⟨_, rfl⟩
  rw [← hf] at hfrac ⊢
  norm_num at hfrac
  have hsum : |(s : K) + f| < 2 ^ (33 : ℤ) := by
    rw [abs_lt]
    constructor
    · norm_num at hlow ⊢
      linarith
    · norm_num at hhigh ⊢
      linarith
  have hround := abs_le.mp (abs_sub_toDouble_le hsum (by norm_num))
  norm_num at hround
  rw [abs_le]
  norm_num
  constructor
  · linarith
  · linarith

theorem seconds_lt (h : Resolved s us) (h' : Resolved s' us')
    (hlt : (s : K) + us / 1000000 < s' + us' / 1000000) :
    seconds (s : K) us < seconds (s' : K) us' := by
  have herr := abs_le.mp (h.abs_sub_seconds_le (K := K))
  have herr' := abs_le.mp (h'.abs_sub_seconds_le (K := K))
  -- times are a microsecond apart
  have hapart : s * 1000000 + us + 1 ≤ s' * 1000000 + us' := by
    have hscaled : (s : K) * 1000000 + us < s' * 1000000 + us' := by linarith
    exact_mod_cast hscaled
  have hapart' : (s : K) * 1000000 + us + 1 ≤ s' * 1000000 + us' := by exact_mod_cast hapart
  norm_num at herr herr'
  linarith

/-- **Doubles tell times apart.** -/
theorem seconds_lt_iff (h : Resolved s us) (h' : Resolved s' us') :
    seconds (s : K) us < seconds (s' : K) us' ↔ (s : K) + us / 1000000 < s' + us' / 1000000 := by
  refine ⟨fun hlt => ?_, h.seconds_lt h'⟩
  rcases lt_trichotomy ((s : K) + us / 1000000) (s' + us' / 1000000) with hexact | hexact | hexact
  · exact hexact
  · -- one time is one pair of numbers
    have hscaled : (s : K) * 1000000 + us = s' * 1000000 + us' := by linarith
    have hint : s * 1000000 + us = s' * 1000000 + us' := by exact_mod_cast hscaled
    have husec := h.usec_nonneg
    have husec' := h'.usec_nonneg
    have hlt' := h.usec_lt
    have hlt'' := h'.usec_lt
    have hs : s = s' := by omega
    have hus : us = us' := by omega
    exact absurd hlt (by rw [hs, hus]; exact lt_irrefl _)
  · exact absurd hlt (h'.seconds_lt h hexact).not_gt

end Resolved

end Double
