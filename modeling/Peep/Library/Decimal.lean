import Mathlib.Data.List.TakeWhile
import Mathlib.Data.Nat.Digits.Defs

/-!
# Decimal numbers in text

A number is written in decimal digits, with a minus sign in front of them if it is negative. Reading
a number takes a sign and the digits behind it and leaves what comes then; a text that does not
begin with a number is read as zero.

## Main results

* `leadingInt_decimal` — reading what was written
-/

namespace Decimal

/-- A property of the bytes of a list is decided along the list, not for each byte that there is. -/
instance (priority := 1100) decidableBytes (p : UInt8 → Prop) [DecidablePred p] (l : List UInt8) :
    Decidable (∀ c ∈ l, p c) := List.decidableBAll p l

/-- The characters of a text, as bytes. -/
def ascii (s : String) : List UInt8 := s.toList.map fun c => c.toNat.toUInt8

/-- The digit with a value. -/
def digit (d : ℕ) : UInt8 := (48 + d).toUInt8

/-- A digit. -/
def isDigit (c : UInt8) : Bool := 48 ≤ c && c ≤ 57

/-- The digits of a natural number. -/
def natDigits (n : ℕ) : List UInt8 :=
  if n = 0 then [digit 0] else (Nat.digits 10 n).reverse.map digit

/-- A number in decimal. -/
def decimal (n : ℤ) : List UInt8 :=
  if n < 0 then 45 :: natDigits n.natAbs else natDigits n.natAbs

/-- The value of some digits. -/
def valueOf (ds : List UInt8) : ℕ := ds.foldl (fun n c => n * 10 + (c.toNat - 48)) 0

/-- The text behind a sign. -/
def unsigned (bs : List UInt8) : List UInt8 :=
  if bs.head? = some 45 ∨ bs.head? = some 43 then bs.tail else bs

/-- The number that a text begins with. -/
def leadingInt (bs : List UInt8) : ℤ :=
  if bs.head? = some 45 then -(valueOf (bs.tail.takeWhile isDigit) : ℤ)
  else if bs.head? = some 43 then valueOf (bs.tail.takeWhile isDigit)
  else valueOf (bs.takeWhile isDigit)

variable {n d : ℕ} {ds : List UInt8}

theorem toNat_digit (hd : d < 10) : (digit d).toNat = 48 + d := by
  rw [digit, Nat.toUInt8_eq, UInt8.toNat_ofNat', Nat.mod_eq_of_lt (by omega)]

theorem isDigit_digit (hd : d < 10) : isDigit (digit d) = true := by
  have h := toNat_digit hd
  rw [isDigit, Bool.and_eq_true, decide_eq_true_iff, decide_eq_true_iff, UInt8.le_iff_toNat_le,
    UInt8.le_iff_toNat_le, h]
  exact ⟨Nat.le_add_right 48 d, Nat.add_le_add_left (Nat.le_of_lt_succ hd) 48⟩

theorem isDigit_of_mem_natDigits {c : UInt8} (hc : c ∈ natDigits n) : isDigit c = true := by
  rw [natDigits] at hc
  split_ifs at hc
  · rw [List.mem_singleton] at hc
    exact hc ▸ isDigit_digit (by decide)
  · obtain ⟨d, hd, rfl⟩ := List.mem_map.mp hc
    exact isDigit_digit (Nat.digits_lt_base (by decide) (List.mem_reverse.mp hd))

/-- One more digit behind the others. -/
theorem valueOf_concat (hd : d < 10) : valueOf (ds ++ [digit d]) = valueOf ds * 10 + d := by
  rw [valueOf, List.foldl_append]
  show valueOf ds * 10 + ((digit d).toNat - 48) = _
  rw [toNat_digit hd, Nat.add_sub_cancel_left]

theorem valueOf_map_digit (l : List ℕ) (hl : ∀ d ∈ l, d < 10) :
    valueOf (l.reverse.map digit) = Nat.ofDigits 10 l := by
  induction l with
  | nil => rfl
  | cons d l ih =>
    rw [List.reverse_cons, List.map_append, List.map_singleton,
      valueOf_concat (hl d List.mem_cons_self), ih fun e he => hl e (List.mem_cons_of_mem _ he),
      Nat.ofDigits_cons, Nat.mul_comm, Nat.add_comm]

theorem valueOf_natDigits (n : ℕ) : valueOf (natDigits n) = n := by
  rw [natDigits]
  split_ifs with hn
  · rw [hn]
    rfl
  · rw [valueOf_map_digit _ fun d hd => Nat.digits_lt_base (by decide) hd, Nat.ofDigits_digits]

theorem takeWhile_natDigits (n : ℕ) : (natDigits n).takeWhile isDigit = natDigits n :=
  List.takeWhile_eq_self_iff.mpr fun _ => isDigit_of_mem_natDigits

theorem natDigits_ne_nil (n : ℕ) : natDigits n ≠ [] := by
  rw [natDigits]
  split_ifs with hn
  · exact List.cons_ne_nil _ _
  · rwa [ne_eq, List.map_eq_nil_iff, List.reverse_eq_nil_iff, Nat.digits_eq_nil_iff_eq_zero]

/-- A number without a sign begins with a digit. -/
theorem head?_natDigits_ne {c : UInt8} (hc : isDigit c = false) (n : ℕ) :
    (natDigits n).head? ≠ some c := by
  intro h
  have hdigit := isDigit_of_mem_natDigits (List.mem_of_mem_head? h)
  rw [hc] at hdigit
  exact Bool.false_ne_true hdigit

/-- A number is written with digits and a minus sign. -/
theorem isDigit_or_of_mem_decimal {n : ℤ} {c : UInt8} (hc : c ∈ decimal n) :
    isDigit c = true ∨ c = 45 := by
  rw [decimal] at hc
  split_ifs at hc
  · rcases List.mem_cons.mp hc with h | h
    · exact .inr h
    · exact .inl (isDigit_of_mem_natDigits h)
  · exact .inl (isDigit_of_mem_natDigits hc)

theorem decimal_ne_nil (n : ℤ) : decimal n ≠ [] := by
  rw [decimal]
  split_ifs
  · exact List.cons_ne_nil _ _
  · exact natDigits_ne_nil _

/-- Behind the sign of a number are its digits. -/
theorem unsigned_decimal (n : ℤ) : unsigned (decimal n) = natDigits n.natAbs := by
  rw [decimal]
  split_ifs
  · exact if_pos (.inl rfl)
  · rw [unsigned, if_neg (not_or.mpr ⟨head?_natDigits_ne (by decide) _,
      head?_natDigits_ne (by decide) _⟩)]

/-- **Reading what was written.** -/
theorem leadingInt_decimal (n : ℤ) : leadingInt (decimal n) = n := by
  rw [decimal]
  split_ifs with hn
  · rw [leadingInt, List.head?_cons, if_pos rfl, List.tail_cons, takeWhile_natDigits,
      valueOf_natDigits]
    omega
  · rw [leadingInt, if_neg (head?_natDigits_ne (by decide) _),
      if_neg (head?_natDigits_ne (by decide) _), takeWhile_natDigits, valueOf_natDigits]
    omega

end Decimal
