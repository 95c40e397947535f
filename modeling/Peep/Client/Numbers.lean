import Peep.Library.Decimal
import Peep.Library.Double
import Peep.Library.Pcm
import Peep.Server.Datagram

/-!
# Numbers in Perl

A number is an integer of 64 bits or a double. What is computed of integers is an integer as long as
it is one of 64 bits; everything else is computed with doubles. A text is the number that it begins
with: an integer if it has nothing but blanks behind its digits, and otherwise a double, which may
have a fraction and an exponent.

## Choices

A text is read to the nearest double. There are no infinities and no `NaN`: the doubles have no
greatest exponent, and the texts `inf` and `nan` count as zero like other words. Nothing is divided
by zero.

## Main results

* `toInteger_numberOf` — the numbers that are written in digits
-/

namespace Peep

open Decimal Double Pcm

/-! ## Arithmetic -/

/-- A number. -/
inductive Number
  /-- An integer of 64 bits. -/
  | int (n : ℤ)
  /-- A double. -/
  | double (x : ℚ)
  deriving DecidableEq

/-- The integers of 64 bits, with a sign or without. -/
def HasInteger (n : ℤ) : Prop := -2 ^ 63 ≤ n ∧ n < 2 ^ 64

instance (n : ℤ) : Decidable (HasInteger n) := inferInstanceAs (Decidable (_ ∧ _))

namespace Number

/-- The number itself. -/
def value : Number → ℚ
  | int n => n
  | double x => x

/-- The double that it becomes. -/
def toDouble (a : Number) : ℚ := Double.toDouble a.value

/-- The integer that it is: every double that is one, as long as there are doubles for all
integers. -/
def integer? : Number → Option ℤ
  | int n => some n
  | double x => if x.den = 1 ∧ |x| < 2 ^ 53 then some x.num else none

/-- An operator that knows integers: its result on integers if it is one, and else on doubles. -/
def operate (onIntegers : ℤ → ℤ → Option ℤ) (onDoubles : ℚ → ℚ → ℚ) (a b : Number) : Number :=
  match (a.integer?.bind fun m => b.integer?.bind (onIntegers m)).filter fun n => HasInteger n with
  | some n => int n
  | none => double (Double.toDouble (onDoubles a.toDouble b.toDouble))

instance : Add Number := ⟨operate (fun m n => some (m + n)) fun x y => x + y⟩

instance : Sub Number := ⟨operate (fun m n => some (m - n)) fun x y => x - y⟩

instance : Mul Number := ⟨operate (fun m n => some (m * n)) fun x y => x * y⟩

instance : Div Number :=
  ⟨operate (fun m n => if n ∣ m then some (m / n) else none) fun x y => x / y⟩

/-- The integer of 64 bits that it is cut off to. -/
def toInteger : Number → ℤ
  | int n => n
  | double x => max (-2 ^ 63) (min (truncate x) (2 ^ 64 - 1))

end Number

/-! ## Texts -/

/-- The exponent that a text begins with. -/
def exponentOf : CString → ℤ
  | [] => 0
  | c :: s => if (c = 69 ∨ c = 101) ∧ (unsigned s).head?.any isDigit then leadingInt s else 0

/-- The number with a fraction and an exponent that a text begins with. -/
def leadingDecimal (s : CString) : ℚ :=
  let behind := (unsigned s).dropWhile isDigit
  let fraction := if behind.head? = some 46 then behind.tail.takeWhile isDigit else []
  let exponent := if behind.head? = some 46 then behind.tail.dropWhile isDigit else behind
  let mantissa : ℚ := valueOf ((unsigned s).takeWhile isDigit ++ fraction)
  (if s.head? = some 45 then -mantissa else mantissa) *
    10 ^ (exponentOf exponent - fraction.length)

/-- The number that a text is. -/
def numberOf (s : CString) : Number :=
  let number := s.dropWhile isspace
  if ((unsigned number).dropWhile isDigit).all isspace ∧ HasInteger (leadingInt number) then
    .int (leadingInt number)
  else .double (toDouble (leadingDecimal number))

example : (numberOf (ascii " 1e2")).toInteger = 100 := by decide +kernel

example : (numberOf (ascii "9007199254740993 mails")).toInteger = 9007199254740992 := by
  decide +kernel

/-- A text with nothing but a sign and digits. -/
def IsNumeral (s : CString) : Prop := ∀ c ∈ unsigned s, isDigit c = true

instance (s : CString) : Decidable (IsNumeral s) := inferInstanceAs (Decidable (∀ _ ∈ _, _))

variable {s : CString}

theorem isNumeral_decimal (n : ℤ) : IsNumeral (decimal n) := by
  rw [IsNumeral, unsigned_decimal]
  exact fun c => isDigit_of_mem_natDigits

/-- It has no blanks in front. -/
theorem IsNumeral.dropWhile_isspace (h : IsNumeral s) : s.dropWhile isspace = s := by
  have hdigit : ∀ c, isDigit c = true → isspace c = false := by grind [isDigit, isspace]
  cases s with
  | nil => rfl
  | cons c s =>
    have hc : isspace c = false := by
      by_cases hsign : c = 45 ∨ c = 43
      · obtain rfl | rfl := hsign <;> rfl
      · have hunsigned : unsigned (c :: s) = c :: s := if_neg (by simpa using hsign)
        exact hdigit c (h c (by rw [hunsigned]; exact List.mem_cons_self))
    exact List.dropWhile_cons_of_neg (by rw [hc]; exact Bool.false_ne_true)

/-- **The numbers that are written in digits** are themselves. -/
theorem toInteger_numberOf (h : IsNumeral s) (hfits : HasInteger (leadingInt s)) :
    (numberOf s).toInteger = leadingInt s := by
  have hnothing : (unsigned s).dropWhile isDigit = [] := List.dropWhile_eq_nil_iff.mpr h
  rw [numberOf, h.dropWhile_isspace]
  simp only [hnothing, List.all_nil, true_and, if_pos hfits]
  rfl

end Peep
