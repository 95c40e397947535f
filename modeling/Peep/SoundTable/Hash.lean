import Peep.Library.Decimal
import Peep.SoundTable
import Mathlib.Data.Int.ModEq

/-!
# The hash of a name

`engineSoundHash` is meant to send each name to an index of `sound_table`, and names that are the
same up to case to the same index, since the names of a chain are compared up to case.

The characters are added up as they are: those above 127 count as negative, and a letter counts
differently in upper case and in lower case. So the index may be negative, and two spellings of a
name are found under one index only if the numbers of their capitals differ by a multiple of eight,
which makes the sums differ by a multiple of 256.

## Main results

* `toInt_engineSoundHash` — the hash is the remainder of the sum, which wraps
* `isIndex_engineSoundHash_iff` — the names whose hash is an index
* `hashesWell_iff` — the names with hashes as they should be
-/

namespace Peep

open Decimal

/-- The number is an index of `sound_table`. -/
def IsIndex (index : Int32) : Prop := 0 ≤ index.toInt ∧ index.toInt < HASHES

instance (index : Int32) : Decidable (IsIndex index) := inferInstanceAs (Decidable (_ ∧ _))

/-- What is asked of the hash for two names: it is an index, and the same one if the names are equal
up to case. -/
def HashesWell (a b : CString) : Prop :=
  IsIndex (engineSoundHash a) ∧ IsIndex (engineSoundHash b) ∧
    (strcasecmp a b = .eq → engineSoundHash a = engineSoundHash b)

instance (a b : CString) : Decidable (HashesWell a b) :=
  inferInstanceAs (Decidable (_ ∧ _ ∧ (_ → _)))

/-- The sum of the characters, which are signed. -/
def charSum (name : CString) : ℤ := (name.map fun p => p.toInt8.toInt).sum

/-- The number of capitals. -/
def capitals (name : CString) : ℕ := name.countP fun c => decide (65 ≤ c ∧ c ≤ 90)

/-- The sum, as an `int`, is not negative, or it is a multiple of `HASHES`. -/
def SumsUp (name : CString) : Prop := 0 ≤ (charSum name).bmod (2 ^ 32) ∨ (HASHES : ℤ) ∣ charSum name

instance (name : CString) : Decidable (SumsUp name) := inferInstanceAs (Decidable (_ ∨ _))

variable {name a b : CString}

/-! ## The sum -/

/-- The loop adds the characters up, and wraps. -/
theorem toInt_foldl_add (name : CString) (count : Int32) :
    (name.foldl (fun count p => count + p.toInt8.toInt32) count).toInt
      = (count.toInt + charSum name).bmod (2 ^ 32) := by
  induction name generalizing count with
  | nil =>
    rw [List.foldl_nil, charSum, List.map_nil, List.sum_nil, add_zero]
    exact (Int32.toInt_bmod_size count).symm
  | cons p name ih =>
    rw [List.foldl_cons, ih, Int32.toInt_add, Int.bmod_add_bmod, Int8.toInt_toInt32, charSum,
      charSum, List.map_cons, List.sum_cons, add_assoc]

/-- **The hash** is the remainder of the sum as an `int`. -/
theorem toInt_engineSoundHash (name : CString) :
    (engineSoundHash name).toInt = ((charSum name).bmod (2 ^ 32)).tmod HASHES := by
  rw [engineSoundHash, Int32.toInt_mod, toInt_foldl_add]
  simp [HASHES]

/-- It is congruent to the sum. -/
theorem bmod_emod_HASHES (n : ℤ) : n.bmod (2 ^ 32) % HASHES = n % HASHES := by
  have hdvd : ((HASHES : ℕ) : ℤ) ∣ ((2 ^ 32 : ℕ) : ℤ) := by decide
  rw [← Int.emod_emod_of_dvd _ hdvd, Int.bmod_emod, Int.emod_emod_of_dvd _ hdvd]

/-- A remainder of HASHES is an index if the number is not negative, or a multiple. -/
theorem tmod_HASHES_nonneg_iff (x : ℤ) :
    (0 ≤ x.tmod HASHES ∧ x.tmod HASHES < HASHES) ↔ 0 ≤ x ∨ x % HASHES = 0 := by
  have hhashes : (HASHES : ℤ) = 256 := rfl
  rcases le_or_gt 0 x with hx | hx
  · rw [Int.tmod_eq_emod_of_nonneg hx, hhashes]
    omega
  · obtain ⟨y, rfl⟩ : ∃ y : ℤ, x = -y := ⟨-x, (neg_neg x).symm⟩
    have hy : 0 ≤ y := by omega
    rw [Int.neg_tmod, Int.tmod_eq_emod_of_nonneg hy, hhashes]
    omega

/-- **When the hash is an index.** -/
theorem isIndex_engineSoundHash_iff : IsIndex (engineSoundHash name) ↔ SumsUp name := by
  rw [IsIndex, toInt_engineSoundHash, tmod_HASHES_nonneg_iff, bmod_emod_HASHES, SumsUp,
    Int.dvd_iff_emod_eq_zero]

/-- An index is the remainder of the sum. -/
theorem toInt_engineSoundHash_of_sumsUp (h : SumsUp name) :
    (engineSoundHash name).toInt = charSum name % HASHES := by
  have hhashes : (HASHES : ℤ) = 256 := rfl
  rw [toInt_engineSoundHash]
  rcases h with h | h
  · rw [Int.tmod_eq_emod_of_nonneg h, bmod_emod_HASHES]
  · have hzero := Int.emod_eq_zero_of_dvd h
    have hbmod := bmod_emod_HASHES (charSum name)
    rw [hzero] at hbmod ⊢
    exact Int.tmod_eq_zero_of_dvd (Int.dvd_of_emod_eq_zero hbmod)

/-! ## Capitals -/

theorem toInt_toInt8_of_lt {c : UInt8} (h : c.toNat < 128) : c.toInt8.toInt = c.toNat :=
  BitVec.toInt_eq_toNat_of_lt (by
    show 2 * c.toNat < 2 ^ 8
    omega)

/-- A capital counts 32 less than its small letter. -/
theorem toInt_toLower (c : UInt8) :
    (toLower c).toInt8.toInt = c.toInt8.toInt + if 65 ≤ c ∧ c ≤ 90 then 32 else 0 := by
  rw [toLower]
  split_ifs with h
  · have hlow : 65 ≤ c.toNat ∧ c.toNat ≤ 90 := h
    have hsum : (c + 32).toNat = c.toNat + 32 := by
      rw [UInt8.toNat_add, Nat.mod_eq_of_lt]
      · rfl
      · have h32 : (32 : UInt8).toNat = 32 := rfl
        omega
    rw [toInt_toInt8_of_lt (by omega), toInt_toInt8_of_lt (by omega), hsum]
    rfl
  · rw [add_zero]

theorem charSum_foldCase (name : CString) :
    charSum (foldCase name) = charSum name + 32 * capitals name := by
  induction name with
  | nil => rfl
  | cons c name ih =>
    have hcons (c : UInt8) (name : CString) : charSum (c :: name) = c.toInt8.toInt + charSum name :=
      List.sum_cons
    rw [foldCase, List.map_cons, hcons, hcons, toInt_toLower, ← foldCase, ih, capitals,
      capitals, List.countP_cons]
    simp only [decide_eq_true_eq]
    split_ifs <;> omega

/-- Names that are equal up to case have the same hash if the numbers of their capitals are the
same up to a multiple of eight. -/
theorem charSum_modEq_iff (h : foldCase a = foldCase b) :
    charSum a % HASHES = charSum b % HASHES ↔ capitals a ≡ capitals b [MOD 8] := by
  have hhashes : (HASHES : ℤ) = 256 := rfl
  have hsum : charSum a + 32 * capitals a = charSum b + 32 * capitals b := by
    rw [← charSum_foldCase, ← charSum_foldCase, h]
  rw [hhashes, Nat.ModEq]
  omega

/-- **The names with hashes as they should be.** The sums of both are indices; and if the names are
equal up to case, then the numbers of their capitals are the same up to a multiple of eight. -/
theorem hashesWell_iff (a b : CString) : HashesWell a b ↔
    SumsUp a ∧ SumsUp b ∧ (foldCase a = foldCase b → capitals a ≡ capitals b [MOD 8]) := by
  rw [HashesWell, isIndex_engineSoundHash_iff, isIndex_engineSoundHash_iff, strcasecmp_eq]
  refine and_congr_right fun ha => and_congr_right fun hb => imp_congr_right fun hfold => ?_
  rw [← Int32.toInt_inj, toInt_engineSoundHash_of_sumsUp ha, toInt_engineSoundHash_of_sumsUp hb,
    charSum_modEq_iff hfold]

/-- A letter with an accent has a negative hash, and a capital moves a name. -/
theorem not_hashesWell_accent_or_capital :
    ¬ HashesWell [233] [233] ∧ ¬ HashesWell (ascii "login") (ascii "Login") := by
  decide

end Peep
