import Mathlib.Data.List.Basic
import Mathlib.Data.Nat.Basic
import Mathlib.Logic.Equiv.Basic
import Mathlib.Tactic.Linarith

/-!
# Fixed-size binary layouts

The image of a value in memory or in a file, where it is written as it lies in memory:
little-endian integers, one field behind the other. A `Codec` carries both directions, the size of
the image and the proofs that it has that size and that reading gives back what was written, so
that a layout which is put together from codecs needs no proof of its own.

## Main definitions

* `leBytes`, `leValue` — little-endian numbers
* `Codec` — a layout, with `Codec.byte`, `Codec.uint32`, `Codec.uint64` for its fields and
  `Codec.seq`, `Codec.padded`, `Codec.map` to put them together
-/

namespace Layout

/-! ## Little-endian numbers -/

/-- The lowest `k` bytes of a number, the lowest first. -/
def leBytes : ℕ → ℕ → List UInt8
  | 0, _ => []
  | k + 1, v => UInt8.ofNat v :: leBytes k (v / 256)

/-- The number of some bytes, the lowest first. -/
def leValue : List UInt8 → ℕ
  | [] => 0
  | b :: bs => b.toNat + 256 * leValue bs

@[simp] theorem length_leBytes (k v : ℕ) : (leBytes k v).length = k := by
  induction k generalizing v with
  | zero => rfl
  | succ k ih => rw [leBytes, List.length_cons, ih]

/-- Reading back what fits. -/
theorem leValue_leBytes {k v : ℕ} (h : v < 256 ^ k) : leValue (leBytes k v) = v := by
  induction k generalizing v with
  | zero =>
    obtain rfl : v = 0 := by simpa using h
    rfl
  | succ k ih =>
    have hdiv : v / 256 < 256 ^ k := by
      rw [Nat.div_lt_iff_lt_mul (by decide), ← pow_succ]
      exact h
    have hlow : (UInt8.ofNat v).toNat = v % 256 := by simp
    rw [leBytes, leValue, ih hdiv, hlow]
    omega

/-! ## Codecs -/

/-- A layout of `size` bytes for the values of a type. -/
structure Codec (α : Type*) (size : ℕ) where
  /-- The image of a value. -/
  encode : α → List UInt8
  /-- The value of an image. -/
  decode : List UInt8 → α
  /-- Every image has the size of the layout. -/
  length_encode : ∀ a, (encode a).length = size
  /-- Reading gives back what was written. -/
  decode_encode : ∀ a, decode (encode a) = a

attribute [simp] Codec.length_encode Codec.decode_encode

namespace Codec

variable {α β : Type*} {m n : ℕ}

/-- One byte. -/
def byte : Codec UInt8 1 where
  encode b := [b]
  decode bs := bs.headD 0
  length_encode _ := rfl
  decode_encode _ := rfl

/-- An integer of four bytes. -/
def uint32 : Codec UInt32 4 where
  encode v := leBytes 4 v.toNat
  decode bs := UInt32.ofNat (leValue bs)
  length_encode _ := length_leBytes _ _
  decode_encode v := by rw [leValue_leBytes v.toNat_lt, UInt32.ofNat_toNat]

/-- An integer of eight bytes. -/
def uint64 : Codec UInt64 8 where
  encode v := leBytes 8 v.toNat
  decode bs := UInt64.ofNat (leValue bs)
  length_encode _ := length_leBytes _ _
  decode_encode v := by rw [leValue_leBytes v.toNat_lt, UInt64.ofNat_toNat]

/-- One layout behind the other. -/
def seq (c : Codec α m) (d : Codec β n) : Codec (α × β) (m + n) where
  encode p := c.encode p.1 ++ d.encode p.2
  decode bs := (c.decode (bs.take m), d.decode (bs.drop m))
  length_encode p := by rw [List.length_append, c.length_encode, d.length_encode]
  decode_encode p := by
    rw [List.take_left' (c.length_encode p.1), List.drop_left' (c.length_encode p.1),
      c.decode_encode, d.decode_encode]

/-- A layout followed by bytes that mean nothing. -/
def padded (c : Codec α m) (k : ℕ) : Codec α (m + k) where
  encode a := c.encode a ++ List.replicate k 0
  decode bs := c.decode (bs.take m)
  length_encode a := by rw [List.length_append, c.length_encode, List.length_replicate]
  decode_encode a := by rw [List.take_left' (c.length_encode a), c.decode_encode]

/-- The layout of another type with the same values. -/
def map (c : Codec α m) (e : β ≃ α) : Codec β m where
  encode b := c.encode (e b)
  decode bs := e.symm (c.decode bs)
  length_encode b := c.length_encode (e b)
  decode_encode b := by rw [c.decode_encode, e.symm_apply_apply]

end Codec

end Layout
