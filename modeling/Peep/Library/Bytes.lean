import Mathlib.Data.List.GetD
import Mathlib.Data.List.Infix
import Mathlib.Data.List.TakeWhile
import Mathlib.Tactic.IntervalCases
import Mathlib.Tactic.Linarith

/-!
# Bytes received and buffers allocated

What a program may read of a message is the bytes it has received, and what it may write is the
memory it has allocated. A message is a list of bytes. A buffer is a list whose elements are
`none` until they are written. Every access returns an `Option`: `none` is an access outside the
message or the buffer, or a byte that nobody has written.

Lengths come from the network as signed 32-bit integers. A negative one becomes a size beyond every
message and every buffer where a function takes a `size_t`.
-/

namespace Bytes

/-! ## Messages -/

variable {msg bs : List UInt8} {off n : ℕ}

/-- Copy `n` bytes of a message, from `off` on. -/
def copy? (msg : List UInt8) (off n : ℕ) : Option (List UInt8) :=
  if off + n ≤ msg.length then some ((msg.drop off).take n) else none

/-- The same with a signed length. -/
def copySigned? (msg : List UInt8) (off : ℕ) (n : Int32) : Option (List UInt8) :=
  if 0 ≤ n.toInt then copy? msg off n.toInt.toNat else none

theorem copy?_eq_some_iff :
    copy? msg off n = some bs ↔ off + n ≤ msg.length ∧ bs = (msg.drop off).take n := by
  rw [copy?]
  split_ifs with h <;> simp [h, eq_comm]

theorem copySigned?_eq_some_iff {n : Int32} : copySigned? msg off n = some bs ↔
    0 ≤ n.toInt ∧ off + n.toInt.toNat ≤ msg.length ∧ bs = (msg.drop off).take n.toInt.toNat := by
  rw [copySigned?]
  split_ifs with h <;> simp [h, copy?_eq_some_iff]

/-- The integer of four bytes in network byte order. -/
def word (a b c d : UInt8) : Int32 :=
  ((a.toUInt32 <<< 24) ||| (b.toUInt32 <<< 16) ||| (c.toUInt32 <<< 8) ||| d.toUInt32).toInt32

/-- The integer at a place of a message, in network byte order. -/
def wordAt (msg : List UInt8) (i : ℕ) : Int32 :=
  word (msg.getD i 0) (msg.getD (i + 1) 0) (msg.getD (i + 2) 0) (msg.getD (i + 3) 0)

/-- The four bytes of an integer in network byte order. -/
def wordBytes (x : UInt32) : List UInt8 :=
  [(x >>> 24).toUInt8, (x >>> 16).toUInt8, (x >>> 8).toUInt8, x.toUInt8]

/-- **Reading an integer in network byte order** that was written so. -/
theorem wordAt_wordBytes (pre post : List UInt8) (x : UInt32) :
    wordAt (pre ++ (wordBytes x ++ post)) pre.length = x.toInt32 := by
  have hbytes : ∀ i < 4, (pre ++ (wordBytes x ++ post)).getD (pre.length + i) 0
      = (wordBytes x).getD i 0 := by
    intro i hi
    rw [List.getD_append_right _ _ _ _ (Nat.le_add_right _ _), Nat.add_sub_cancel_left,
      List.getD_append _ _ _ _ hi]
  have hfirst := hbytes 0 (by decide)
  rw [Nat.add_zero] at hfirst
  rw [wordAt, hfirst, hbytes 1 (by decide), hbytes 2 (by decide),
    hbytes 3 (by decide)]
  refine congrArg UInt32.toInt32 (UInt32.eq_of_toBitVec_eq ?_)
  ext i hi
  simp [wordBytes, -UInt32.toUInt32_toUInt8]
  interval_cases i <;> simp

/-- The bytes before the first zero. -/
def untilZero (bs : List UInt8) : List UInt8 := bs.takeWhile (· ≠ 0)

theorem untilZero_isPrefix (bs : List UInt8) : untilZero bs <+: bs := List.takeWhile_prefix _

theorem untilZero_eq_self (h : 0 ∉ bs) : untilZero bs = bs :=
  List.takeWhile_eq_self_iff.mpr fun _ hc => decide_eq_true fun h0 => h (h0 ▸ hc)

theorem zero_notMem_untilZero (bs : List UInt8) : 0 ∉ untilZero bs := fun h0 =>
  absurd rfl (of_decide_eq_true (List.mem_takeWhile_imp (p := fun c => decide (c ≠ 0)) h0))

theorem untilZero_append (h : 0 ∉ bs) (back : List UInt8) : untilZero (bs ++ 0 :: back) = bs := by
  have hs : ∀ c ∈ bs, decide (c ≠ 0) = true := fun c hc => decide_eq_true fun h0 => h (h0 ▸ hc)
  rw [untilZero, List.takeWhile_append_of_pos hs]
  exact List.append_nil bs

/-- A string in memory has a zero behind it. -/
theorem exists_eq_untilZero_append (h : 0 ∈ bs) : ∃ back, bs = untilZero bs ++ 0 :: back := by
  have hsplit : untilZero bs ++ bs.dropWhile (· ≠ 0) = bs := List.takeWhile_append_dropWhile
  rcases hback : bs.dropWhile (· ≠ 0) with - | ⟨c, back⟩
  · exact absurd rfl (of_decide_eq_true (List.dropWhile_eq_nil_iff.mp hback 0 h))
  · have hhead := List.head?_dropWhile_not (fun c : UInt8 => decide (c ≠ 0)) bs
    rw [hback] at hhead
    obtain rfl : c = 0 := by simpa using hhead
    exact ⟨back, hback ▸ hsplit.symm⟩

/-! ## Buffers -/

/-- Allocated memory; `none` is a byte that was not written yet. -/
abbrev Buffer := List (Option UInt8)

/-- `malloc`; a negative size cannot be allocated. -/
def malloc (n : Int32) : Option Buffer :=
  if 0 ≤ n.toInt then some (List.replicate n.toInt.toNat none) else none

/-- Write a byte. -/
def write? (b : Buffer) (i : Int32) (c : UInt8) : Option Buffer :=
  if 0 ≤ i.toInt ∧ i.toInt < b.length then some (b.set i.toInt.toNat (some c)) else none

/-- Write bytes from the start of a buffer on. -/
def fill? (b : Buffer) (bs : List UInt8) : Option Buffer :=
  if bs.length ≤ b.length then some (bs.map some ++ b.drop bs.length) else none

/-- The string at the start of a buffer. -/
def string? : Buffer → Option (List UInt8)
  | some c :: rest => if c = 0 then some [] else (string? rest).map (c :: ·)
  | _ => none

variable {b : Buffer} {i m : Int32} {c : UInt8}

theorem malloc_eq_some_iff :
    malloc m = some b ↔ 0 ≤ m.toInt ∧ b = List.replicate m.toInt.toNat none := by
  rw [malloc]
  split_ifs with h <;> simp [h, eq_comm]

theorem write?_eq_some_iff {b' : Buffer} : write? b i c = some b' ↔
    (0 ≤ i.toInt ∧ i.toInt < b.length) ∧ b' = b.set i.toInt.toNat (some c) := by
  rw [write?]
  split_ifs with h <;> simp [h, eq_comm]

theorem fill?_eq_some_iff {b' : Buffer} : fill? b bs = some b' ↔
    bs.length ≤ b.length ∧ b' = bs.map some ++ b.drop bs.length := by
  rw [fill?]
  split_ifs with h <;> simp [h, eq_comm]

/-- Nothing can be written at the end of what is exactly full. -/
theorem write?_length (h : i.toInt = b.length) : write? b i c = none := by
  rw [write?, if_neg (by omega)]

end Bytes
