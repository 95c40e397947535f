import Peep.Library.Layout

/-!
# Streams on files

A file that is open through `stdio`: its bytes, the position in it and the end-of-file indicator.
All calls succeed. Writing at a position replaces what is there and goes on behind the end; reading
returns what is there, and sets the indicator if that is less than was asked for.

A file of blocks is a header followed by the images of records in one layout. What is read at the
position of a block is the image of a record, and what is written there replaces one, or is added at
the end.

## Main results

* `fread_block`, `fread_end` — reading a block, and reading at the end of the file
* `fwrite_block` — writing a block
* `fwrite_header` — writing the header
-/

namespace Stdio

open Layout

/-- An open file. -/
structure Stream where
  /-- The bytes of the file. -/
  contents : List UInt8
  /-- The position, `ftell`. -/
  pos : ℕ
  /-- The end-of-file indicator, `feof`. -/
  eof : Bool

/-- A new file: `fopen` for writing. -/
def fopen : Stream where
  contents := []
  pos := 0
  eof := false

/-- `fseek` with `SEEK_SET`. -/
def fseek (s : Stream) (pos : ℕ) : Stream := { s with pos := pos, eof := false }

/-- `fwrite`. Bytes between the end of the file and the position become zeros. -/
def fwrite (s : Stream) (bytes : List UInt8) : Stream :=
  { s with
    contents := s.contents.take s.pos ++ List.replicate (s.pos - s.contents.length) 0 ++ bytes ++
      s.contents.drop (s.pos + bytes.length)
    pos := s.pos + bytes.length }

/-- `fread` of one item of `n` bytes: the bytes that there are, and whether the item is complete. -/
def fread (s : Stream) (n : ℕ) : List UInt8 × Stream :=
  let bytes := (s.contents.drop s.pos).take n
  (bytes, { s with pos := s.pos + bytes.length, eof := s.eof || bytes.length < n })

variable {α : Type*} {size : ℕ} {c : Codec α size} {header : List UInt8} {records : List α}
  {s : Stream} {i : ℕ} {a : α}

/-! ## Files of blocks -/

/-- The images of some records. -/
def blocks (c : Codec α size) (records : List α) : List UInt8 := records.flatMap c.encode

@[simp] theorem blocks_nil : blocks c [] = [] := rfl

@[simp] theorem blocks_cons : blocks c (a :: records) = c.encode a ++ blocks c records := rfl

@[simp] theorem blocks_append {more : List α} :
    blocks c (records ++ more) = blocks c records ++ blocks c more := List.flatMap_append

@[simp] theorem length_blocks : (blocks c records).length = records.length * size := by
  induction records with
  | nil => simp
  | cons a records ih => simp [ih, Nat.succ_mul, Nat.add_comm]

/-- The first blocks are those of the first records. -/
theorem take_blocks (hi : i ≤ records.length) :
    (blocks c records).take (i * size) = blocks c (records.take i) := by
  conv_lhs => rw [← List.take_append_drop i records, blocks_append]
  exact List.take_left' (by rw [length_blocks, List.length_take, min_eq_left hi])

/-- The other blocks are those of the other records. -/
theorem drop_blocks (hi : i ≤ records.length) :
    (blocks c records).drop (i * size) = blocks c (records.drop i) := by
  conv_lhs => rw [← List.take_append_drop i records, blocks_append]
  exact List.drop_left' (by rw [length_blocks, List.length_take, min_eq_left hi])

/-! ## Reading and writing blocks -/

/-- **Reading a block.** -/
theorem fread_block (hcontents : s.contents = header ++ blocks c records)
    (hpos : s.pos = header.length + i * size) (hi : i < records.length) :
    fread s size = (c.encode records[i], { s with pos := header.length + (i + 1) * size }) := by
  have hbytes : (s.contents.drop s.pos).take size = c.encode records[i] := by
    rw [hcontents, hpos, List.drop_append, List.drop_eq_nil_of_le (by omega), List.nil_append,
      Nat.add_sub_cancel_left, drop_blocks hi.le, List.drop_eq_getElem_cons hi, blocks_cons]
    exact List.take_left' (c.length_encode _)
  rw [fread, hbytes]
  simp [hpos, Nat.succ_mul, Nat.add_assoc]

/-- **Reading at the end of the file.** -/
theorem fread_end (hsize : 0 < size) (hcontents : s.contents = header ++ blocks c records)
    (hpos : s.pos = header.length + records.length * size) :
    fread s size = ([], { s with eof := true }) := by
  have hbytes : (s.contents.drop s.pos).take size = [] := by
    rw [hcontents, hpos, List.drop_eq_nil_of_le (by simp), List.take_nil]
  rw [fread, hbytes]
  simp [hsize]

/-- **Writing a block**: in place of a record, or behind the last. -/
theorem fwrite_block (hcontents : s.contents = header ++ blocks c records)
    (hpos : s.pos = header.length + i * size) (hi : i ≤ records.length) :
    fwrite s (c.encode a) = { s with
      contents := header ++ blocks c (records.take i ++ a :: records.drop (i + 1))
      pos := header.length + (i + 1) * size } := by
  have hlength : s.contents.length = header.length + records.length * size := by
    rw [hcontents, List.length_append, length_blocks]
  have hinside : s.pos ≤ s.contents.length := by
    rw [hpos, hlength]
    exact Nat.add_le_add_left (Nat.mul_le_mul_right _ hi) _
  have hfront : s.contents.take s.pos = header ++ blocks c (records.take i) := by
    rw [hcontents, hpos, List.take_append, List.take_of_length_le (by omega),
      Nat.add_sub_cancel_left, take_blocks hi]
  have hback : s.contents.drop (s.pos + size) = blocks c (records.drop (i + 1)) := by
    have hnext : s.pos + size = header.length + (i + 1) * size := by
      rw [hpos, Nat.succ_mul, Nat.add_assoc]
    rw [hnext, hcontents, List.drop_append, List.drop_eq_nil_of_le (by omega), List.nil_append,
      Nat.add_sub_cancel_left]
    rcases Nat.lt_or_ge i records.length with hlt | hge
    · exact drop_blocks hlt
    · have hnone : records.drop (i + 1) = [] := List.drop_eq_nil_of_le (by omega)
      rw [hnone, blocks_nil]
      refine List.drop_eq_nil_of_le ?_
      rw [length_blocks]
      exact Nat.mul_le_mul_right _ (by omega)
  rw [fwrite, c.length_encode, hfront, hback, Nat.sub_eq_zero_of_le hinside, List.replicate_zero]
  simp [hpos, Nat.succ_mul, Nat.add_assoc]

/-- **Writing the header** leaves the blocks. -/
theorem fwrite_header {new : List UInt8} (hcontents : s.contents = header ++ blocks c records)
    (hpos : s.pos = 0) (hlength : new.length = header.length) :
    fwrite s new = { s with contents := new ++ blocks c records, pos := new.length } := by
  rw [fwrite, hpos, hcontents, Nat.zero_add, hlength, List.drop_left]
  simp

end Stdio
