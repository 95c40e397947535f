import Mathlib.Data.List.TakeDrop
import Mathlib.Tactic.Ring
import Peep.Library.StepSystem

/-!
# Chunks for the sound card

The sound card takes chunks of `chunksize` bytes. `soundPlayChunk` is given any number of bytes. It
gathers them in `audio_buffer`, of which the first `buffer_pos` bytes are in use, and writes the
buffer to the card whenever it is full. If the card does not take all of it then the buffer stays
full, the rest of the data is given up, and the next call tries again.

`chunksize` is an `ssize_t`, but the number of bytes to copy and the position in the buffer are of
type `int`. A number of bytes that does not fit becomes negative, and so does the position.

## Choices

The result of a write is given in bytes. A chunk is a whole number of frames, so a write offers all
of it. The loop is given as many rounds as it can need: `returns` says that it comes to an end.

## Main results

* `soundPlayLoop_returns` — one call: it ends, and the data goes through the buffer
* `rechunks_iff` — when no byte is lost, and none is written outside of the buffer
-/

namespace Peep

open StepSystem

/-! ## Overwriting a part of a buffer -/

section Overwrite

variable {α : Type*} {buffer bytes : List α} {pos : ℕ}

/-- The bytes from a position on are overwritten. -/
def overwrite (buffer : List α) (pos : ℕ) (bytes : List α) : List α :=
  buffer.take pos ++ bytes ++ buffer.drop (pos + bytes.length)

theorem length_overwrite (h : pos + bytes.length ≤ buffer.length) :
    (overwrite buffer pos bytes).length = buffer.length := by
  simp only [overwrite, List.length_append, List.length_take, List.length_drop]
  omega

/-- What is in front of the bytes, and the bytes. -/
theorem take_overwrite (h : pos + bytes.length ≤ buffer.length) :
    (overwrite buffer pos bytes).take (pos + bytes.length) = buffer.take pos ++ bytes := by
  have hlength : (buffer.take pos ++ bytes).length = pos + bytes.length := by
    rw [List.length_append, List.length_take, Nat.min_eq_left (by omega)]
  rw [overwrite, ← hlength, List.take_left]

end Overwrite

/-! ## The sound card -/

/-- The conversion to `size_t`. -/
def toSize (n : ℤ) : ℕ := (n % 2 ^ 64).toNat

/-- The state between two calls. -/
structure SoundCard where
  /-- `audio_buffer`. -/
  audio_buffer : List UInt8
  /-- `buffer_pos`. -/
  buffer_pos : Int32
  /-- The bytes that the device has taken. -/
  played : List UInt8
  /-- How often the device has been written to. -/
  writes : ℕ

/-- `chunksize`, the size with which the buffer has been allocated. -/
def SoundCard.chunksize (s : SoundCard) : ℕ := s.audio_buffer.length

/-- The bytes that wait in the buffer. -/
def SoundCard.held (s : SoundCard) : List UInt8 := s.audio_buffer.take s.buffer_pos.toInt.toNat

/-- The number of bytes to copy. -/
def SoundCard.writeSize (s : SoundCard) (data_size : ℕ) : Int32 :=
  if data_size ≤ toSize (s.chunksize - s.buffer_pos.toInt) then Int32.ofInt data_size
  else Int32.ofInt (s.chunksize - s.buffer_pos.toInt)

/-- `memcpy (audio_buffer + buffer_pos, data, write_size)`, if it stays in the two buffers. -/
def SoundCard.memcpy (s : SoundCard) (data : List UInt8) (write_size : Int32) : Option SoundCard :=
  let size := toSize write_size.toInt
  if 0 ≤ s.buffer_pos.toInt ∧ s.buffer_pos.toInt + size ≤ s.chunksize ∧ size ≤ data.length then
    some { s with
      audio_buffer := overwrite s.audio_buffer s.buffer_pos.toInt.toNat (data.take size) }
  else none

/-- The buffer is written to the device, which takes so many bytes. -/
def SoundCard.writei (s : SoundCard) (written : ℤ) : SoundCard :=
  { s with played := s.played ++ s.audio_buffer.take written.toNat, writes := s.writes + 1 }

/-- The outcome of a call. -/
inductive PlayResult
  /-- It returns. -/
  | returns (value : ℤ) (s : SoundCard)
  /-- It copies bytes from or to where they do not belong. -/
  | outOfBounds
  /-- It has not come to an end. -/
  | running

/-- The loop of `soundPlayChunk`, for so many rounds. The results of all writes are given. -/
def soundPlayLoop (device : ℕ → ℤ) (len : ℕ) : ℕ → SoundCard → List UInt8 → PlayResult
  | 0, _, _ => .running
  | rounds + 1, s, data =>
    if data = [] then .returns len s
    else
      let write_size := s.writeSize data.length
      match s.memcpy data write_size with
      | none => .outOfBounds
      | some s =>
        let data := data.drop (toSize write_size.toInt)
        let s := { s with buffer_pos := s.buffer_pos + write_size }
        if s.buffer_pos.toInt = s.chunksize then
          let written := device s.writes
          let s := s.writei written
          if written ≠ s.chunksize then .returns written s
          else soundPlayLoop device len rounds { s with buffer_pos := 0 } data
        else soundPlayLoop device len rounds s data

/-- `soundPlayChunk`, with or without a handle. -/
def soundPlayChunk (device : ℕ → ℤ) (handle : Bool) (s : SoundCard) (data : List UInt8) :
    PlayResult :=
  if !handle then .returns 0 s
  else soundPlayLoop device data.length (data.length + 2) s data

/-! ## Calls -/

/-- A buffer as `allocateAudioBuffer` can allocate it. -/
def AudioBuffer : Type := { buffer : List UInt8 // buffer ≠ [] ∧ buffer.length < 2 ^ 63 }

/-- The data of a call, whose length is an `unsigned int`. -/
def ChunkData : Type := { data : List UInt8 // data.length < 2 ^ 32 }

/-- The state after `allocateAudioBuffer`. -/
def AudioBuffer.card (buffer : AudioBuffer) : SoundCard where
  audio_buffer := buffer.1
  buffer_pos := 0
  played := []
  writes := 0

/-- A call that returns. -/
def SoundCard.step (device : ℕ → ℤ) (s : SoundCard) (data : ChunkData) : Option SoundCard :=
  match soundPlayChunk device true s data.1 with
  | .returns _ s => some s
  | _ => none

/-- The data of some calls. -/
def callBytes (calls : List ChunkData) : List UInt8 := calls.flatMap fun data => data.1

/-- What is asked of a sequence of calls. If the device takes all that it is offered, then what it
has been given and what waits in the buffer is all the data, in order, and less than a chunk waits.
And whatever it takes, all calls return. -/
def Rechunks (buffer : AudioBuffer) (calls : List ChunkData) : Prop :=
  (∀ device : ℕ → ℤ, (∀ k, device k = buffer.card.chunksize) → ∀ before after,
    calls = before ++ after → ∃ s, exec (SoundCard.step device) buffer.card before = some s ∧
      s.played ++ s.held = callBytes before ∧ s.held.length < buffer.card.chunksize) ∧
    ∀ device : ℕ → ℤ, ∃ s, exec (SoundCard.step device) buffer.card calls = some s

variable {s s' : SoundCard} {data : List UInt8} {device : ℕ → ℤ} {p n m len rounds : ℕ}
  {calls : List ChunkData} {buffer : AudioBuffer}

/-! ## One round -/

theorem toSize_of_nonneg {x : ℤ} (h : 0 ≤ x) (hx : x < 2 ^ 64) : toSize x = x.toNat := by
  rw [toSize, Int.emod_eq_of_lt h hx]

/-- The state after a round in which some bytes have been copied. -/
def SoundCard.filled (s : SoundCard) (p : ℕ) (bytes : List UInt8) : SoundCard :=
  { s with audio_buffer := overwrite s.audio_buffer p bytes,
           buffer_pos := Int32.ofInt (p + bytes.length) }

theorem toInt_ofInt_nat (h : n < 2 ^ 31) : (Int32.ofInt n).toInt = n :=
  Int32.toInt_ofInt_of_le (by omega) (by omega)

/-- The number of bytes to copy is the smaller of the data and the room, as an `int`. -/
theorem writeSize_eq (hpos : s.buffer_pos.toInt = p) (hp : p ≤ s.chunksize)
    (hchunk : s.chunksize < 2 ^ 63) :
    s.writeSize data.length = Int32.ofInt (min data.length (s.chunksize - p) : ℕ) := by
  rw [SoundCard.writeSize, hpos, toSize_of_nonneg (by omega) (by omega)]
  split_ifs with h
  · rw [Nat.min_eq_left (by omega)]
  · rw [Nat.min_eq_right (by omega), Nat.cast_sub hp]

/-- Within an `int`, the bytes get to their place. -/
theorem memcpy_eq (hpos : s.buffer_pos.toInt = p) (hroom : p + n ≤ s.chunksize)
    (hdata : n ≤ data.length) (hn : n < 2 ^ 31) : s.memcpy data (Int32.ofInt n) =
      some { s with audio_buffer := overwrite s.audio_buffer p (data.take n) } := by
  have hsize : toSize (Int32.ofInt n).toInt = n := by
    rw [toInt_ofInt_nat hn, toSize_of_nonneg (by omega) (by omega), Int.toNat_natCast]
  simp only [SoundCard.memcpy, hsize, hpos, Int.toNat_natCast]
  exact if_pos ⟨by omega, by omega, hdata⟩

/-- **One round** that stays within an `int`. -/
theorem soundPlayLoop_round (hpos : s.buffer_pos.toInt = p) (hp : p ≤ s.chunksize)
    (hchunk : s.chunksize < 2 ^ 63) (hdata : data ≠ [])
    (hn : n = min data.length (s.chunksize - p)) (hsmall : p + n < 2 ^ 31) :
    soundPlayLoop device len (rounds + 1) s data =
      let t := s.filled p (data.take n)
      if p + n = s.chunksize then
        if device s.writes ≠ s.chunksize then
          .returns (device s.writes) (t.writei (device s.writes))
        else soundPlayLoop device len rounds
          { t.writei (device s.writes) with buffer_pos := 0 } (data.drop n)
      else soundPlayLoop device len rounds t (data.drop n) := by
  have hroom : p + n ≤ s.chunksize := by omega
  have hlen : n ≤ data.length := by omega
  have hsize : toSize (Int32.ofInt n).toInt = n := by
    rw [toInt_ofInt_nat (by omega), toSize_of_nonneg (by omega) (by omega), Int.toNat_natCast]
  have htake : (data.take n).length = n := by rw [List.length_take, Nat.min_eq_left hlen]
  have hadd : s.buffer_pos + Int32.ofInt n = Int32.ofInt (p + (data.take n).length) := by
    rw [htake, Int32.ofInt_add, ← hpos, Int32.ofInt_toInt]
  have hwrite : s.writeSize data.length = Int32.ofInt n := by rw [writeSize_eq hpos hp hchunk, ← hn]
  have hcopy := memcpy_eq hpos hroom hlen (show n < 2 ^ 31 by omega)
  have hchunksize (b : Int32) : SoundCard.chunksize { s with
      audio_buffer := overwrite s.audio_buffer p (data.take n), buffer_pos := b } = s.chunksize :=
    length_overwrite (htake.symm ▸ hroom)
  have hend : (Int32.ofInt (p + (data.take n).length)).toInt = ((p + n : ℕ) : ℤ) := by
    rw [htake, ← Nat.cast_add, toInt_ofInt_nat hsmall]
  have hwritten (b : Int32) (k : ℤ) : (SoundCard.writei { s with
      audio_buffer := overwrite s.audio_buffer p (data.take n), buffer_pos := b } k).chunksize
        = s.chunksize := hchunksize b
  rw [soundPlayLoop, if_neg hdata]
  simp only [hwrite, hcopy, hsize, hadd, hend, hchunksize, hwritten, Nat.cast_inj]
  rfl

/-! ## One call -/

/-- The position lies in the buffer, and is an `int` if so many bytes are added to it. -/
def SoundCard.Fits (s : SoundCard) (m : ℕ) : Prop :=
  ∃ p : ℕ, s.buffer_pos.toInt = p ∧ p ≤ s.chunksize ∧ (s.chunksize < 2 ^ 31 ∨ p + m < 2 ^ 31)

theorem held_eq (hpos : s.buffer_pos.toInt = p) : s.held = s.audio_buffer.take p := by
  rw [SoundCard.held, hpos, Int.toNat_natCast]

theorem length_held (hpos : s.buffer_pos.toInt = p) (hp : p ≤ s.chunksize) :
    s.held.length = p := by
  rw [held_eq hpos, List.length_take]
  exact Nat.min_eq_left hp

section Filled

variable {bytes : List UInt8}

theorem chunksize_filled (h : p + bytes.length ≤ s.chunksize) :
    (s.filled p bytes).chunksize = s.chunksize :=
  length_overwrite h

theorem buffer_pos_filled (h : p + bytes.length < 2 ^ 31) :
    (s.filled p bytes).buffer_pos.toInt = (p + bytes.length : ℕ) := by
  rw [SoundCard.filled, ← Nat.cast_add, toInt_ofInt_nat h]

theorem take_filled (h : p + bytes.length ≤ s.chunksize) :
    (s.filled p bytes).audio_buffer.take (p + bytes.length) = s.audio_buffer.take p ++ bytes :=
  take_overwrite h

end Filled

/-- From one state to the other, data is taken. If the device takes all that it is offered, then the
data is put behind what has been held. A chunk that is no `int` is not written. -/
structure SoundCard.Takes (device : ℕ → ℤ) (m : ℕ) (s : SoundCard) (data : List UInt8)
    (s' : SoundCard) : Prop where
  /-- The buffer stays. -/
  chunksize_eq : s'.chunksize = s.chunksize
  /-- The position stays an `int`. -/
  fits : s'.Fits m
  /-- Nothing is written if a chunk is too long. -/
  played_eq : 2 ^ 31 ≤ s.chunksize → s'.played = s.played
  /-- What has been written and what is held. -/
  stream : (∀ k, device k = s.chunksize) → s.held.length < s.chunksize →
    s'.played ++ s'.held = s.played ++ s.held ++ data ∧ s'.held.length < s.chunksize

theorem SoundCard.Takes.nil (hs : s.Fits m) : s.Takes device m [] s :=
  ⟨rfl, hs, fun _ => rfl, fun _ hheld => ⟨(List.append_nil _).symm, hheld⟩⟩

/-- **The rule for a sequence.** -/
theorem SoundCard.Takes.trans {t : SoundCard} {more : List UInt8} {m' : ℕ}
    (h : s.Takes device m data t) (h' : t.Takes device m' more s') :
    s.Takes device m' (data ++ more) s' where
  chunksize_eq := h'.chunksize_eq.trans h.chunksize_eq
  fits := h'.fits
  played_eq hlong := (h'.played_eq (h.chunksize_eq.symm ▸ hlong)).trans (h.played_eq hlong)
  stream hdevice hheld := by
    have hmore := h'.stream
    rw [h.chunksize_eq] at hmore
    obtain ⟨hbytes, hless⟩ := h.stream hdevice hheld
    obtain ⟨hbytes', hless'⟩ := hmore hdevice hless
    refine ⟨?_, hless'⟩
    rw [hbytes', hbytes, List.append_assoc]

section Rounds

variable {bytes : List UInt8}

/-- A round that does not fill the buffer. -/
theorem takes_filled (hp : s.buffer_pos.toInt = p) (hroom : p + bytes.length < s.chunksize)
    (hsmall : s.chunksize < 2 ^ 31 ∨ p + bytes.length + m < 2 ^ 31) :
    s.Takes device m bytes (s.filled p bytes) := by
  have hchunksize : (s.filled p bytes).chunksize = s.chunksize := chunksize_filled hroom.le
  have hend : (s.filled p bytes).buffer_pos.toInt = (p + bytes.length : ℕ) :=
    buffer_pos_filled (by omega)
  refine ⟨hchunksize, ⟨_, hend, hchunksize.symm ▸ hroom.le, ?_⟩, fun _ => rfl, fun _ _ => ⟨?_, ?_⟩⟩
  · rwa [hchunksize]
  · rw [held_eq hend, take_filled hroom.le, ← held_eq hp]
    exact (List.append_assoc _ _ _).symm
  · rwa [length_held hend (hchunksize.symm ▸ hroom.le)]

/-- A round that fills the buffer, which the device takes. -/
theorem takes_written (hp : s.buffer_pos.toInt = p) (hfull : p + bytes.length = s.chunksize)
    (hsmall : s.chunksize < 2 ^ 31) (hpos : 0 < s.chunksize)
    (htaken : device s.writes = s.chunksize) : s.Takes device m bytes
      { (s.filled p bytes).writei (device s.writes) with buffer_pos := 0 } := by
  let t : SoundCard := { (s.filled p bytes).writei (device s.writes) with buffer_pos := 0 }
  have hchunksize : t.chunksize = s.chunksize := chunksize_filled hfull.le
  have hstart : t.buffer_pos.toInt = (0 : ℕ) := Int32.toInt_zero
  have hempty : t.held = [] :=
    List.length_eq_zero_iff.mp (length_held hstart (Nat.zero_le _))
  have hbuffer : (s.filled p bytes).audio_buffer.take (device s.writes).toNat
      = s.held ++ bytes := by
    rw [htaken, Int.toNat_natCast, ← hfull, take_filled hfull.le, held_eq hp]
  refine ⟨hchunksize, ⟨0, hstart, Nat.zero_le _, .inl (hchunksize.symm ▸ hsmall)⟩,
    fun hlong => absurd hsmall hlong.not_gt, fun _ _ => ⟨?_, ?_⟩⟩
  · show t.played ++ t.held = _
    rw [hempty, List.append_nil, List.append_assoc, ← hbuffer]
    rfl
  · show t.held.length < _
    rwa [hempty]

/-- A round that fills the buffer, which the device does not take. -/
theorem takes_refused (hfull : p + bytes.length = s.chunksize) (hsmall : s.chunksize < 2 ^ 31)
    (hrefused : device s.writes ≠ s.chunksize) :
    s.Takes device m data ((s.filled p bytes).writei (device s.writes)) := by
  have hchunksize : (s.filled p bytes).chunksize = s.chunksize := chunksize_filled hfull.le
  have hend : (s.filled p bytes).buffer_pos.toInt = (p + bytes.length : ℕ) :=
    buffer_pos_filled (hfull ▸ hsmall)
  refine ⟨hchunksize, ⟨_, hend, (hfull.trans hchunksize.symm).le, .inl ?_⟩,
    fun hlong => absurd hsmall hlong.not_gt, fun hdevice => absurd (hdevice _) hrefused⟩
  exact lt_of_eq_of_lt hchunksize hsmall

end Rounds

/-- The rounds that a call may need for some data. -/
def SoundCard.roundsFor (s : SoundCard) (data : List UInt8) : ℕ :=
  data.length + if s.held.length = s.chunksize then 1 else 0

/-- **One round** ends the call, or takes some of the data. -/
theorem soundPlayLoop_round_cases (device : ℕ → ℤ) (len rounds : ℕ)
    (hs : s.Fits (data.length + m)) (hpos : 0 < s.chunksize) (hchunk : s.chunksize < 2 ^ 63)
    (hdata : data ≠ []) :
    (∃ v s', soundPlayLoop device len (rounds + 1) s data = .returns v s' ∧
      s.Takes device m data s') ∨
      ∃ front rest t, front ++ rest = data ∧ s.Takes device (rest.length + m) front t ∧
        t.roundsFor rest < s.roundsFor data ∧
        soundPlayLoop device len (rounds + 1) s data = soundPlayLoop device len rounds t rest := by
  obtain ⟨p, hp, hle, hsmall⟩ := hs
  obtain ⟨n, hn⟩ : ∃ n, n = min data.length (s.chunksize - p) := ⟨_, rfl⟩
  have hnonempty : 0 < data.length := List.length_pos_iff.mpr hdata
  have hint : p + n < 2 ^ 31 := by omega
  have htake : (data.take n).length = n := by
    rw [List.length_take, Nat.min_eq_left (by omega)]
  have hheld : s.held.length = p := length_held hp hle
  rw [soundPlayLoop_round hp hle hchunk hdata hn hint]
  by_cases hfull : p + n = s.chunksize
  · have hchunkInt : s.chunksize < 2 ^ 31 := hfull ▸ hint
    have hfilled : p + (data.take n).length = s.chunksize := by rw [htake, hfull]
    by_cases htaken : device s.writes = s.chunksize
    · -- the device takes the buffer, which is empty then
      have htakes : s.Takes device ((data.drop n).length + m) (data.take n)
          { (s.filled p (data.take n)).writei (device s.writes) with buffer_pos := 0 } :=
        takes_written hp hfilled hchunkInt hpos htaken
      refine .inr ⟨_, _, _, List.take_append_drop n data, htakes, ?_, ?_⟩
      · rw [SoundCard.roundsFor, SoundCard.roundsFor, htakes.chunksize_eq, hheld,
          length_held Int32.toInt_zero (Nat.zero_le _), if_neg hpos.ne, List.length_drop]
        split_ifs <;> omega
      · simp only [if_pos hfull, htaken, ne_eq, not_true_eq_false, if_false]
    · -- the device does not take it, and the call is over
      refine .inl ⟨device s.writes, _, ?_, takes_refused hfilled hchunkInt htaken⟩
      simp only [if_pos hfull, ne_eq, htaken, not_false_eq_true, if_true]
  · -- all data is in the buffer
    have hroom : p + (data.take n).length < s.chunksize := by omega
    have hdrop : data.drop n = [] := List.drop_eq_nil_of_le (by omega)
    have htakes : s.Takes device ((data.drop n).length + m) (data.take n)
        (s.filled p (data.take n)) :=
      takes_filled hp hroom (by rw [hdrop, List.length_nil]; omega)
    refine .inr ⟨_, _, _, List.take_append_drop n data, htakes, ?_, ?_⟩
    · rw [SoundCard.roundsFor, SoundCard.roundsFor, htakes.chunksize_eq,
        length_held (buffer_pos_filled (by omega)) (htakes.chunksize_eq.symm ▸ hroom.le),
        if_neg hroom.ne, hdrop, List.length_nil]
      omega
    · simp only [if_neg hfull]

/-- **One call** ends, whatever the device takes. -/
theorem soundPlayLoop_returns (device : ℕ → ℤ) (len rounds : ℕ) (hs : s.Fits (data.length + m))
    (hpos : 0 < s.chunksize) (hchunk : s.chunksize < 2 ^ 63)
    (hrounds : s.roundsFor data < rounds) :
    ∃ v s', soundPlayLoop device len rounds s data = .returns v s' ∧ s.Takes device m data s' := by
  induction rounds generalizing s data with
  | zero => exact absurd hrounds (Nat.not_lt_zero _)
  | succ rounds ih =>
    rcases eq_or_ne data [] with rfl | hdata
    · rw [List.length_nil, Nat.zero_add] at hs
      exact ⟨len, s, by rw [soundPlayLoop, if_pos rfl], .nil hs⟩
    rcases soundPlayLoop_round_cases device len rounds hs hpos hchunk hdata with
      hends | ⟨front, rest, t, rfl, htakes, hless, hround⟩
    · exact hends
    · obtain ⟨v, s', hrun, hs'⟩ := ih htakes.fits (htakes.chunksize_eq.symm ▸ hpos)
        (htakes.chunksize_eq.symm ▸ hchunk) (by omega)
      exact ⟨v, s', hround.trans hrun, htakes.trans hs'⟩

/-! ## Sequences of calls -/

theorem callBytes_append (before after : List ChunkData) :
    callBytes (before ++ after) = callBytes before ++ callBytes after :=
  List.flatMap_append

/-- **Any number of calls** return if the position stays an `int`. -/
theorem exec_fits (device : ℕ → ℤ) (calls : List ChunkData)
    (hs : s.Fits ((callBytes calls).length + m)) (hpos : 0 < s.chunksize)
    (hchunk : s.chunksize < 2 ^ 63) :
    ∃ s', exec (SoundCard.step device) s calls = some s' ∧
      s.Takes device m (callBytes calls) s' := by
  induction calls generalizing s with
  | nil =>
    rw [callBytes, List.flatMap_nil, List.length_nil, Nat.zero_add] at hs
    exact ⟨s, rfl, .nil hs⟩
  | cons data calls ih =>
    have hcons : callBytes (data :: calls) = data.1 ++ callBytes calls := List.flatMap_cons
    rw [hcons, List.length_append, Nat.add_assoc] at hs
    obtain ⟨v, t, hcall, ht⟩ :=
      soundPlayLoop_returns device data.1.length (data.1.length + 2) hs hpos hchunk
        (by rw [SoundCard.roundsFor]; split_ifs <;> omega)
    have hstep : s.step device data = some t := by
      have h : soundPlayChunk device true s data.1 = .returns v t := hcall
      rw [SoundCard.step, h]
    obtain ⟨s', hrun, hs'⟩ :=
      ih ht.fits (ht.chunksize_eq.symm ▸ hpos) (ht.chunksize_eq.symm ▸ hchunk)
    exact ⟨s', exec_cons_eq_some.mpr ⟨t, hstep, hrun⟩, hcons ▸ ht.trans hs'⟩

/-! ## Beyond an `int` -/

theorem toInt_ofInt_wrapped (h : 2 ^ 31 ≤ n) (hn : n < 2 ^ 32) :
    (Int32.ofInt n).toInt = n - 2 ^ 32 := by
  rw [Int32.toInt_ofInt, Int.bmod_def]
  simp only [Int32.size]
  omega

/-- A number of bytes that is no `int` is larger than the data when it has become a `size_t`. -/
theorem memcpy_eq_none_of_size (hn : 2 ^ 31 ≤ n) (hdata : data.length < 2 ^ 32)
    (hle : n ≤ data.length) : s.memcpy data (Int32.ofInt n) = none := by
  rw [SoundCard.memcpy]
  refine if_neg fun h => ?_
  have hsize := h.2.2
  rw [toInt_ofInt_wrapped hn (by omega), toSize] at hsize
  omega

/-- A position that is negative is not in the buffer. -/
theorem memcpy_eq_none_of_pos {b : Int32} (hb : s.buffer_pos = b) (h : b.toInt < 0)
    (write_size : Int32) : s.memcpy data write_size = none := by
  rw [SoundCard.memcpy, hb]
  exact if_neg fun hbounds => hbounds.1.not_gt h

/-- **A position that is no `int`**: the call goes out of bounds, or it returns with a position in
front of the buffer. -/
theorem step_of_overflow {data : ChunkData} (hp : s.buffer_pos.toInt = p) (hle : p ≤ s.chunksize)
    (hchunk : s.chunksize < 2 ^ 63) (hlong : 2 ^ 31 ≤ s.chunksize) (hint : p < 2 ^ 31)
    (hdata : 2 ^ 31 ≤ p + data.1.length) (hs' : s.step device data = some s') :
    s'.played = s.played ∧ s'.held = [] := by
  obtain ⟨data, hbound⟩ := data
  replace hdata : 2 ^ 31 ≤ p + data.length := hdata
  obtain ⟨n, hn⟩ : ∃ n, n = min data.length (s.chunksize - p) := ⟨_, rfl⟩
  have hne : data ≠ [] := by
    rintro rfl
    exact absurd hdata (by simpa using hint)
  have hwrite : s.writeSize data.length = Int32.ofInt n := by rw [writeSize_eq hp hle hchunk, ← hn]
  have hloop : soundPlayLoop device data.length (data.length + 2) s data =
      match s.memcpy data (Int32.ofInt n) with
      | none => .outOfBounds
      | some t =>
        let rest := data.drop (toSize (Int32.ofInt n).toInt)
        let t := { t with buffer_pos := t.buffer_pos + Int32.ofInt n }
        if t.buffer_pos.toInt = t.chunksize then
          let u := t.writei (device t.writes)
          if device t.writes ≠ u.chunksize then .returns (device t.writes) u
          else soundPlayLoop device data.length (data.length + 1) { u with buffer_pos := 0 } rest
        else soundPlayLoop device data.length (data.length + 1) t rest := by
    rw [soundPlayLoop, if_neg hne, ← hwrite]
  simp only [SoundCard.step, soundPlayChunk, Bool.not_true, Bool.false_eq_true, if_false,
    hloop] at hs'
  by_cases hbig : 2 ^ 31 ≤ n
  · -- the number of bytes is negative, and as a `size_t` larger than the data
    rw [memcpy_eq_none_of_size hbig hbound (by omega)] at hs'
    cases hs'
  · -- the bytes are copied, and the position becomes negative
    have hadd : s.buffer_pos + Int32.ofInt n = Int32.ofInt (p + n : ℕ) := by
      rw [Nat.cast_add, Int32.ofInt_add, ← hp, Int32.ofInt_toInt]
    have hend : (Int32.ofInt (p + n : ℕ)).toInt = (p + n : ℕ) - 2 ^ 32 :=
      toInt_ofInt_wrapped (by omega) (by omega)
    rw [memcpy_eq hp (by omega) (by omega) (by omega)] at hs'
    simp only [hadd, hend] at hs'
    rw [if_neg (by omega)] at hs'
    rw [soundPlayLoop] at hs'
    split_ifs at hs' with hrest
    · obtain rfl := Option.some.inj hs'
      refine ⟨rfl, ?_⟩
      rw [SoundCard.held, hend, Int.toNat_of_nonpos (by omega), List.take_zero]
    · have hnone (write_size : Int32) (rest : List UInt8) : SoundCard.memcpy { s with
          audio_buffer := overwrite s.audio_buffer p (data.take n),
          buffer_pos := Int32.ofInt (p + n : ℕ) } rest write_size = none := by
        refine memcpy_eq_none_of_pos (b := Int32.ofInt (p + n : ℕ)) rfl ?_ write_size
        rw [hend]
        omega
      simp only [hnone] at hs'
      cases hs'

/-! ## When the stream is kept -/

theorem fits_card (h : buffer.card.chunksize < 2 ^ 31 ∨ m < 2 ^ 31) : buffer.card.Fits m :=
  ⟨0, Int32.toInt_zero, Nat.zero_le _, h.imp_right fun hm => (Nat.zero_add m).symm ▸ hm⟩

theorem held_card (buffer : AudioBuffer) : buffer.card.held = [] := by
  rw [held_eq (p := 0) Int32.toInt_zero, List.take_zero]

theorem chunksize_card_pos (buffer : AudioBuffer) : 0 < buffer.card.chunksize :=
  List.length_pos_iff.mpr buffer.2.1

/-- The call with which the data reaches a length. -/
theorem exists_call_reaching (hm : 0 < m) (hcalls : m ≤ (callBytes calls).length) :
    ∃ before data after, calls = before ++ data :: after ∧ (callBytes before).length < m ∧
      m ≤ (callBytes before).length + data.1.length := by
  induction calls generalizing m with
  | nil => exact absurd hcalls hm.not_ge
  | cons data calls ih =>
    by_cases hdata : m ≤ data.1.length
    · exact ⟨[], data, calls, rfl, hm, by simpa [callBytes] using hdata⟩
    · have hcons (l : List ChunkData) :
          (callBytes (data :: l)).length = data.1.length + (callBytes l).length := by
        rw [callBytes, List.flatMap_cons, List.length_append]
        rfl
      rw [hcons] at hcalls
      obtain ⟨before, next, after, rfl, hbefore, hreach⟩ :=
        ih (m := m - data.1.length) (by omega) (by omega)
      refine ⟨data :: before, next, after, rfl, ?_, ?_⟩ <;> rw [hcons] <;> omega

/-- With a chunk and data that are longer than an `int` counts, bytes are lost at least. -/
theorem not_rechunks_of_long (buffer : AudioBuffer) (calls : List ChunkData)
    (hlong : 2 ^ 31 ≤ buffer.card.chunksize)
    (hcalls : 2 ^ 31 ≤ (callBytes calls).length) : ¬ Rechunks buffer calls := by
  rintro ⟨hfull, -⟩
  obtain ⟨before, data, after, rfl, hbefore, hreach⟩ :=
    exists_call_reaching (by omega) hcalls
  obtain ⟨s, hs, hchunk, ⟨p, hp, hle, -⟩, hplayed, hstream⟩ := exec_fits (m := 0)
    (fun _ => buffer.card.chunksize) before (fits_card (.inr hbefore)) (chunksize_card_pos buffer)
    buffer.2.2
  obtain ⟨hbytes, -⟩ := hstream (fun _ => rfl) (held_card buffer ▸ chunksize_card_pos buffer)
  have hheld : p = (callBytes before).length := by
    rw [hplayed hlong, held_card] at hbytes
    rw [← length_held hp hle]
    exact congrArg List.length hbytes
  obtain ⟨t, ht, htbytes, -⟩ := hfull _ (fun _ => rfl) (before ++ [data]) after
    (List.append_cons before data after)
  obtain ⟨s₁, hs₁, hrun⟩ := exec_append_eq_some.mp ht
  obtain rfl := Option.some.inj (hs.symm.trans hs₁)
  obtain ⟨t₁, hstep, hend⟩ := exec_cons_eq_some.mp hrun
  obtain rfl := Option.some.inj hend
  obtain ⟨htplayed, htheld⟩ := step_of_overflow hp hle (hchunk.symm ▸ buffer.2.2)
    (hchunk.symm ▸ hlong) (hheld ▸ hbefore) (hheld ▸ hreach) hstep
  -- nothing has been played, and nothing waits
  rw [htplayed, htheld, hplayed hlong] at htbytes
  have hdata : (callBytes [data]).length = data.1.length := by simp [callBytes]
  have hlength : 0 = (callBytes before).length + data.1.length := by
    rw [← hdata, ← List.length_append, ← callBytes_append]
    exact congrArg List.length htbytes
  omega

/-- **When no byte is lost and none is written outside of the buffer**: if the size of a chunk is an
`int`, or if not even a chunk of that size comes together. -/
theorem rechunks_iff (buffer : AudioBuffer) (calls : List ChunkData) : Rechunks buffer calls ↔
    buffer.1.length < 2 ^ 31 ∨ (callBytes calls).length < 2 ^ 31 := by
  constructor
  · intro h
    by_contra hnot
    rw [not_or, not_lt, not_lt] at hnot
    exact not_rechunks_of_long buffer calls hnot.1 hnot.2 h
  · intro h
    refine ⟨fun device hdevice before after hcalls => ?_, fun device => ?_⟩
    · have hbefore : buffer.card.chunksize < 2 ^ 31 ∨ (callBytes before).length + 0 < 2 ^ 31 := by
        refine h.imp_right fun hlength => lt_of_le_of_lt ?_ hlength
        rw [hcalls, callBytes_append, List.length_append]
        exact Nat.le_add_right _ _
      obtain ⟨s, hs, htakes⟩ := exec_fits device before (fits_card hbefore)
        (chunksize_card_pos buffer) buffer.2.2
      obtain ⟨hbytes, hless⟩ :=
        htakes.stream hdevice (held_card buffer ▸ chunksize_card_pos buffer)
      refine ⟨s, hs, ?_, hless⟩
      rw [hbytes, held_card]
      rfl
    · obtain ⟨s, hs, -⟩ := exec_fits (m := 0) device calls (fits_card h)
        (chunksize_card_pos buffer) buffer.2.2
      exact ⟨s, hs⟩

/-- A chunk of two gigabytes, and a call with as much data. -/
theorem not_rechunks_two_gigabytes : ¬ ∀ buffer calls, Rechunks buffer calls := by
  intro h
  have hlength : (List.replicate (2 ^ 31) (0 : UInt8)).length = 2 ^ 31 := List.length_replicate
  let buffer : AudioBuffer :=
    ⟨List.replicate (2 ^ 31) 0, List.length_pos_iff.mp (by rw [hlength]; omega),
      by rw [hlength]; omega⟩
  let data : ChunkData := ⟨List.replicate (2 ^ 31) 0, by rw [hlength]; omega⟩
  refine not_rechunks_of_long buffer [data] hlength.ge ?_ (h _ _)
  rw [callBytes, List.flatMap_singleton]
  exact hlength.ge

end Peep
