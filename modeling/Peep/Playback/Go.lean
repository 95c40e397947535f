import Peep.Playback

/-!
# Playing a recording

`playbackGo` (`playback.c`) plays a recording from a start time on, or from its oldest event. It
looks for the file positions where it begins and ends (`playbackFindFirstOffset` finds the oldest
record after the current one, `playbackFindTime` the first record of a time or later) and then reads
records and enqueues them until the position is one of the two.

At the end of the file the loop has to go back behind the header. It takes a read that failed with
`errno == EINTR` for the end of the file; every other failure is reported and then ignored, and
what is enqueued is the record of the read before. `fread` does not set `errno` at the end of the
file.

## Choices

The file is a header and whole records. A start or end time is what `mktime` makes of it, in
seconds. What the code reads without having written it (`end_pos` when there is no end time, records
before the first read, `errno`) is given by an environment. `engineEnqueue` takes an `EVENT`; what
is enqueued of a record is named by the record. Waiting for the time of an event and the shutdown at
the end are left out.

The two searches are bounded by the size of the file: a search that goes on for longer has missed
the position where it began, and never ends. The loop of `playbackGo` is bounded by `fuel`.

## Main results

* `playbackFindFirstOffset_smaller`, `playbackFindFirstOffset_none` — the first search
* `playbackFindTime_ahead`, `playbackFindTime_wrapped`, `playbackFindTime_none` — the second
* `playLoop_segment` — a part of the file is played to its end
* `playLoop_endless` — a loop that comes to the end of the file does not end
-/

namespace Peep

open Layout Stdio

/-! ## Reading records -/

/-- `TP_IN_FP_SECS` of the time of a record. -/
def recTime (r : PlaybackRec) : ℚ :=
  Timeval.inFpSecs ⟨r.mixTime.tvSec.toInt, r.mixTime.tvUsec.toInt⟩

/-- The result of reading a record. -/
structure ReadRec where
  /-- What `fread` returns. -/
  count : ℕ
  /-- The record in memory. -/
  record : PlaybackRec
  /-- The stream. -/
  stream : Stream

/-- `fread (&rec, sizeof (playback_t), 1, stream)`, with what was in `rec` before. -/
def freadRec (s : Stream) (old : PlaybackRec) : ReadRec where
  count := if (fread s PLAYBACK_T_SIZE).1.length = PLAYBACK_T_SIZE then 1 else 0
  record := recCodec.decode ((fread s PLAYBACK_T_SIZE).1 ++
    (recCodec.encode old).drop (fread s PLAYBACK_T_SIZE).1.length)
  stream := (fread s PLAYBACK_T_SIZE).2

/-! ## The searches -/

/-- A position that was found, and the stream. -/
structure Found where
  /-- The result. -/
  pos : ℕ
  /-- The stream. -/
  stream : Stream

/-- The loop of `playbackFindFirstOffset`. -/
def findFirstLoop (initialPos : ℕ) (prev : PlaybackRec) :
    ℕ → PlaybackRec → Stream → Option Found
  | 0, _, _ => none
  | fuel + 1, cur, s =>
    if s.eof then some ⟨initialPos, s⟩
    else
      let read := freadRec s cur
      if recTime read.record < recTime prev then
        some ⟨read.stream.pos - PLAYBACK_T_SIZE, read.stream⟩
      else findFirstLoop initialPos prev fuel read.record read.stream

/-- `playbackFindFirstOffset`; `cur` and `prev` are not initialized. -/
def playbackFindFirstOffset (s : Stream) (cur prev : PlaybackRec) : Option Found :=
  let read := freadRec s prev
  findFirstLoop s.pos read.record (s.contents.length + 2) cur read.stream

/-- The loop of `playbackFindTime`. -/
def findTimeLoop (t : Timeval) (startPos : ℕ) : ℕ → PlaybackRec → Stream → Option Found
  | 0, _, _ => none
  | fuel + 1, record, s =>
    let read := freadRec s record
    if t.inFpSecs ≤ recTime read.record then
      some ⟨read.stream.pos - PLAYBACK_T_SIZE, read.stream⟩
    else
      let s := if read.stream.eof then fseek read.stream PLAYBACK_H_SIZE else read.stream
      if s.pos ≠ startPos then findTimeLoop t startPos fuel read.record s else some ⟨0, s⟩

/-- `playbackFindTime`; `rec` is not initialized. -/
def playbackFindTime (s : Stream) (t : Timeval) (startPos : ℕ) (record : PlaybackRec) :
    Option Found :=
  findTimeLoop t startPos (s.contents.length + 2) record (fseek s startPos)

/-! ## `playbackGo` -/

/-- What `playbackGo` finds in variables that it has not written. -/
structure Env where
  /-- `errno` after the reads of the loop. -/
  errno : ℕ → ℕ
  /-- `end_pos`. -/
  endPos : ℤ
  /-- The records of the functions. -/
  memory : ℕ → PlaybackRec

/-- `EINTR`. -/
def EINTR : ℕ := 4

/-- The loop of `playbackGo`: the records that are enqueued. -/
def playLoop (startPos endPos : ℤ) :
    ℕ → (ℕ → ℕ) → PlaybackRec → Stream → Option (List PlaybackRec)
  | 0, _, _, _ => none
  | fuel + 1, errno, record, s =>
    let read := freadRec s record
    if read.count = 0 ∧ errno 0 = EINTR then
      -- `continue` goes to the condition of the loop
      let s := fseek read.stream PLAYBACK_H_SIZE
      if (s.pos : ℤ) ≠ endPos ∧ (s.pos : ℤ) ≠ startPos then
        playLoop startPos endPos fuel (fun n => errno (n + 1)) read.record s
      else some []
    else if (read.stream.pos : ℤ) ≠ endPos ∧ (read.stream.pos : ℤ) ≠ startPos then
      (playLoop startPos endPos fuel (fun n => errno (n + 1)) read.record read.stream).map
        (read.record :: ·)
    else some [read.record]

/-- The positions between which a recording is played, and the stream. -/
structure Bounds where
  /-- `start_pos`. -/
  startPos : ℕ
  /-- `end_pos`. -/
  endPos : ℤ
  /-- The stream. -/
  stream : Stream

/-- `playbackGo` with a start time, up to the search for the end: `start_pos`, and the position that
`header.start_pos` is set to. -/
def findStart (env : Env) (s : Stream) (start : ℤ) : Option (Found × ℕ) :=
  (playbackFindFirstOffset s (env.memory 0) (env.memory 1)).bind fun first =>
    (playbackFindTime first.stream ⟨start, 0⟩ first.pos (env.memory 2)).bind fun found =>
      some (⟨if found.pos = 0 then PLAYBACK_H_SIZE else found.pos, found.stream⟩, first.pos)

/-- `end_pos`, if there are a start and an end time. -/
def findEnd (env : Env) (s : Stream) (startPos headerStartPos : ℕ) (stop : ℤ) :
    Option (ℤ × Stream) :=
  (playbackFindFirstOffset s (env.memory 3) (env.memory 4)).bind fun first =>
    (playbackFindTime first.stream ⟨stop, 0⟩ first.pos (env.memory 5)).bind fun found =>
      some (if found.pos = 0 then
          if headerStartPos = PLAYBACK_H_SIZE then (PLAYBACK_H_SIZE : ℤ)
          else (startPos : ℤ) - PLAYBACK_T_SIZE
        else (found.pos : ℤ), found.stream)

/-- `playbackGo` up to its loop, without the start of the file. -/
def findBounds (env : Env) (header : PlaybackHeader) (s : Stream) (start? stop? : Option ℤ) :
    Option Bounds :=
  match start? with
  | some start =>
    (findStart env s start).bind fun found =>
      match stop? with
      | some stop => (findEnd env found.1.stream found.1.pos found.2 stop).bind fun last =>
          some ⟨found.1.pos, last.1, fseek last.2 found.1.pos⟩
      | none => some ⟨found.1.pos, env.endPos, fseek found.1.stream found.1.pos⟩
  | none =>
    if Timeval.inFpSecs ⟨header.endT.tvSec.toInt, header.endT.tvUsec.toInt⟩ ≠ 0 then
      some ⟨header.startPos.toInt.toNat, 0, fseek s header.startPos.toInt.toNat⟩
    else
      (playbackFindFirstOffset s (env.memory 0) (env.memory 1)).bind fun first =>
        some ⟨first.pos, 0, fseek first.stream first.pos⟩

/-- `playbackFileInit` in `PLAY_MODE` and `playbackGo`: the records that are enqueued, if the loop
ends after at most `fuel` iterations. -/
def playbackGo (env : Env) (fuel : ℕ) (file : List UInt8) (start? stop? : Option ℤ) :
    Option (List PlaybackRec) :=
  let read := fread ⟨file, 0, false⟩ PLAYBACK_H_SIZE
  (findBounds env (headerCodec.decode read.1) read.2 start? stop?).bind fun bounds =>
    -- the first record is read for its time, and then again
    let first := freadRec bounds.stream (env.memory 6)
    playLoop bounds.startPos bounds.endPos fuel env.errno first.record
      (fseek first.stream (first.stream.pos - PLAYBACK_T_SIZE))

variable {header : PlaybackHeader} {records : List PlaybackRec} {i j k : ℕ} {t : Timeval}
  {old prev cur : PlaybackRec} {s : Stream}

/-! ## Positions -/

/-- The position of a record in the file. -/
def offset (i : ℕ) : ℕ := PLAYBACK_H_SIZE + i * PLAYBACK_T_SIZE

theorem offset_zero : offset 0 = PLAYBACK_H_SIZE := by simp [offset]

theorem offset_succ_sub (i : ℕ) : offset (i + 1) - PLAYBACK_T_SIZE = offset i := by
  rw [offset, offset, Nat.succ_mul, ← Nat.add_assoc, Nat.add_sub_cancel]

theorem offset_inj : offset i = offset j ↔ i = j := by
  rw [offset, offset, PLAYBACK_T_SIZE]
  omega

theorem offset_ne_zero (i : ℕ) : offset i ≠ 0 := by
  rw [offset, PLAYBACK_H_SIZE]
  omega

/-- The file with that header and those records. -/
def playFile (header : PlaybackHeader) (records : List PlaybackRec) : List UInt8 :=
  headerCodec.encode header ++ blocks recCodec records

/-- The file at the position of a record. -/
def playStream (header : PlaybackHeader) (records : List PlaybackRec) (i : ℕ) : Stream where
  contents := playFile header records
  pos := offset i
  eof := false

/-- The file after a read at its end. -/
def endStream (header : PlaybackHeader) (records : List PlaybackRec) : Stream where
  contents := playFile header records
  pos := offset records.length
  eof := true

theorem fseek_offset (hs : s.contents = playFile header records) (j : ℕ) :
    fseek s (offset j) = playStream header records j := by
  rw [fseek, hs]
  rfl

theorem length_playFile (header : PlaybackHeader) (records : List PlaybackRec) :
    records.length ≤ (playFile header records).length := by
  rw [playFile, List.length_append, length_blocks, PLAYBACK_T_SIZE]
  omega

/-- **Reading a record.** -/
theorem freadRec_record (hi : i < records.length) :
    freadRec (playStream header records i) old
      = ⟨1, records[i], playStream header records (i + 1)⟩ := by
  have hlength := headerCodec.length_encode header
  have hread := fread_block (s := playStream header records i) (c := recCodec) rfl
    (by rw [hlength]; rfl) hi
  rw [freadRec, hread, recCodec.length_encode, if_pos rfl,
    List.drop_eq_nil_of_le (recCodec.length_encode old).le, List.append_nil,
    recCodec.decode_encode, hlength]
  rfl

/-- **Reading at the end of the file** leaves the record as it was. -/
theorem freadRec_end : freadRec (playStream header records records.length) old
    = ⟨0, old, endStream header records⟩ := by
  have hread := fread_end (s := playStream header records records.length) (c := recCodec)
    (by decide) rfl (by rw [headerCodec.length_encode]; rfl)
  rw [freadRec, hread, List.length_nil, if_neg (by decide), List.nil_append, List.drop_zero,
    recCodec.decode_encode]
  rfl

/-! ## The first search -/

/-- The loop goes on over the records that are not earlier than the first. -/
theorem findFirstLoop_forward (header : PlaybackHeader) (initialPos fuel : ℕ)
    (prev cur : PlaybackRec) (hij : i ≤ j) (hj : j ≤ records.length)
    (hnot : ∀ k (hk : k < records.length), i ≤ k → k < j → ¬ recTime records[k] < recTime prev) :
    ∃ cur', (i < j → ¬ recTime cur' < recTime prev) ∧
      findFirstLoop initialPos prev (fuel + (j - i)) cur (playStream header records i)
        = findFirstLoop initialPos prev fuel cur' (playStream header records j) := by
  induction j, hij using Nat.le_induction generalizing fuel with
  | base => exact ⟨cur, fun h => absurd h (lt_irrefl i), by rw [Nat.sub_self, Nat.add_zero]⟩
  | succ j hij ih =>
    have hlt : j < records.length := hj
    obtain ⟨cur', -, hloop⟩ := ih (fuel + 1) hlt.le fun k hk hik hkj => hnot k hk hik (by omega)
    refine ⟨records[j], fun _ => hnot j hlt hij (Nat.lt_succ_self j), ?_⟩
    have hfuel : fuel + (j + 1 - i) = fuel + 1 + (j - i) := by omega
    rw [hfuel, hloop, findFirstLoop, if_neg (by simp [playStream]), freadRec_record hlt]
    exact if_neg (hnot j hlt hij (Nat.lt_succ_self j))

/-- Searching from a record on begins with reading it, and there is fuel for the rest of the file
and two more reads. -/
theorem playbackFindFirstOffset_record (header : PlaybackHeader) (cur prev : PlaybackRec)
    (hi : i < records.length) (hij : i < j) (hj : j ≤ records.length)
    (hnot : ∀ k (hk : k < records.length), i < k → k < j →
      ¬ recTime records[k] < recTime records[i]) :
    ∃ fuel cur', (i + 1 < j → ¬ recTime cur' < recTime records[i]) ∧
      playbackFindFirstOffset (playStream header records i) cur prev
        = findFirstLoop (offset i) records[i] (fuel + 2) cur' (playStream header records j) := by
  have hlength := length_playFile header records
  obtain ⟨fuel, hfuel⟩ := Nat.exists_eq_add_of_le'
    (show 2 + (j - (i + 1)) ≤ (playFile header records).length + 2 by omega)
  obtain ⟨cur', hcur, hloop⟩ := findFirstLoop_forward header (offset i) (fuel + 2) records[i] cur
    (show i + 1 ≤ j from hij) hj fun k hk hik => hnot k hk (by omega)
  refine ⟨fuel, cur', hcur, ?_⟩
  have hcontents : (playStream header records i).contents = playFile header records := rfl
  rw [playbackFindFirstOffset, freadRec_record hi, hcontents, hfuel, ← Nat.add_assoc]
  exact hloop

/-- **The first search finds** the first record that is earlier than the current one. -/
theorem playbackFindFirstOffset_smaller (header : PlaybackHeader) (cur prev : PlaybackRec)
    (hij : i < j) (hj : j < records.length)
    (hnot : ∀ k (hk : k < records.length), i < k → k < j →
      ¬ recTime records[k] < recTime records[i])
    (hlt : recTime records[j] < recTime records[i]) :
    playbackFindFirstOffset (playStream header records i) cur prev
      = some ⟨offset j, playStream header records (j + 1)⟩ := by
  obtain ⟨fuel, cur', -, hloop⟩ :=
    playbackFindFirstOffset_record header cur prev (hij.trans hj) hij hj.le hnot
  have hpos : (playStream header records (j + 1)).pos - PLAYBACK_T_SIZE = offset j :=
    offset_succ_sub j
  rw [hloop, findFirstLoop, if_neg (by simp [playStream]), freadRec_record hj, if_pos hlt, hpos]

/-- **The first search stays** at the current record if none behind it is earlier. -/
theorem playbackFindFirstOffset_none (header : PlaybackHeader) (cur prev : PlaybackRec)
    (hi : i < records.length)
    (hnot : ∀ k (hk : k < records.length), i < k → ¬ recTime records[k] < recTime records[i]) :
    ∃ s, playbackFindFirstOffset (playStream header records i) cur prev = some ⟨offset i, s⟩ ∧
      s.contents = playFile header records := by
  obtain ⟨fuel, cur', hcur, hloop⟩ := playbackFindFirstOffset_record header cur prev hi hi le_rfl
    fun k hk hik _ => hnot k hk hik
  rw [hloop, findFirstLoop, if_neg (by simp [playStream]), freadRec_end]
  by_cases hlt : recTime cur' < recTime records[i]
  · -- nothing was read behind the last record, and what is in memory is found at its place
    have hlast : records.length = i + 1 := by
      by_contra hne
      exact hcur (by omega) hlt
    refine ⟨endStream header records, (if_pos hlt).trans ?_, rfl⟩
    have hpos : (endStream header records).pos - PLAYBACK_T_SIZE = offset i := by
      rw [endStream, hlast, offset_succ_sub]
    rw [hpos]
  · refine ⟨endStream header records, (if_neg hlt).trans ?_, rfl⟩
    rw [findFirstLoop]
    exact if_pos rfl

/-- At the end of the file the first search stays there. -/
theorem playbackFindFirstOffset_end (header : PlaybackHeader) (records : List PlaybackRec)
    (cur prev : PlaybackRec) :
    ∃ s, playbackFindFirstOffset (playStream header records records.length) cur prev
        = some ⟨offset records.length, s⟩ ∧
      s.contents = playFile header records := by
  refine ⟨endStream header records, ?_, rfl⟩
  rw [playbackFindFirstOffset, freadRec_end, findFirstLoop]
  exact if_pos rfl

/-! ## The second search -/

/-- The loop goes on over the records before the time. -/
theorem findTimeLoop_forward (header : PlaybackHeader) (f fuel : ℕ) (old : PlaybackRec)
    (hij : i ≤ j) (hj : j ≤ records.length)
    (hlt : ∀ k (hk : k < records.length), i ≤ k → k < j → recTime records[k] < t.inFpSecs)
    (hstart : ∀ k, i < k → k ≤ j → k ≠ f) :
    ∃ record, (i < j ∨ recTime old < t.inFpSecs → recTime record < t.inFpSecs) ∧
      findTimeLoop t (offset f) (fuel + (j - i)) old (playStream header records i)
        = findTimeLoop t (offset f) fuel record (playStream header records j) := by
  induction j, hij using Nat.le_induction generalizing fuel with
  | base => exact ⟨old, fun h => h.resolve_left (lt_irrefl i), by rw [Nat.sub_self, Nat.add_zero]⟩
  | succ j hij ih =>
    have hin : j < records.length := hj
    have hbefore : recTime records[j] < t.inFpSecs := hlt j hin hij (Nat.lt_succ_self j)
    obtain ⟨record, -, hloop⟩ := ih (fuel + 1) hin.le
      (fun k hk hik hkj => hlt k hk hik (by omega)) fun k hik hkj => hstart k hik (by omega)
    refine ⟨records[j], fun _ => hbefore, ?_⟩
    have hfuel : fuel + (j + 1 - i) = fuel + 1 + (j - i) := by omega
    have hpos : (playStream header records (j + 1)).pos ≠ offset f :=
      fun h => hstart (j + 1) (by omega) le_rfl (offset_inj.mp h)
    rw [hfuel, hloop, findTimeLoop, freadRec_record hin]
    simp only [if_neg (not_le.mpr hbefore)]
    exact if_pos hpos

/-- A record at or after the time is found. -/
theorem findTimeLoop_found (header : PlaybackHeader) (startPos fuel : ℕ) (old : PlaybackRec)
    (hj : j < records.length) (hfound : t.inFpSecs ≤ recTime records[j]) :
    findTimeLoop t startPos (fuel + 1) old (playStream header records j)
      = some ⟨offset j, playStream header records (j + 1)⟩ := by
  have hpos : (playStream header records (j + 1)).pos - PLAYBACK_T_SIZE = offset j :=
    offset_succ_sub j
  rw [findTimeLoop, freadRec_record hj]
  simp only [if_pos hfound, hpos]

/-- At the end of the file the search goes back behind the header, or ends there. -/
theorem findTimeLoop_end (header : PlaybackHeader) (records : List PlaybackRec) (f fuel : ℕ)
    (hold : recTime old < t.inFpSecs) :
    findTimeLoop t (offset f) (fuel + 1) old (playStream header records records.length)
      = if f ≠ 0 then findTimeLoop t (offset f) fuel old (playStream header records 0)
        else some ⟨0, playStream header records 0⟩ := by
  have hback : fseek (endStream header records) PLAYBACK_H_SIZE = playStream header records 0 := by
    rw [← offset_zero]
    exact fseek_offset rfl 0
  have heof : (endStream header records).eof = true := rfl
  rw [findTimeLoop, freadRec_end]
  simp only [if_neg (not_le.mpr hold), heof, if_true, hback]
  refine if_congr ?_ rfl rfl
  show offset 0 ≠ offset f ↔ f ≠ 0
  rw [ne_eq, offset_inj, ne_comm]

/-- The search begins at a record, with fuel for the whole file and two more reads. -/
theorem playbackFindTime_eq (hs : s.contents = playFile header records) (f : ℕ)
    (old : PlaybackRec) :
    playbackFindTime s t (offset f) old
      = findTimeLoop t (offset f) ((playFile header records).length + 2) old
          (playStream header records f) := by
  rw [playbackFindTime, hs, fseek_offset hs]

/-- **The second search finds** a record ahead of the position it begins at. -/
theorem playbackFindTime_ahead {f : ℕ} (hs : s.contents = playFile header records)
    (old : PlaybackRec) (hfj : f ≤ j) (hj : j < records.length)
    (hlt : ∀ k (hk : k < records.length), f ≤ k → k < j → recTime records[k] < t.inFpSecs)
    (hfound : t.inFpSecs ≤ recTime records[j]) :
    playbackFindTime s t (offset f) old
      = some ⟨offset j, playStream header records (j + 1)⟩ := by
  have hlength := length_playFile header records
  obtain ⟨fuel, hfuel⟩ := Nat.exists_eq_add_of_le'
    (show 1 + (j - f) ≤ (playFile header records).length + 2 by omega)
  obtain ⟨record, -, hloop⟩ := findTimeLoop_forward header f (fuel + 1) old hfj hj.le hlt
    fun k hk _ => by omega
  rw [playbackFindTime_eq hs, hfuel, ← Nat.add_assoc, hloop, findTimeLoop_found header _ _ _ hj
    hfound]

/-- The search comes to the end of the file and goes on behind the header. -/
theorem playbackFindTime_around {f : ℕ} (hs : s.contents = playFile header records)
    (old : PlaybackRec) (hf : f ≤ records.length) (hf0 : f ≠ 0)
    (hold : f = records.length → recTime old < t.inFpSecs)
    (hahead : ∀ k (hk : k < records.length), f ≤ k → recTime records[k] < t.inFpSecs) :
    ∃ fuel record, recTime record < t.inFpSecs ∧ playbackFindTime s t (offset f) old
      = findTimeLoop t (offset f) (fuel + f + 1) record (playStream header records 0) := by
  have hlength := length_playFile header records
  obtain ⟨fuel, hfuel⟩ := Nat.exists_eq_add_of_le'
    (show f + 2 + (records.length - f) ≤ (playFile header records).length + 2 by omega)
  obtain ⟨record, hrecord, hloop⟩ := findTimeLoop_forward header f (fuel + f + 2) old hf le_rfl
    (fun k hk hfk _ => hahead k hk hfk) fun k hk _ => by omega
  have hbefore : recTime record < t.inFpSecs := by
    rcases Nat.lt_or_ge f records.length with h | h
    · exact hrecord (.inl h)
    · exact hrecord (.inr (hold (by omega)))
  refine ⟨fuel, record, hbefore, ?_⟩
  have hsum : fuel + (f + 2 + (records.length - f)) = fuel + f + 2 + (records.length - f) := by
    omega
  rw [playbackFindTime_eq hs, hfuel, hsum, hloop, findTimeLoop_end header records f _ hbefore,
    if_pos hf0]

/-- **The second search finds** a record behind the header, once it has come around. -/
theorem playbackFindTime_wrapped {f : ℕ} (hs : s.contents = playFile header records)
    (old : PlaybackRec) (hf : f ≤ records.length)
    (hold : f = records.length → recTime old < t.inFpSecs)
    (hjf : j < f) (hj : j < records.length)
    (hahead : ∀ k (hk : k < records.length), f ≤ k → recTime records[k] < t.inFpSecs)
    (hlt : ∀ k (hk : k < records.length), k < j → recTime records[k] < t.inFpSecs)
    (hfound : t.inFpSecs ≤ recTime records[j]) :
    playbackFindTime s t (offset f) old
      = some ⟨offset j, playStream header records (j + 1)⟩ := by
  obtain ⟨fuel, record, hrecord, hsearch⟩ :=
    playbackFindTime_around hs old hf (by omega) hold hahead
  obtain ⟨record', -, hloop⟩ := findTimeLoop_forward header f (fuel + (f - j) + 1) record
    (Nat.zero_le j) hj.le (fun k hk _ => hlt k hk) fun k _ hk => by omega
  have hsum : fuel + f + 1 = fuel + (f - j) + 1 + (j - 0) := by omega
  rw [hsearch, hsum, hloop, findTimeLoop_found header _ _ _ hj hfound]

/-- **The second search fails** if all records are before the time. -/
theorem playbackFindTime_none {f : ℕ} (hs : s.contents = playFile header records)
    (old : PlaybackRec) (hf : f ≤ records.length)
    (hold : f = records.length → recTime old < t.inFpSecs)
    (hall : ∀ k (hk : k < records.length), recTime records[k] < t.inFpSecs) :
    playbackFindTime s t (offset f) old = some ⟨0, playStream header records f⟩ := by
  rcases Nat.eq_zero_or_pos f with rfl | hpos
  · have hlength := length_playFile header records
    obtain ⟨fuel, hfuel⟩ := Nat.exists_eq_add_of_le'
      (show 1 + (records.length - 0) ≤ (playFile header records).length + 2 by omega)
    obtain ⟨record, hrecord, hloop⟩ := findTimeLoop_forward header 0 (fuel + 1) old
      (Nat.zero_le _) le_rfl (fun k hk _ _ => hall k hk) fun k hk _ => by omega
    have hbefore : recTime record < t.inFpSecs := by
      rcases Nat.eq_zero_or_pos records.length with h | h
      · exact hrecord (.inr (hold h.symm))
      · exact hrecord (.inl h)
    rw [playbackFindTime_eq hs, hfuel, ← Nat.add_assoc, hloop,
      findTimeLoop_end header records 0 _ hbefore, if_neg (not_not.mpr rfl)]
  · obtain ⟨fuel, record, hrecord, hsearch⟩ :=
      playbackFindTime_around hs old hf hpos.ne' hold fun k hk _ => hall k hk
    -- the last record that is read is the one before the beginning
    obtain ⟨last, rfl⟩ : ∃ last, f = last + 1 := ⟨f - 1, by omega⟩
    have hlast : last < records.length := hf
    obtain ⟨record', -, hloop⟩ := findTimeLoop_forward header (last + 1) (fuel + 2) record
      (Nat.zero_le last) hlast.le (fun k hk _ _ => hall k hk) fun k _ hk => by omega
    have hsum : fuel + (last + 1) + 1 = fuel + 2 + (last - 0) := by omega
    rw [hsearch, hsum, hloop, findTimeLoop, freadRec_record hlast]
    simp only [if_neg (not_le.mpr (hall last hlast))]
    exact if_neg (not_not.mpr rfl)

/-! ## The loop -/

/-- **A part of the file is played to its end**, if the loop comes to the end position before it
comes to the end of the file. -/
theorem playLoop_segment (header : PlaybackHeader) {p n : ℕ} (errno : ℕ → ℕ) (old : PlaybackRec)
    (hp : p ≤ i) (hn : i + (n + 1) ≤ records.length) :
    playLoop (offset p) (offset (i + (n + 1))) (n + 1) errno old (playStream header records i)
      = some ((records.drop i).take (n + 1)) := by
  induction n generalizing i errno old with
  | zero =>
    have hi : i < records.length := hn
    rw [playLoop, freadRec_record hi]
    show (if 1 = 0 ∧ errno 0 = EINTR then _ else _) = _
    rw [if_neg (fun h => absurd h.1 one_ne_zero), List.drop_eq_getElem_cons hi]
    exact if_neg fun h => h.1 rfl
  | succ n ih =>
    have hi : i < records.length := by omega
    have hend : i + (n + 1 + 1) = i + 1 + (n + 1) := by omega
    have hnext : ((playStream header records (i + 1)).pos : ℤ) ≠ offset (i + (n + 1 + 1)) ∧
        ((playStream header records (i + 1)).pos : ℤ) ≠ offset p :=
      ⟨fun h => by have := offset_inj.mp (Int.ofNat_inj.mp h); omega,
        fun h => by have := offset_inj.mp (Int.ofNat_inj.mp h); omega⟩
    rw [playLoop, freadRec_record hi]
    show (if 1 = 0 ∧ errno 0 = EINTR then _ else _) = _
    rw [if_neg (fun h => absurd h.1 one_ne_zero), List.drop_eq_getElem_cons hi]
    refine (if_pos hnext).trans ?_
    rw [hend, ih (fun n => errno (n + 1)) records[i] (by omega) (by omega)]
    rfl

/-- The end of the file is no record, whether it has been reached before or not. -/
theorem freadRec_endStream : freadRec (endStream header records) old
    = ⟨0, old, endStream header records⟩ := by
  have hread := fread_end (s := endStream header records) (c := recCodec)
    (by decide) rfl (by rw [headerCodec.length_encode]; rfl)
  rw [freadRec, hread, List.length_nil, if_neg (by decide), List.nil_append, List.drop_zero,
    recCodec.decode_encode]
  rfl

variable {startPos endPos : ℤ} {errno : ℕ → ℕ}

/-- **At the end of the file the loop stays there** unless `errno` is `EINTR`. -/
theorem playLoop_end (herrno : ∀ n, errno n ≠ EINTR)
    (hs : s = playStream header records records.length ∨ s = endStream header records)
    (hpos : (offset records.length : ℤ) ≠ endPos ∧ (offset records.length : ℤ) ≠ startPos)
    (fuel : ℕ) : playLoop startPos endPos fuel errno old s = none := by
  induction fuel generalizing errno old s with
  | zero => rfl
  | succ fuel ih =>
    have hread : freadRec s old = ⟨0, old, endStream header records⟩ := by
      rcases hs with rfl | rfl
      · exact freadRec_end
      · exact freadRec_endStream
    rw [playLoop, hread]
    refine (if_neg fun h => herrno 0 h.2).trans ((if_pos hpos).trans ?_)
    show Option.map _ (playLoop startPos endPos fuel _ old (endStream header records)) = _
    rw [ih (fun n => herrno (n + 1)) (.inr rfl)]
    rfl

/-- **A loop that comes to the end of the file does not end** unless `errno` is `EINTR`. -/
theorem playLoop_endless (herrno : ∀ n, errno n ≠ EINTR) (hi : i < records.length)
    (hpos : ∀ k, i < k → k ≤ records.length →
      (offset k : ℤ) ≠ endPos ∧ (offset k : ℤ) ≠ startPos) (fuel : ℕ) :
    playLoop startPos endPos fuel errno old (playStream header records i) = none := by
  induction fuel generalizing errno old i with
  | zero => rfl
  | succ fuel ih =>
    rw [playLoop, freadRec_record hi]
    show (if 1 = 0 ∧ errno 0 = EINTR then _ else _) = _
    rw [if_neg fun h => absurd h.1 one_ne_zero]
    refine (if_pos (hpos (i + 1) (Nat.lt_succ_self i) hi)).trans ?_
    show Option.map _ (playLoop startPos endPos fuel _ _ (playStream header records (i + 1))) = _
    have hrest : playLoop startPos endPos fuel (fun n => errno (n + 1)) records[i]
        (playStream header records (i + 1)) = none := by
      rcases (Nat.succ_le_of_lt hi).lt_or_eq with hlt | heq
      · exact ih (fun n => herrno (n + 1)) hlt fun k hk => hpos k (by omega)
      · have hend := hpos (i + 1) (Nat.lt_succ_self i) hi
        rw [show i + 1 = records.length from heq] at hend ⊢
        exact playLoop_end (fun n => herrno (n + 1)) (.inl rfl) hend fuel
    rw [hrest]
    rfl

/-- The first iteration enqueues a record unless `errno` is `EINTR`. -/
theorem playLoop_ne_nil (herrno : ∀ n, errno n ≠ EINTR) (fuel : ℕ) :
    playLoop startPos endPos fuel errno old s ≠ some [] := by
  cases fuel with
  | zero => exact nofun
  | succ fuel =>
    rw [playLoop]
    simp only [herrno 0, and_false, if_false]
    split
    · rw [ne_eq, Option.map_eq_some_iff]
      rintro ⟨rest, -, hcons⟩
      exact absurd hcons (List.cons_ne_nil _ _)
    · exact nofun

end Peep
