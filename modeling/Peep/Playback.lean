import Peep.Event
import Peep.Library.Stdio
import Mathlib.Data.List.Induction
import Mathlib.Data.List.Rotate

/-!
# Recording events

A server that records writes every event to a file before it plays it (`playback.c`). The file is a
header and then a ring of at most `MAX_PLAYBACK_EVENTS` records, which are written as they lie in
memory: an `ENGINE_EVENT` with the time of the recording. When the ring is full, the position goes
back behind the header, and the oldest records are overwritten. At shutdown the header is written
again, with the offset of the oldest record.

* The counter of events that is compared with the size of the ring is never reset, so the position
  goes back once and never again.
* What is written of the name of a sound is its address.

## Choices

The layout is that of a 64-bit little-endian machine. A `long` and a `time_t` have eight bytes, and
the padding of the header is zero. All calls of `stdio` succeed, and the counter of events does not
overflow: the file would be larger than any file can be. Time is given with each event.

## Main results

* `recorded_contents` — what the file contains after any number of events
* `boundedRing_iff` — the recordings that are a ring of the last events
* `not_roundTrips` — the name of a sound is not in the file
-/

namespace Peep

open Layout Stdio

/-! ## Layouts -/

/-- A `struct timeval` as it lies in memory. -/
structure TimevalImage where
  /-- `tv_sec`. -/
  tvSec : Int64
  /-- `tv_usec`. -/
  tvUsec : Int64
  deriving DecidableEq

/-- An `EVENT` as it lies in memory. -/
structure EventImage where
  /-- `type`. -/
  type : UInt8
  /-- `loc`. -/
  loc : UInt8
  /-- `prior`. -/
  prior : UInt8
  /-- `vol`. -/
  vol : UInt8
  /-- `dither`. -/
  dither : UInt8
  /-- `reserved`. -/
  reserved : UInt8 × UInt8 × UInt8
  /-- `flags`. -/
  flags : Int32
  /-- `sound_len`. -/
  soundLen : Int32
  /-- `sound`: the address of the name. -/
  sound : UInt64
  deriving DecidableEq

/-- `playback_t`: an `ENGINE_EVENT` as it lies in memory. -/
structure PlaybackRec where
  /-- `record.event`. -/
  event : EventImage
  /-- `record.mix_time`. -/
  mixTime : TimevalImage
  deriving DecidableEq

/-- `struct playback_h`. -/
structure PlaybackHeader where
  /-- `major_ver`. -/
  majorVer : UInt8
  /-- `minor_ver`. -/
  minorVer : UInt8
  /-- `max_events`. -/
  maxEvents : UInt32
  /-- `written`: the number of events written to the file. -/
  written : UInt64
  /-- `start_pos`: the position of the starting event. -/
  startPos : Int64
  /-- `start_t`. -/
  startT : TimevalImage
  /-- `end_t`. -/
  endT : TimevalImage

/-- `sizeof (struct playback_h)`. -/
def PLAYBACK_H_SIZE : ℕ := 56

/-- `sizeof (playback_t)`. -/
def PLAYBACK_T_SIZE : ℕ := 40

/-- The layout of an `int`. -/
def intCodec : Codec Int32 4 :=
  Codec.uint32.map ⟨Int32.toUInt32, UInt32.toInt32, fun _ => rfl, fun _ => rfl⟩

/-- The layout of a `long`. -/
def longCodec : Codec Int64 8 :=
  Codec.uint64.map ⟨Int64.toUInt64, UInt64.toInt64, fun _ => rfl, fun _ => rfl⟩

/-- The layout of a `struct timeval`. -/
def timevalCodec : Codec TimevalImage 16 :=
  (longCodec.seq longCodec).map
    ⟨fun t => (t.tvSec, t.tvUsec), fun p => ⟨p.1, p.2⟩, fun _ => rfl, fun _ => rfl⟩

/-- The layout of an `EVENT`. -/
def eventCodec : Codec EventImage 24 :=
  (Codec.byte.seq (Codec.byte.seq (Codec.byte.seq (Codec.byte.seq (Codec.byte.seq
    ((Codec.byte.seq (Codec.byte.seq Codec.byte)).seq
      (intCodec.seq (intCodec.seq Codec.uint64)))))))).map
    ⟨fun e => (e.type, e.loc, e.prior, e.vol, e.dither, e.reserved, e.flags, e.soundLen, e.sound),
      fun (type, loc, prior, vol, dither, reserved, flags, soundLen, sound) =>
        ⟨type, loc, prior, vol, dither, reserved, flags, soundLen, sound⟩,
      fun _ => rfl, fun _ => rfl⟩

/-- The layout of a `playback_t`. -/
def recCodec : Codec PlaybackRec PLAYBACK_T_SIZE :=
  (eventCodec.seq timevalCodec).map
    ⟨fun r => (r.event, r.mixTime), fun p => ⟨p.1, p.2⟩, fun _ => rfl, fun _ => rfl⟩

/-- The layout of a `struct playback_h`. Two bytes of padding stand before `max_events`. -/
def headerCodec : Codec PlaybackHeader PLAYBACK_H_SIZE :=
  (Codec.byte.seq ((Codec.byte.padded 2).seq (Codec.uint32.seq (Codec.uint64.seq
    (longCodec.seq (timevalCodec.seq timevalCodec)))))).map
    ⟨fun h => (h.majorVer, h.minorVer, h.maxEvents, h.written, h.startPos, h.startT, h.endT),
      fun (majorVer, minorVer, maxEvents, written, startPos, startT, endT) =>
        ⟨majorVer, minorVer, maxEvents, written, startPos, startT, endT⟩,
      fun _ => rfl, fun _ => rfl⟩

/-! ## Recording -/

/-- `MAX_PLAYBACK_EVENTS`. -/
def MAX_PLAYBACK_EVENTS : ℕ := 3200

/-- `PLAYBACK_MAJOR_VER`. -/
def PLAYBACK_MAJOR_VER : UInt8 := 1

/-- `PLAYBACK_MINOR_VER`. -/
def PLAYBACK_MINOR_VER : UInt8 := 1

/-- The variables of `playback.c` while it records. -/
structure Recorder where
  /-- `stream`. -/
  stream : Stream
  /-- `header`. -/
  header : PlaybackHeader
  /-- `event_cnt`. -/
  eventCnt : ℕ
  /-- `loopback_flag`. -/
  loopbackFlag : Bool

/-- `playbackFileInit` in `RECORD_MODE`. -/
def playbackFileInit (now : TimevalImage) : Recorder :=
  let header : PlaybackHeader := {
    majorVer := PLAYBACK_MAJOR_VER
    minorVer := PLAYBACK_MINOR_VER
    maxEvents := UInt32.ofNat MAX_PLAYBACK_EVENTS
    written := 0
    startPos := Int64.ofNat PLAYBACK_H_SIZE
    startT := now
    endT := ⟨0, 0⟩ }
  { stream := fwrite fopen (headerCodec.encode header)
    header := header
    eventCnt := 0
    loopbackFlag := false }

/-- `playbackRecordEvent`; `now` is what `gettimeofday` returns. -/
def playbackRecordEvent (s : Recorder) (e : EventImage) (now : TimevalImage) : Recorder :=
  let record : PlaybackRec := { event := e, mixTime := now }
  if s.eventCnt ≠ MAX_PLAYBACK_EVENTS then
    { s with
      stream := fwrite s.stream (recCodec.encode record)
      eventCnt := s.eventCnt + 1 }
  else
    { s with
      stream := fwrite (fseek s.stream PLAYBACK_H_SIZE) (recCodec.encode record)
      eventCnt := s.eventCnt + 1
      loopbackFlag := true }

/-- `playbackFileShutdown` in `RECORD_MODE`. -/
def playbackFileShutdown (s : Recorder) (now : TimevalImage) : Recorder :=
  let header := { s.header with
    written := UInt64.ofNat s.eventCnt
    endT := now
    startPos := if s.loopbackFlag then Int64.ofNat s.stream.pos else Int64.ofNat PLAYBACK_H_SIZE }
  { s with
    stream := fwrite (fseek s.stream 0) (headerCodec.encode header)
    header := header }

/-- The events are recorded one by one, each at its time. -/
def recordAll (startT : TimevalImage) (events : List PlaybackRec) : Recorder :=
  events.foldl (fun s r => playbackRecordEvent s r.event r.mixTime) (playbackFileInit startT)

/-- The file after some events and the shutdown. -/
def recording (startT : TimevalImage) (events : List PlaybackRec) (endT : TimevalImage) :
    List UInt8 :=
  (playbackFileShutdown (recordAll startT events) endT).stream.contents

/-- The file is a header and a ring of the last `MAX_PLAYBACK_EVENTS` events, or of all if there are
fewer, and `start_pos` is the offset of the oldest. -/
def BoundedRing (file : List UInt8) (events : List PlaybackRec) : Prop :=
  ∃ (records : List PlaybackRec) (k : ℕ),
    file.drop PLAYBACK_H_SIZE = blocks recCodec records ∧
    (headerCodec.decode (file.take PLAYBACK_H_SIZE)).startPos.toInt
      = PLAYBACK_H_SIZE + k * PLAYBACK_T_SIZE ∧
    records.rotate k = events.drop (events.length - MAX_PLAYBACK_EVENTS) ∧
    (records = [] ∨ k < records.length)

/-! ## Reading a record in another run -/

/-- The strings that a process has allocated, by their addresses. -/
abbrev Heap := UInt64 → Option CString

/-- What an `EVENT` in memory means in a process. -/
def EventImage.read (heap : Heap) (e : EventImage) : Event where
  type := e.type
  loc := e.loc
  prior := e.prior
  vol := e.vol
  dither := e.dither
  flags := e.flags
  soundLen := e.soundLen
  sound := heap e.sound

/-- The event that a process enqueues for a record that it reads. -/
def replayed (heap : Heap) (bytes : List UInt8) : Event := (recCodec.decode bytes).event.read heap

/-- Whatever the heap of the process that reads the record, it enqueues the event that was
recorded. -/
def RoundTrips (heap : Heap) (e : EventImage) (now : TimevalImage) : Prop :=
  ∀ heap', replayed heap' (recCodec.encode { event := e, mixTime := now }) = e.read heap

variable {events : List PlaybackRec} {startT endT now : TimevalImage} {heap heap' : Heap}
  {e : EventImage} {r : PlaybackRec} {n : ℕ}

/-! ## The contents of the file -/

/-- A position is written as it is, as long as it is that of a file that can exist. -/
theorem toInt_startPos (h : n < 2 ^ 63) : (Int64.ofNat n).toInt = n :=
  Int64.toInt_ofNat_of_lt h

/-- The records in the file after some events: the ring is overwritten from its beginning on when it
is full, and goes on to grow when it has been overwritten. -/
def ringOf (events : List PlaybackRec) : List PlaybackRec :=
  if events.length ≤ MAX_PLAYBACK_EVENTS then events
  else events.drop MAX_PLAYBACK_EVENTS ++
    (events.take MAX_PLAYBACK_EVENTS).drop (events.length - MAX_PLAYBACK_EVENTS)

/-- The block at the position in the file, after `n` events. -/
def blockAt (n : ℕ) : ℕ := if n ≤ MAX_PLAYBACK_EVENTS then n else n - MAX_PLAYBACK_EVENTS

/-- The block that is written next, after `n` events. -/
def nextBlock (n : ℕ) : ℕ := if n < MAX_PLAYBACK_EVENTS then n else n - MAX_PLAYBACK_EVENTS

/-- What is to be shown of the recorder after some events. -/
structure Recorded (s : Recorder) (events : List PlaybackRec) : Prop where
  /-- The file is the header and the ring. -/
  contents : ∃ header, s.stream.contents = headerCodec.encode header ++
    blocks recCodec (ringOf events)
  /-- The position is behind the last record written. -/
  pos : s.stream.pos = PLAYBACK_H_SIZE + blockAt events.length * PLAYBACK_T_SIZE
  /-- The events are counted. -/
  count : s.eventCnt = events.length
  /-- The position has gone back if there are more events than places. -/
  loopback : s.loopbackFlag = decide (MAX_PLAYBACK_EVENTS < events.length)

theorem length_ringOf : (ringOf events).length =
    if events.length ≤ 2 * MAX_PLAYBACK_EVENTS then min events.length MAX_PLAYBACK_EVENTS
    else events.length - MAX_PLAYBACK_EVENTS := by
  rw [ringOf]
  split_ifs with hfits hwice hwice
  · rw [min_eq_left hfits]
  · omega
  · rw [List.length_append, List.length_drop, List.length_drop, List.length_take]
    omega
  · rw [List.length_append, List.length_drop, List.length_drop, List.length_take]
    omega

theorem blockAt_succ (h : n ≠ MAX_PLAYBACK_EVENTS) :
    nextBlock n = blockAt n ∧ blockAt (n + 1) = blockAt n + 1 := by
  rw [nextBlock, blockAt, blockAt]
  split_ifs <;> omega

theorem nextBlock_le : nextBlock events.length ≤ (ringOf events).length := by
  rw [length_ringOf, nextBlock]
  split_ifs <;> omega

/-- **The next event** is written over the next block of the ring, or behind its last one. -/
theorem ringOf_concat : ringOf (events ++ [r]) = (ringOf events).take (nextBlock events.length) ++
    r :: (ringOf events).drop (nextBlock events.length + 1) := by
  rcases Nat.lt_trichotomy events.length MAX_PLAYBACK_EVENTS with hlt | heq | hgt
  · -- there is a place behind the last record
    have hnew : (events ++ [r]).length ≤ MAX_PLAYBACK_EVENTS := by
      rw [List.length_append, List.length_singleton]
      exact hlt
    rw [ringOf, if_pos hnew, ringOf, if_pos hlt.le, nextBlock, if_pos hlt, List.take_length,
      List.drop_eq_nil_of_le (Nat.le_succ _)]
  · -- the position goes back to the first record
    have hnew : ¬ (events ++ [r]).length ≤ MAX_PLAYBACK_EVENTS := by simp [heq]
    rw [ringOf, if_neg hnew, ringOf, if_pos heq.le, nextBlock, if_neg (by omega), ← heq]
    simp
  · -- the position has gone back before
    have hnew : ¬ (events ++ [r]).length ≤ MAX_PLAYBACK_EVENTS := by
      rw [List.length_append]
      omega
    have hnext : nextBlock events.length = (events.drop MAX_PLAYBACK_EVENTS).length := by
      rw [nextBlock, if_neg (by omega), List.length_drop]
    have hdrop : (events ++ [r]).drop MAX_PLAYBACK_EVENTS
        = events.drop MAX_PLAYBACK_EVENTS ++ [r] := List.drop_append_of_le_length hgt.le
    have htake : (events ++ [r]).take MAX_PLAYBACK_EVENTS = events.take MAX_PLAYBACK_EVENTS :=
      List.take_append_of_le_length hgt.le
    have hlength : (events ++ [r]).length - MAX_PLAYBACK_EVENTS
        = events.length - MAX_PLAYBACK_EVENTS + 1 := by
      rw [List.length_append, List.length_singleton]
      omega
    rw [hnext, ringOf, if_neg hnew, ringOf, if_neg (by omega), List.take_left, ← List.drop_drop,
      List.drop_left, List.drop_drop, hdrop, htake, hlength, List.append_assoc,
      List.singleton_append]

theorem recorded_init : Recorded (playbackFileInit startT) [] := by
  have hcontents : (playbackFileInit startT).stream.contents =
      headerCodec.encode (playbackFileInit startT).header ++ blocks recCodec (ringOf []) := by
    have hring : ringOf [] = [] := if_pos (Nat.zero_le _)
    rw [hring, blocks_nil]
    simp [playbackFileInit, fwrite, fopen]
  refine ⟨⟨_, hcontents⟩, ?_, rfl, rfl⟩
  simp [playbackFileInit, fwrite, fopen, blockAt]

/-- **One more event.** -/
theorem Recorded.step {s : Recorder} (h : Recorded s events) :
    Recorded (playbackRecordEvent s r.event r.mixTime) (events ++ [r]) := by
  obtain ⟨header, hcontents⟩ := h.contents
  have hheader : (headerCodec.encode header).length = PLAYBACK_H_SIZE :=
    headerCodec.length_encode header
  have hlength : (events ++ [r]).length = events.length + 1 := by simp
  by_cases hfull : s.eventCnt = MAX_PLAYBACK_EVENTS
  · -- the position goes back behind the header
    have hevents : events.length = MAX_PLAYBACK_EVENTS := h.count.symm.trans hfull
    have hnext : nextBlock events.length = 0 := by rw [nextBlock, if_neg (by omega)]; omega
    have hwrite := fwrite_block (s := fseek s.stream PLAYBACK_H_SIZE) (i := 0) (a := r) hcontents
      (by rw [hheader, Nat.zero_mul]; rfl) (Nat.zero_le _)
    rw [← hnext, ← ringOf_concat, hnext] at hwrite
    rw [playbackRecordEvent, if_neg (not_not.mpr hfull), hwrite]
    refine ⟨⟨header, rfl⟩, ?_, ?_, ?_⟩
    · rw [hheader, hlength, blockAt, if_neg (by omega), hevents, Nat.add_sub_cancel_left]
    · rw [hlength, ← h.count]
    · rw [hlength, hevents]
      simp
  · have hevents : events.length ≠ MAX_PLAYBACK_EVENTS := fun hne => hfull (h.count.trans hne)
    obtain ⟨hnext, hsucc⟩ := blockAt_succ hevents
    have hwrite :=
      fwrite_block (a := r) hcontents (by rw [hheader, hnext]; exact h.pos) nextBlock_le
    rw [← ringOf_concat] at hwrite
    rw [playbackRecordEvent, if_pos hfull, hwrite]
    refine ⟨⟨header, rfl⟩, ?_, ?_, ?_⟩
    · rw [hheader, hlength, hnext, hsucc]
    · rw [hlength, ← h.count]
    · rw [hlength, h.loopback]
      exact decide_eq_decide.mpr (by omega)

theorem recorded_recordAll (startT : TimevalImage) (events : List PlaybackRec) :
    Recorded (recordAll startT events) events := by
  induction events using List.reverseRecOn with
  | nil => exact recorded_init
  | append_singleton events r ih =>
    rw [recordAll, List.foldl_append]
    exact ih.step

/-- `start_pos`, as it is written at shutdown. -/
def startBlock (n : ℕ) : ℕ := if n ≤ MAX_PLAYBACK_EVENTS then 0 else n - MAX_PLAYBACK_EVENTS

/-- **What the file contains after any number of events.** -/
theorem recorded_contents (startT endT : TimevalImage) (events : List PlaybackRec) :
    ∃ header : PlaybackHeader,
      recording startT events endT = headerCodec.encode header ++ blocks recCodec (ringOf events) ∧
      header.startPos
        = Int64.ofNat (PLAYBACK_H_SIZE + startBlock events.length * PLAYBACK_T_SIZE) := by
  have h := recorded_recordAll startT events
  obtain ⟨header, hcontents⟩ := h.contents
  have hseek : (fseek (recordAll startT events).stream 0).contents =
      headerCodec.encode header ++ blocks recCodec (ringOf events) := hcontents
  refine ⟨_, congrArg Stream.contents (fwrite_header hseek rfl ?_), ?_⟩
  · rw [headerCodec.length_encode, headerCodec.length_encode]
  · show (if (recordAll startT events).loopbackFlag then _ else _) = _
    rw [h.loopback, h.pos, blockAt, startBlock]
    by_cases hfits : events.length ≤ MAX_PLAYBACK_EVENTS
    · simp [hfits]
    · simp [hfits, not_le.mp hfits]

/-! ## When the file is a ring -/

/-- The blocks of a file are those of one list of records. -/
theorem blocks_injective {records records' : List PlaybackRec}
    (h : blocks recCodec records = blocks recCodec records') :
    records.length = records'.length := by
  have hlength := congrArg List.length h
  rw [length_blocks, length_blocks] at hlength
  exact Nat.eq_of_mul_eq_mul_right (by decide) hlength

/-- The parts of the file at the end of the recording. -/
theorem recording_parts (startT endT : TimevalImage) (events : List PlaybackRec) :
    (recording startT events endT).drop PLAYBACK_H_SIZE = blocks recCodec (ringOf events) ∧
      (headerCodec.decode ((recording startT events endT).take PLAYBACK_H_SIZE)).startPos
        = Int64.ofNat (PLAYBACK_H_SIZE + startBlock events.length * PLAYBACK_T_SIZE) := by
  obtain ⟨header, hfile, hpos⟩ := recorded_contents startT endT events
  have hlength := headerCodec.length_encode header
  rw [hfile, List.drop_left' hlength, List.take_left' hlength, headerCodec.decode_encode]
  exact ⟨rfl, hpos⟩

/-- From the oldest record on, the ring holds the last events in their order. -/
theorem rotate_ringOf (h : events.length ≤ 2 * MAX_PLAYBACK_EVENTS) :
    (ringOf events).rotate (startBlock events.length)
      = events.drop (events.length - MAX_PLAYBACK_EVENTS) := by
  by_cases hfits : events.length ≤ MAX_PLAYBACK_EVENTS
  · rw [ringOf, if_pos hfits, startBlock, if_pos hfits, List.rotate_zero,
      Nat.sub_eq_zero_of_le hfits, List.drop_zero]
  · have hlength : (events.drop MAX_PLAYBACK_EVENTS).length
        = events.length - MAX_PLAYBACK_EVENTS := List.length_drop
    rw [ringOf, if_neg hfits, startBlock, if_neg hfits, ← hlength, List.rotate_append_length_eq]
    calc (events.take MAX_PLAYBACK_EVENTS).drop (events.drop MAX_PLAYBACK_EVENTS).length ++
          events.drop MAX_PLAYBACK_EVENTS
        = (events.take MAX_PLAYBACK_EVENTS ++ events.drop MAX_PLAYBACK_EVENTS).drop
            (events.drop MAX_PLAYBACK_EVENTS).length := by
          rw [List.drop_append_of_le_length (by rw [List.length_take]; omega)]
      _ = events.drop (events.drop MAX_PLAYBACK_EVENTS).length := by rw [List.take_append_drop]

/-- Recordings that go back to the beginning of the ring a second time, or would have to. -/
theorem not_boundedRing (h : 2 * MAX_PLAYBACK_EVENTS ≤ events.length) :
    ¬ BoundedRing (recording startT events endT) events := by
  obtain ⟨hblocks, hstart⟩ := recording_parts startT endT events
  have hpos : 0 < MAX_PLAYBACK_EVENTS := by decide
  rintro ⟨records, k, hfile, hk, hrotate, hinside⟩
  have hrecords : records.length = (ringOf events).length :=
    blocks_injective (hfile.symm.trans hblocks)
  have hlength := congrArg List.length hrotate
  rw [List.length_rotate, List.length_drop, hrecords, length_ringOf] at hlength
  split_ifs at hlength with htwice
  · -- the file has the right size, but `start_pos` is its end
    have hevents : events.length = 2 * MAX_PLAYBACK_EVENTS := le_antisymm htwice h
    have hblock : startBlock events.length = MAX_PLAYBACK_EVENTS := by
      rw [startBlock, if_neg (by omega)]
      omega
    rw [hstart, hblock, toInt_startPos (by decide)] at hk
    rw [PLAYBACK_T_SIZE] at hk
    rcases hinside with rfl | hlt
    · rw [length_ringOf, if_pos htwice, List.length_nil] at hrecords
      omega
    · rw [hrecords, length_ringOf, if_pos htwice] at hlt
      push_cast at hk
      omega
  · omega

/-- **When a recording is a ring of the last events**: if there are fewer than twice as many as the
ring has places. -/
theorem boundedRing_iff (startT endT : TimevalImage) (events : List PlaybackRec) :
    BoundedRing (recording startT events endT) events ↔
      events.length < 2 * MAX_PLAYBACK_EVENTS := by
  refine ⟨fun h => ?_, fun h => ?_⟩
  · by_contra hge
    exact not_boundedRing (not_lt.mp hge) h
  · obtain ⟨hblocks, hstart⟩ := recording_parts startT endT events
    refine ⟨ringOf events, startBlock events.length, hblocks, ?_, rotate_ringOf h.le, ?_⟩
    · rw [hstart, toInt_startPos ?_]
      · push_cast
        rfl
      · have hbound : MAX_PLAYBACK_EVENTS = 3200 := rfl
        rw [startBlock, PLAYBACK_H_SIZE, PLAYBACK_T_SIZE]
        split_ifs <;> omega
    · rcases events with - | ⟨r, events⟩
      · exact .inl (if_pos (Nat.zero_le _))
      · refine .inr ?_
        rw [length_ringOf, if_pos h.le, startBlock]
        have hcons : (r :: events).length = events.length + 1 := rfl
        split_ifs <;> omega

/-- **Twice as many events as the ring has places**: the ring is complete, and `start_pos` is the
end of the file. -/
theorem not_boundedRing_twice :
    let r : PlaybackRec := ⟨⟨0, 0, 0, 0, 0, (0, 0, 0), 0, 1, 0x1000⟩, ⟨1, 0⟩⟩
    ¬ BoundedRing (recording ⟨0, 0⟩ (List.replicate 6400 r) ⟨2, 0⟩) (List.replicate 6400 r) :=
  not_boundedRing (by rw [List.length_replicate]; decide)

/-! ## Names of sounds -/

/-- **What of an event is in its record**: everything, if the process that reads it has the name of
the sound at the same address. -/
theorem replayed_eq_iff :
    replayed heap' (recCodec.encode { event := e, mixTime := now }) = e.read heap ↔
      heap' e.sound = heap e.sound := by
  rw [replayed, recCodec.decode_encode, EventImage.read, EventImage.read]
  simp

/-- Everything but the name is the same in every process. -/
theorem replayed_fields :
    { replayed heap' (recCodec.encode { event := e, mixTime := now }) with sound := heap e.sound }
      = e.read heap := by
  rw [replayed, recCodec.decode_encode]
  rfl

/-- **No event survives its recording**: the file holds an address of the process that wrote it, and
in another process there is another name at it. -/
theorem not_roundTrips (heap : Heap) (e : EventImage) (now : TimevalImage) :
    ¬ RoundTrips heap e now := by
  intro h
  have hname := replayed_eq_iff.mp (h fun _ => some (97 :: (heap e.sound).getD []))
  rw [← hname, Option.getD_some] at hname
  have hlength := congrArg List.length (Option.some.inj hname)
  simp at hlength

/-- The name `a`, and the name `b` at its address in the process that plays the recording. -/
theorem replayed_other_name :
    let e : EventImage := ⟨0, 0, 0, 0, 0, (0, 0, 0), 0, 1, 0x1000⟩
    (e.read fun _ => some [97]).sound = some [97] ∧
      (replayed (fun _ => some [98]) (recCodec.encode ⟨e, ⟨0, 0⟩⟩)).sound = some [98] ∧
      ¬ RoundTrips (fun _ => some [97]) e ⟨0, 0⟩ := by
  intro e
  have hother : (replayed (fun _ => some [98]) (recCodec.encode ⟨e, ⟨0, 0⟩⟩)).sound
      = some [98] := by
    rw [replayed, recCodec.decode_encode]
    rfl
  refine ⟨rfl, hother, fun h => ?_⟩
  rw [h fun _ => some [98]] at hother
  exact absurd hother (by decide)

end Peep
