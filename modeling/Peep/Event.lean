import Peep.Library.Double
import Mathlib.Data.Rat.Floor

/-!
# Events

The records that travel through the server: `EVENT`, as decoded from a client packet, and
`ENGINE_EVENT`, the same with the time at which the mixer queue took it (`engine.h`).

An unsigned `char` is a `UInt8` and an `int` is an `Int32`. A C string is the list of its bytes
without the terminating `NUL`, and a `char *` that may be `NULL` is an `Option` of that. The
`reserved` bytes of `EVENT` are read by nothing and left out. A `double` is a rational that
`toDouble` rounds after each operation, as the code has it.
-/

namespace Peep

open Double (toDouble)

/-- A C string: the bytes before the terminating `NUL`. -/
abbrev CString := List UInt8

/-- `EVENT`: one sound to play, as a client asked for it. -/
structure Event where
  /-- State or single event: `EVENT_T` or `STATE_T`. -/
  type : UInt8
  /-- Stereo location (left `0`, right `255`). -/
  loc : UInt8
  /-- Priority of the event; `0` is the most urgent. -/
  prior : UInt8
  /-- Volume of the event. -/
  vol : UInt8
  /-- For a state, the fade time. -/
  dither : UInt8
  /-- Effects flags. -/
  flags : Int32
  /-- Length of the sound string. -/
  soundLen : Int32
  /-- The sound to play, by name. -/
  sound : Option CString
  deriving DecidableEq, Repr

/-- `EVENT_T`, the type of an event that plays once. -/
def EVENT_T : UInt8 := 0

/-- `STATE_T`, the type of an event that adjusts a continuous sound. -/
def STATE_T : UInt8 := 1

/-- `struct timeval`. -/
structure Timeval where
  /-- Seconds since the epoch. -/
  tvSec : ℤ
  /-- Microseconds within the second. -/
  tvUsec : ℤ
  deriving DecidableEq, Repr

/-- `TP_IN_FP_SECS`. -/
def Timeval.inFpSecs (t : Timeval) : ℚ :=
  toDouble (toDouble (t.tvSec : ℚ) + toDouble (toDouble (t.tvUsec : ℚ) * toDouble (1 / 1000000)))

/-- The time in seconds. -/
def Timeval.time (t : Timeval) : ℚ := (t.tvSec : ℚ) + (t.tvUsec : ℚ) / 1000000

/-- The number of seconds is small enough for a double to tell two times apart. -/
abbrev Timeval.Resolved (t : Timeval) : Prop := Double.Resolved t.tvSec t.tvUsec

theorem Timeval.Resolved.inFpSecs_eq {t : Timeval} (h : t.Resolved) :
    t.inFpSecs = Double.seconds (t.tvSec : ℚ) (t.tvUsec : ℚ) := by
  have hsec : |t.tvSec| < 2 ^ 53 := h.sec.trans (by norm_num)
  have husec : |t.tvUsec| < 2 ^ 53 := by
    rw [abs_of_nonneg h.usec_nonneg]
    exact h.usec_lt.trans (by norm_num)
  rw [Timeval.inFpSecs, Double.toDouble_intCast hsec, Double.toDouble_intCast husec]
  rfl

theorem Timeval.Resolved.inFpSecs_lt_iff {t u : Timeval} (ht : t.Resolved) (hu : u.Resolved) :
    t.inFpSecs < u.inFpSecs ↔ t.time < u.time := by
  rw [ht.inFpSecs_eq, hu.inFpSecs_eq]
  exact Double.Resolved.seconds_lt_iff ht hu

theorem Timeval.Resolved.inFpSecs_le_iff {t u : Timeval} (ht : t.Resolved) (hu : u.Resolved) :
    t.inFpSecs ≤ u.inFpSecs ↔ t.time ≤ u.time := by
  rw [← not_lt, ← not_lt, hu.inFpSecs_lt_iff ht]

/-- `ENGINE_EVENT`: an event and the time when it was enqueued. -/
structure EngineEvent where
  /-- The event itself. -/
  event : Event
  /-- Time when the event was enqueued. -/
  mixTime : Timeval
  deriving DecidableEq, Repr

/-- `CLOCKS_PER_SEC`, as POSIX fixes it. -/
def CLOCKS_PER_SEC : ℚ := 1000000

/-- `QUEUE_EXPIRED`: how long an event may wait in the mixer queue, compared with seconds. -/
def QUEUE_EXPIRED : ℚ := 5 * CLOCKS_PER_SEC

end Peep
