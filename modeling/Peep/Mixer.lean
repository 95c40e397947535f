import Peep.Event
import Peep.Library.Pcm
import Mathlib.Algebra.BigOperators.Fin
import Mathlib.Data.Rat.Floor

/-!
# The mixer

`mixer.c`: a fixed number of event channels, each of which plays a sound once, and a fixed number
of state channels, each of which plays one segment after the other of the threshold that its volume
is in. Event channels share the range through multipliers, which are set when a sound starts
(dynamic mixing); state channels are scaled by `STATE_MULT`. This module has the tables and the
functions that fill and change them; the loop that mixes is in `Peep.Mixer.Loop`.

## Choices

A `double` is an exact rational, except that the length of a fade is rounded as the code rounds it
(`FadeRec.fadePt`), because it decides which samples are mixed. Division by zero, which happens with
a single event channel, is `0` here and not a number in C. A conversion to `short` truncates towards
zero. Positions, lengths and counts are natural numbers: they stay below the lengths of the arrays
they index.

A sound is an array, and its length in the mixer's tables is kept beside it, as in the code. An
operation returns `none` when it reads or writes outside an array, follows `NULL`, or returns from
`mixerGetStateThreshIndex` without a value. `calloc` does not fail.

`rand () / (RAND_MAX + 1.0)` is a parameter. The element `j` of `lin_fade` is kept with the element
`j` of `sbuffs`.
-/

namespace Peep

open Pcm

/-! ## Data -/

/-- What a `short *` to a sound points to. -/
abbrev Sound := Array Int16

/-- `STEREO`. -/
def STEREO : ℕ := 2

/-- `SAMPLE_RATE`. -/
def SAMPLE_RATE : ℕ := 44100

/-- `STATE_MULT`. -/
def STATE_MULT : ℚ := 4 / 10

/-- `EVENT_MULT`. -/
def EVENT_MULT : ℚ := 6 / 10

/-- `STATE_LINEAR_FADE_FLAG`, the only effect there is. -/
def STATE_LINEAR_FADE_FLAG : Int32 := 1

/-- What the functions of the mixer return. -/
inductive MixerStatus
  /-- `MIXER_SUCCESS`. -/
  | success
  /-- `MIXER_ALLOC_FAILED`. -/
  | allocFailed
  /-- `MIXER_ALREADY_ALLOC`. -/
  | alreadyAlloc
  /-- `MIXER_NOT_YET_ALLOC`. -/
  | notYetAlloc
  /-- `MIXER_CHAN_BUSY`. -/
  | chanBusy
  /-- `MIXER_ERROR`. -/
  | error
  /-- `MIXER_OUT_OF_BOUNDS`. -/
  | outOfBounds
  deriving DecidableEq

/-- `EVENT_BUF`: an event channel. -/
structure EventBuf where
  /-- Array of sound data; `NULL` if the channel is idle. -/
  sndBuf : Option Sound
  /-- Length of data. -/
  len : ℕ
  /-- Current position. -/
  pos : ℕ
  /-- Stereo (left). -/
  stereoPos : ℚ
  /-- Flag of effect filters to apply. -/
  filterFlag : Int32
  deriving DecidableEq

/-- `STATE_SND`: the segments of a threshold. `snd_cnt` is the length of both arrays. -/
structure StateSnd where
  /-- Array of state segments. -/
  sndBuf : Option (Array (Option Sound))
  /-- Length of segments. -/
  len : Array ℕ
  /-- Current segment to look at. -/
  sndNo : ℕ
  /-- Position in that segment. -/
  pos : ℕ
  deriving DecidableEq

/-- `snd_cnt`. -/
def StateSnd.sndCnt (s : StateSnd) : ℕ := s.len.size

/-- `THRESHOLD`. -/
structure Threshold where
  /-- Lower bound for the state. -/
  lBound : ℚ
  /-- Higher bound for the state. -/
  hBound : ℚ
  /-- The state sound associated with the entry. -/
  stateSnd : StateSnd
  deriving DecidableEq

/-- `STATE_BUF`: a state channel. `thresh_cnt` is the length of the array. -/
structure StateBuf where
  /-- Threshold of each state segment. -/
  thresh : Option (Array Threshold)
  /-- Stereo (left). -/
  stereoPos : ℚ
  /-- Volume. -/
  vol : ℚ
  /-- Flag of effect filters to apply. -/
  filterFlag : Int32
  deriving DecidableEq

/-- `thresh_cnt`. -/
def StateBuf.threshCnt (b : StateBuf) : ℕ := (b.thresh.getD #[]).size

/-- `FADE_REC`. -/
structure FadeRec where
  /-- Time remaining at which to begin fading. -/
  fadeTime : ℚ
  /-- Next random sound to play. -/
  snd : ℕ
  /-- Position in the next random sound. -/
  pos : ℕ
  /-- Old sound threshold index. -/
  oldThresh : ℕ
  deriving DecidableEq

/-- A state channel together with its element of `lin_fade`. -/
structure StateChannel where
  /-- The element of `sbuffs`. -/
  buf : StateBuf
  /-- The element of `lin_fade`. -/
  fade : FadeRec
  deriving DecidableEq

/-- The tables of a mixer with `n` event channels and `k` state channels. -/
structure Mixer (n k : ℕ) where
  /-- `ebuffs`. -/
  ebuffs : Fin n → EventBuf
  /-- `dyn_mul`. -/
  dynMul : Fin n → ℚ
  /-- `dyn_buf_cnt`. -/
  dynBufCnt : ℕ
  /-- `sbuffs` and `lin_fade`. -/
  states : Fin k → StateChannel
  /-- `mixer_loaded_states`. -/
  loadedStates : ℕ

variable {n k : ℕ}

/-- `mixerInit`: the tables are allocated with `calloc`. -/
def mixerInit (n k : ℕ) : Mixer n k where
  ebuffs _ := ⟨none, 0, 0, 0, 0⟩
  dynMul _ := 0
  dynBufCnt := 0
  states _ := ⟨⟨none, 0, 0, 0⟩, ⟨0, 0, 0, 0⟩⟩
  loadedStates := 0

/-! ## Event channels -/

/-- The arguments of `mixerAddEvent`, apart from the channel. -/
structure EventArgs where
  /-- The sound. -/
  snd : Option Sound
  /-- Its length. -/
  len : ℕ
  /-- Stereo location. -/
  loc : ℚ
  /-- Effects flags. -/
  flags : Int32

namespace Mixer

/-- `mixerDynGMul`. -/
def mixerDynGMul (m : Mixer n k) : ℚ :=
  1 - (1 / 2) * (((m.dynBufCnt - 1 : ℕ) : ℚ) / ((n - 1 : ℕ) : ℚ))

/-- `mixerDynIMul`. -/
def mixerDynIMul (m : Mixer n k) : ℚ :=
  1 / 2 + (((m.dynBufCnt - 1 : ℕ) : ℚ) / ((n - 1 : ℕ) : ℚ)) * (1 / 2)

/-- `mixerDynTotVol`. -/
def mixerDynTotVol (m : Mixer n k) : ℚ := ∑ i, m.dynMul i

/-- `mixerDynVol`. -/
def mixerDynVol (m : Mixer n k) : ℚ := m.mixerDynIMul * m.mixerDynGMul * (1 - m.mixerDynTotVol)

/-- The assignments to `ebuffs[voice]` and the increment of `dyn_buf_cnt` in `mixerAddEvent`. -/
def occupy (m : Mixer n k) (args : EventArgs) (voice : Fin n) : Mixer n k :=
  { m with
    ebuffs := Function.update m.ebuffs voice
      { m.ebuffs voice with
        sndBuf := args.snd, len := args.len, stereoPos := args.loc, filterFlag := args.flags }
    dynBufCnt := m.dynBufCnt + 1 }

/-- The critical section of `mixerAddEvent`. It leaves `pos` as it is. -/
def start (m : Mixer n k) (args : EventArgs) (voice : Fin n) : Mixer n k :=
  { m.occupy args voice with
    dynMul := Function.update m.dynMul voice (m.occupy args voice).mixerDynVol }

/-- `mixerAddEvent`. -/
def mixerAddEvent (m : Mixer n k) (args : EventArgs) (voice : Fin n) : MixerStatus × Mixer n k :=
  if (m.ebuffs voice).sndBuf.isSome then (.chanBusy, m) else (.success, m.start args voice)

/-- `mixerRemoveEvent` up to its call of `engineSchedulerInit`, which is about the tables of the
engine. -/
def mixerRemoveEvent (m : Mixer n k) (j : Fin n) : Mixer n k :=
  { m with
    ebuffs := Function.update m.ebuffs j
      { m.ebuffs j with sndBuf := none, len := 0, pos := 0, stereoPos := 0 }
    dynMul := Function.update m.dynMul j 0
    dynBufCnt := m.dynBufCnt - 1 }

end Mixer

/-! ## State channels -/

/-- Change the element `i` of an array that is not `NULL`. -/
def modify? {α : Type} (xs : Option (Array α)) (i : ℕ) (f : α → α) : Option (Array α) := do
  let xs ← xs
  if i < xs.size then some (xs.modify i f) else none

/-- The element `i` of an array that is not `NULL`. -/
def deref? {α : Type} (xs : Option (Array α)) (i : ℕ) : Option α := do
  let xs ← xs
  xs[i]?

namespace StateBuf

/-- The volume is between the bounds of the threshold. -/
def Inside (b : StateBuf) (t : Threshold) : Bool := t.lBound ≤ b.vol && b.vol ≤ t.hBound

/-- `mixerGetStateThreshIndex`: the first threshold that the volume is in. Without one the function
returns no value. -/
def mixerGetStateThreshIndex (b : StateBuf) : Option ℕ := (b.thresh.getD #[]).findIdx? b.Inside

/-- The loop of `mixerGetStateSndPtr`: the last threshold that the volume is in, and `0` without
one. -/
def lastThreshIndex (b : StateBuf) : ℕ :=
  ((b.thresh.getD #[]).toList.zipIdx.foldl (fun index p => if b.Inside p.1 then p.2 else index) 0)

/-- `mixerGetStateSndPtr`, called with the volume of the channel: the index of the threshold whose
`state_snd` is returned, or `NULL`. -/
def mixerGetStateSndPtr (b : StateBuf) : Option ℕ := do
  let t ← deref? b.thresh b.lastThreshIndex
  if t.stateSnd.sndBuf.isSome then some b.lastThreshIndex else none

/-- `thresh[t].state_snd`. -/
def stateSnd? (b : StateBuf) (t : ℕ) : Option StateSnd := (deref? b.thresh t).map Threshold.stateSnd

/-- An assignment to `thresh[t].state_snd`. -/
def setStateSnd (b : StateBuf) (t : ℕ) (s : StateSnd) : StateBuf :=
  { b with thresh := b.thresh.map fun ts => ts.modify t fun th => { th with stateSnd := s } }

end StateBuf

/-- `mixerPickRndStateSnd`; `r` is `rand () / (RAND_MAX + 1.0)`. -/
def mixerPickRndStateSnd (b : StateBuf) (r : ℚ) : ℕ :=
  match (b.mixerGetStateSndPtr).bind b.stateSnd? with
  | none => 0
  | some s => (truncate (s.sndCnt * r)).toNat

/-! ## Loading and setting

The functions that fill the tables of the state channels when a configuration is loaded, and those
that change a state while it plays. They take an index from their caller. -/

namespace Mixer

/-- Change a state channel; the index is used as it comes. -/
def onState (m : Mixer n k) (state : ℕ)
    (f : StateChannel → Option (MixerStatus × StateChannel)) : Option (MixerStatus × Mixer n k) :=
  if h : state < k then
    (f (m.states ⟨state, h⟩)).map fun p =>
      (p.1, { m with states := Function.update m.states ⟨state, h⟩ p.2 })
  else none

/-- `mixerAllocNewState`. -/
def mixerAllocNewState (m : Mixer n k) (state threshCnt : ℕ) :
    Option (MixerStatus × Mixer n k) := do
  let (status, m) ← m.onState state fun c =>
    if c.buf.thresh.isSome then some (.alreadyAlloc, c)
    else some (.success, { c with
      buf := { c.buf with
        thresh := some (Array.replicate threshCnt ⟨0, 0, ⟨none, #[], 0, 0⟩⟩)
        stereoPos := 1 / 2 } })
  if status = .success then some (status, { m with loadedStates := m.loadedStates + 1 })
  else some (status, m)

/-- `mixerAddStateThreshold`. -/
def mixerAddStateThreshold (m : Mixer n k) (state threshIndex : ℕ) (lBound hBound : ℚ)
    (sndCnt : ℕ) : Option (MixerStatus × Mixer n k) :=
  m.onState state fun c =>
    if c.buf.threshCnt < threshIndex then some (.outOfBounds, c)
    else if c.buf.thresh.isNone then some (.notYetAlloc, c)
    else (modify? c.buf.thresh threshIndex fun _ =>
        ⟨lBound, hBound, ⟨some (Array.replicate sndCnt none), Array.replicate sndCnt 0, 0, 0⟩⟩).map
      fun ts => (.success, { c with buf := { c.buf with thresh := some ts } })

/-- `mixerAddState`. -/
def mixerAddState (m : Mixer n k) (state threshIndex noSnd : ℕ) (sound : Option Sound)
    (len : ℕ) : Option (MixerStatus × Mixer n k) :=
  m.onState state fun c =>
    if c.buf.threshCnt < threshIndex then some (.outOfBounds, c)
    else do
      let s ← c.buf.stateSnd? threshIndex
      if s.sndCnt < noSnd then some (.allocFailed, c)
      else
        let there ← deref? s.sndBuf noSnd
        if there.isSome then some (.alreadyAlloc, c)
        else
          let snds ← modify? s.sndBuf noSnd fun _ => sound
          some (.success, { c with
            buf := c.buf.setStateSnd threshIndex
              { s with sndBuf := some snds, len := s.len.setIfInBounds noSnd len } })

/-- `mixerSetStateSnd`. -/
def mixerSetStateSnd (m : Mixer n k) (j : ℕ) (vol stereo : ℚ) (flags : Int32) :
    Option (MixerStatus × Mixer n k) :=
  m.onState j fun c => some (.success, { c with
    buf := { c.buf with vol := vol, stereoPos := stereo, filterFlag := flags } })

/-- `mixerSetFadeTime`. -/
def mixerSetFadeTime (m : Mixer n k) (j : ℕ) (time : ℚ) : Option (MixerStatus × Mixer n k) :=
  if j ≤ k then
    m.onState j fun c => some (.success, { c with fade := { c.fade with fadeTime := time } })
  else some (.error, m)

variable {m m' : Mixer n k} {state : ℕ} {status : MixerStatus}
  {f : StateChannel → Option (MixerStatus × StateChannel)}

/-- **A call on a state channel** changes that channel alone. -/
theorem onState_eq_some : m.onState state f = some (status, m') ↔ ∃ (h : state < k) (c : _),
    f (m.states ⟨state, h⟩) = some (status, c) ∧
      m' = { m with states := Function.update m.states ⟨state, h⟩ c } := by
  rw [onState]
  split_ifs with h
  · simp only [Option.map_eq_some_iff, Prod.mk.injEq, Prod.exists, h, exists_true_left]
    constructor
    · rintro ⟨_, c, hc, rfl, rfl⟩
      exact ⟨c, hc, rfl⟩
    · rintro ⟨c, hc, rfl⟩
      exact ⟨status, c, hc, rfl, rfl⟩
  · simp [h]

/-- `mixerGetFadeTime`. -/
def mixerGetFadeTime (m : Mixer n k) (j : ℕ) : Option ℚ :=
  if h : j < k then some (m.states ⟨j, h⟩).fade.fadeTime else none

end Mixer

end Peep
