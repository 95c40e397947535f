import Peep.Mixer.Loop
import Peep.Library.StepSystem
import Mathlib.Algebra.BigOperators.Group.Finset.Piecewise
import Mathlib.Algebra.Order.BigOperators.Group.Finset
import Mathlib.Tactic.FieldSimp
import Mathlib.Tactic.Linarith
import Mathlib.Tactic.Positivity
import Mathlib.Tactic.Ring

/-!
# The budget of dynamic mixing

`mixerDynVol` gives a new event a share of what the events that are playing have left of the volume
`1`. With `c` events playing and `N` channels, the share is `im * gm`, where `im` grows from
`1 / 2` to `1` and `gm` falls from `1` to `1 / 2` as `c` goes from `1` to `N`; their product stays
between `1 / 2` and `9 / 16`. So there is always something left, and each new event takes a
positive share of it.

`Budget` says so of a state, and every call of `mixerAddEvent` and `mixerRemoveEvent` preserves it.
The loop of `mixer` does too, as it changes the event channels with these two calls only.

## Main results

* `Budget.mixerAddEvent`, `Budget.mixerRemoveEvent` — the step lemmas
* `Budget.abs_sum_events_lt` — what the event channels add to one output sample
* `budget_of_run` — both, for every run from `mixerInit`
-/

namespace Peep

open Pcm StepSystem

namespace Mixer

variable {n k : ℕ} {m m' : Mixer n k} {j : Fin n} {args : EventArgs}

/-- The channel plays a sound. -/
def Busy (m : Mixer n k) (j : Fin n) : Prop := (m.ebuffs j).sndBuf.isSome = true

instance (m : Mixer n k) : DecidablePred m.Busy := fun _ => inferInstanceAs (Decidable (_ = true))

/-- The channels that play a sound. -/
def busyChannels (m : Mixer n k) : Finset (Fin n) := {j | m.Busy j}

/-- The multipliers share a budget of `1`. -/
structure Budget (m : Mixer n k) : Prop where
  /-- `dyn_buf_cnt` counts the channels that play. -/
  count : m.dynBufCnt = m.busyChannels.card
  /-- An idle channel takes nothing. -/
  idle : ∀ j, ¬ m.Busy j → m.dynMul j = 0
  /-- A channel that plays takes a positive share. -/
  pos : ∀ j, m.Busy j → 0 < m.dynMul j
  /-- No share is larger than this. -/
  le : ∀ j, m.Busy j → m.dynMul j ≤ 9 / 16
  /-- Something is left. -/
  total : m.mixerDynTotVol < 1

theorem budget_mixerInit : (mixerInit n k).Budget where
  count := by simp [mixerInit, busyChannels, Busy]
  idle _ _ := rfl
  pos j hj := by simp [mixerInit, Busy] at hj
  le j hj := by simp [mixerInit, Busy] at hj
  total := by simp [mixerInit, mixerDynTotVol]

theorem Budget.nonneg (h : m.Budget) (j : Fin n) : 0 ≤ m.dynMul j := by
  by_cases hj : m.Busy j
  · exact (h.pos j hj).le
  · exact (h.idle j hj).ge

theorem Budget.total_nonneg (h : m.Budget) : 0 ≤ m.mixerDynTotVol :=
  Finset.sum_nonneg fun j _ => h.nonneg j

/-- The budget depends on which channels play, not on what or where. -/
theorem Budget.congr (h : m.Budget) (hbusy : ∀ j, m'.Busy j ↔ m.Busy j)
    (hmul : m'.dynMul = m.dynMul) (hcnt : m'.dynBufCnt = m.dynBufCnt) : m'.Budget where
  count := by rw [hcnt, h.count, busyChannels, busyChannels]; simp only [hbusy]
  idle j hj := by rw [hmul]; exact h.idle j (mt (hbusy j).mpr hj)
  pos j hj := by rw [hmul]; exact h.pos j ((hbusy j).mp hj)
  le j hj := by rw [hmul]; exact h.le j ((hbusy j).mp hj)
  total := by rw [mixerDynTotVol, hmul]; exact h.total

/-! ## The share of a new event -/

/-- The share `im * gm` for the fraction `t` of the other channels that play. -/
theorem share_bounds {t : ℚ} (h0 : 0 ≤ t) (h1 : t ≤ 1) :
    1 / 2 ≤ (1 / 2 + t * (1 / 2)) * (1 - 1 / 2 * t) ∧
      (1 / 2 + t * (1 / 2)) * (1 - 1 / 2 * t) ≤ 9 / 16 := by
  constructor
  · nlinarith
  · nlinarith [sq_nonneg (t - 1 / 2)]

/-- **A new event takes a positive share and leaves something.** -/
theorem mixerDynVol_bounds (hn : 2 ≤ n) (hcnt : m.dynBufCnt ≤ n) (h0 : 0 ≤ m.mixerDynTotVol)
    (h1 : m.mixerDynTotVol < 1) :
    0 < m.mixerDynVol ∧ m.mixerDynVol ≤ 9 / 16 ∧ m.mixerDynTotVol + m.mixerDynVol < 1 := by
  set t : ℚ := ((m.dynBufCnt - 1 : ℕ) : ℚ) / ((n - 1 : ℕ) : ℚ) with ht
  have hden : (0 : ℚ) < ((n - 1 : ℕ) : ℚ) := by exact_mod_cast (by omega : 0 < n - 1)
  have ht0 : 0 ≤ t := by positivity
  have ht1 : t ≤ 1 := by
    rw [ht, div_le_one hden]
    exact_mod_cast (by omega : m.dynBufCnt - 1 ≤ n - 1)
  obtain ⟨hlow, hhigh⟩ := share_bounds ht0 ht1
  have hvol : m.mixerDynVol
      = (1 / 2 + t * (1 / 2)) * (1 - 1 / 2 * t) * (1 - m.mixerDynTotVol) := rfl
  set share := (1 / 2 + t * (1 / 2)) * (1 - 1 / 2 * t)
  have hrest : 0 < 1 - m.mixerDynTotVol := by linarith
  have hle : share * (1 - m.mixerDynTotVol) ≤ 9 / 16 * (1 - m.mixerDynTotVol) :=
    mul_le_mul_of_nonneg_right hhigh hrest.le
  refine ⟨?_, ?_, ?_⟩
  · rw [hvol]
    exact mul_pos (by linarith) hrest
  · rw [hvol]
    linarith
  · rw [hvol]
    linarith

/-! ## The two calls -/

theorem busy_occupy (hsnd : args.snd.isSome = true) (i : Fin n) :
    (m.occupy args j).Busy i ↔ i = j ∨ m.Busy i := by
  rcases eq_or_ne i j with rfl | hi
  · simp [Busy, occupy, hsnd]
  · simp [Busy, occupy, hi]

theorem busy_start (hsnd : args.snd.isSome = true) (i : Fin n) :
    (m.start args j).Busy i ↔ i = j ∨ m.Busy i := busy_occupy hsnd i

theorem busy_mixerRemoveEvent (i : Fin n) :
    (m.mixerRemoveEvent j).Busy i ↔ i ≠ j ∧ m.Busy i := by
  rcases eq_or_ne i j with rfl | hi
  · simp [Busy, Mixer.mixerRemoveEvent]
  · simp [Busy, Mixer.mixerRemoveEvent, hi]

theorem card_busyChannels_occupy (hsnd : args.snd.isSome = true) (hj : ¬ m.Busy j) :
    (m.occupy args j).busyChannels.card = m.busyChannels.card + 1 := by
  have : (m.occupy args j).busyChannels = insert j m.busyChannels := by
    ext i
    simp [busyChannels, busy_occupy hsnd]
  rw [this, Finset.card_insert_of_notMem (by simpa [busyChannels] using hj)]

/-- **The step lemma for `mixerAddEvent`.** -/
theorem Budget.mixerAddEvent (hn : n ≠ 1) (h : m.Budget) (hsnd : args.snd.isSome = true)
    (j : Fin n) : (m.mixerAddEvent args j).2.Budget := by
  rw [Mixer.mixerAddEvent]
  split_ifs with hbusy
  · exact h
  have hj : ¬ m.Busy j := hbusy
  have hcard : (m.occupy args j).dynBufCnt = (m.occupy args j).busyChannels.card := by
    rw [card_busyChannels_occupy hsnd hj, ← h.count]
    rfl
  have hcnt : (m.occupy args j).dynBufCnt ≤ n := by
    rw [hcard]
    exact (Finset.card_le_univ _).trans_eq (Fintype.card_fin n)
  have htot : (m.occupy args j).mixerDynTotVol = m.mixerDynTotVol := rfl
  have hn2 : 2 ≤ n := by have := j.pos; omega
  obtain ⟨hpos, hle, hlt⟩ := mixerDynVol_bounds hn2 hcnt (htot ▸ h.total_nonneg) (htot ▸ h.total)
  set v := (m.occupy args j).mixerDynVol with hv
  have hmul : (m.start args j).dynMul = Function.update m.dynMul j v := rfl
  have hstart : ∀ i, (m.start args j).Busy i ↔ i = j ∨ m.Busy i := busy_start hsnd
  refine ⟨hcard, ?_, ?_, ?_, ?_⟩
  · intro i hi
    obtain ⟨hij, hi⟩ := not_or.mp (mt (hstart i).mpr hi)
    rw [hmul, Function.update_of_ne hij]
    exact h.idle i hi
  · intro i hi
    rw [hmul]
    rcases eq_or_ne i j with rfl | hij
    · rwa [Function.update_self]
    · rw [Function.update_of_ne hij]
      exact h.pos i (((hstart i).mp hi).resolve_left hij)
  · intro i hi
    rw [hmul]
    rcases eq_or_ne i j with rfl | hij
    · rwa [Function.update_self]
    · rw [Function.update_of_ne hij]
      exact h.le i (((hstart i).mp hi).resolve_left hij)
  · have hsum : ∑ i, m.dynMul i = ∑ i ∈ Finset.univ \ {j}, m.dynMul i := by
      rw [← Finset.sum_sdiff (Finset.subset_univ {j}), Finset.sum_singleton, h.idle j hj, add_zero]
    rw [htot, mixerDynTotVol, hsum] at hlt
    rw [mixerDynTotVol, hmul, Finset.sum_update_of_mem (Finset.mem_univ j), add_comm]
    exact hlt

/-- **The step lemma for `mixerRemoveEvent`.** -/
theorem Budget.mixerRemoveEvent (h : m.Budget) (hj : m.Busy j) :
    (m.mixerRemoveEvent j).Budget := by
  have hbusy : ∀ i, (m.mixerRemoveEvent j).Busy i ↔ i ≠ j ∧ m.Busy i := busy_mixerRemoveEvent
  have hmul : (m.mixerRemoveEvent j).dynMul = Function.update m.dynMul j 0 := rfl
  refine ⟨?_, ?_, ?_, ?_, ?_⟩
  · have : (m.mixerRemoveEvent j).busyChannels = m.busyChannels.erase j := by
      ext i
      simp [busyChannels, hbusy]
    rw [this, Finset.card_erase_of_mem (by simpa [busyChannels] using hj), ← h.count]
    rfl
  · intro i hi
    rw [hmul]
    rcases eq_or_ne i j with rfl | hij
    · rw [Function.update_self]
    · rw [Function.update_of_ne hij]
      exact h.idle i fun hi' => hi ((hbusy i).mpr ⟨hij, hi'⟩)
  · intro i hi
    obtain ⟨hij, hi⟩ := (hbusy i).mp hi
    rw [hmul, Function.update_of_ne hij]
    exact h.pos i hi
  · intro i hi
    obtain ⟨hij, hi⟩ := (hbusy i).mp hi
    rw [hmul, Function.update_of_ne hij]
    exact h.le i hi
  · refine lt_of_le_of_lt (Finset.sum_le_sum ?_) h.total
    intro i _
    rw [hmul]
    rcases eq_or_ne i j with rfl | hij
    · rw [Function.update_self]
      exact h.nonneg i
    · rw [Function.update_of_ne hij]

/-! ## A pass of the mixer

The loop changes the event channels with the two calls, so it stays within the budget. The sample
of a channel is bounded by its multiplier, which no other channel's turn changes. -/

/-- An event that has a sound and a stereo position in range. -/
def Playable (args : EventArgs) : Prop := args.snd.isSome = true ∧ 0 ≤ args.loc ∧ args.loc ≤ 1

/-- The multipliers are within the budget, and the stereo positions between right and left. -/
structure Balanced (m : Mixer n k) : Prop where
  /-- The multipliers. -/
  budget : m.Budget
  /-- The stereo positions. -/
  stereo : ∀ j, 0 ≤ (m.ebuffs j).stereoPos ∧ (m.ebuffs j).stereoPos ≤ 1

theorem Balanced.mixerAddEvent (hn : n ≠ 1) (h : m.Balanced) (ha : Playable args) (j : Fin n) :
    (m.mixerAddEvent args j).2.Balanced := by
  refine ⟨h.budget.mixerAddEvent hn ha.1 j, ?_⟩
  intro i
  rw [Mixer.mixerAddEvent]
  split_ifs
  · exact h.stereo i
  · rcases eq_or_ne i j with rfl | hi
    · simpa [start, occupy] using ha.2
    · simpa [start, occupy, hi] using h.stereo i

theorem Balanced.mixerRemoveEvent (h : m.Balanced) (hj : m.Busy j) :
    (m.mixerRemoveEvent j).Balanced := by
  refine ⟨h.budget.mixerRemoveEvent hj, ?_⟩
  intro i
  rcases eq_or_ne i j with rfl | hi
  · simp [Mixer.mixerRemoveEvent]
  · simpa [Mixer.mixerRemoveEvent, hi] using h.stereo i

theorem busy_advance (i : Fin n) : (m.advance j).Busy i ↔ m.Busy i := by
  rcases eq_or_ne i j with rfl | hi
  · simp [Busy, advance]
  · simp [Busy, advance, hi]

theorem Balanced.advance (h : m.Balanced) (j : Fin n) : (m.advance j).Balanced := by
  refine ⟨h.budget.congr busy_advance rfl rfl, ?_⟩
  intro i
  rcases eq_or_ne i j with rfl | hi
  · simpa [Mixer.advance] using h.stereo i
  · simpa [Mixer.advance, hi] using h.stereo i

theorem Balanced.finish (hn : n ≠ 1) {old : Option EventArgs} (h : m.Balanced) (hj : m.Busy j)
    (hold : ∀ args ∈ old, Playable args) : (m.finish old j).Balanced := by
  cases old with
  | none => exact h.mixerRemoveEvent hj
  | some args => exact (h.mixerRemoveEvent hj).mixerAddEvent hn (hold args rfl) j

variable {old : Fin n → Option EventArgs} {samples : List StereoSample}

theorem Balanced.mixEvent (hn : n ≠ 1) (h : m.Balanced)
    (hold : ∀ i, ∀ args ∈ old i, Playable args)
    (hm : Mixer.mixEvent old j m = some (samples, m')) : m'.Balanced := by
  obtain ⟨-, -, rfl⟩ | ⟨snd, left, right, hsnd, -, -, -, rfl | rfl⟩ := mixEvent_cases hm
  · exact h
  · exact h.advance j
  · refine (h.advance j).finish hn ((busy_advance j).mpr ?_) (hold j)
    rw [Busy, hsnd]
    rfl

theorem Balanced.mixState {fractions : Fin k → Fractions} {i : Fin k} (h : m.Balanced)
    (hm : Mixer.mixState fractions i m = some (samples, m')) : m'.Balanced := by
  obtain ⟨hbuf, hmul, hcnt⟩ := mixState_events hm
  exact ⟨h.budget.congr (fun j => by rw [Busy, Busy, hbuf]) hmul hcnt,
    fun j => by rw [hbuf]; exact h.stereo j⟩

/-- Every event that the queue hands over can be played. -/
def FrameInput.Playable (input : FrameInput n k) : Prop :=
  ∀ i, ∀ args ∈ input.old i, Mixer.Playable args

theorem Balanced.mixerFrame (hn : n ≠ 1) {input : FrameInput n k} {frame : Frame}
    (h : m.Balanced) (hinput : FrameInput.Playable input)
    (hm : m.mixerFrame input = some (frame, m')) : m'.Balanced := by
  obtain ⟨m₁, he, hs⟩ := mixerFrame_eq_some.mp hm
  exact mixChannels_invariant (fun _ _ _ _ h hm => h.mixState hm)
    (mixChannels_invariant (fun _ _ _ _ h hm => h.mixEvent hn hinput hm) h he) hs

/-- What a channel contributes to one side is bounded by its multiplier. -/
theorem abs_contribution_le {mul pan : ℚ} (s : Int16) (hmul : 0 ≤ mul) (hmul' : mul ≤ 1)
    (hpan : 0 ≤ pan) (hpan' : pan ≤ 1) :
    |((toShort (s.toInt * mul * EVENT_MULT * pan)).toInt : ℚ)| ≤ EVENT_MULT * 32768 * mul := by
  have hs : |(s.toInt : ℚ)| ≤ 32768 := by exact_mod_cast abs_toInt_le s
  have hmult : EVENT_MULT = 6 / 10 := rfl
  have habs : |(s.toInt : ℚ) * mul * EVENT_MULT * pan| ≤ EVENT_MULT * 32768 * mul := by
    rw [abs_mul, abs_mul, abs_mul, abs_of_nonneg hmul, abs_of_nonneg hpan,
      abs_of_nonneg (by norm_num [hmult] : (0 : ℚ) ≤ EVENT_MULT)]
    calc |(s.toInt : ℚ)| * mul * EVENT_MULT * pan ≤ 32768 * mul * EVENT_MULT * 1 := by
          rw [hmult]; gcongr
      _ = EVENT_MULT * 32768 * mul := by ring
  refine (abs_toInt_toShort_le ?_).trans habs
  rw [hmult] at habs ⊢
  linarith

/-- The sum of samples is bounded by the sum of the bounds of its parts. -/
theorem abs_sum_flatten_le {f : StereoSample → ℤ} {w : Fin n → ℚ} {js : List (Fin n)}
    {parts : List (List StereoSample)}
    (h : List.Forall₂ (fun j s => |(((s.map f).sum : ℤ) : ℚ)| ≤ w j) js parts) :
    |(((parts.flatten.map f).sum : ℤ) : ℚ)| ≤ (js.map w).sum := by
  induction h with
  | nil => simp
  | @cons j s js parts hj _ ih =>
    rw [List.flatten_cons, List.map_append, List.sum_append, Int.cast_add, List.map_cons,
      List.sum_cons]
    exact (abs_add_le _ _).trans (add_le_add hj ih)

/-- What a channel's turn adds to the two samples is bounded by its multiplier. -/
theorem Balanced.abs_sum_le (h : m.Balanced) {m₁ m₂ : Mixer n k}
    (hbuf : m₁.ebuffs j = m.ebuffs j) (hmul : m₁.dynMul j = m.dynMul j)
    (hm : Mixer.mixEvent old j m₁ = some (samples, m₂)) :
    |(((samples.map fun s => s.1.toInt).sum : ℤ) : ℚ)| ≤ EVENT_MULT * 32768 * m.dynMul j ∧
      |(((samples.map fun s => s.2.toInt).sum : ℤ) : ℚ)| ≤ EVENT_MULT * 32768 * m.dynMul j := by
  have h0 := h.budget.nonneg j
  have h1 : m.dynMul j ≤ 1 := by
    by_cases hj : m.Busy j
    · exact (h.budget.le j hj).trans (by norm_num)
    · rw [h.budget.idle j hj]
      norm_num
  have hstereo := h.stereo j
  obtain ⟨-, rfl, -⟩ | ⟨snd, left, right, -, -, -, rfl, -⟩ := mixEvent_cases hm
  · have : 0 ≤ EVENT_MULT * 32768 * m.dynMul j := mul_nonneg (by norm_num [EVENT_MULT]) h0
    simpa using this
  · rw [hbuf, hmul]
    simp only [List.map_cons, List.map_nil, List.sum_cons, List.sum_nil, add_zero]
    exact ⟨abs_contribution_le left h0 h1 hstereo.1 hstereo.2,
      abs_contribution_le right h0 h1 (by linarith) (by linarith)⟩

/-- **The event channels leave room.** In every iteration, what they add to an output sample stays
below `EVENT_MULT` of the range. -/
theorem Balanced.abs_sum_events_lt {input : FrameInput n k} {frame : Frame} (h : m.Balanced)
    (hm : m.mixerFrame input = some (frame, m')) :
    |(((frame.events.map fun s => s.1.toInt).sum : ℤ) : ℚ)| < EVENT_MULT * 32768 ∧
      |(((frame.events.map fun s => s.2.toInt).sum : ℤ) : ℚ)| < EVENT_MULT * 32768 := by
  obtain ⟨m₁, he, -⟩ := mixerFrame_eq_some.mp hm
  obtain ⟨parts, hsamples, hparts⟩ := mixChannels_local
    (R := fun j m₂ => m₂.ebuffs j = m.ebuffs j ∧ m₂.dynMul j = m.dynMul j)
    (fun _ _ _ _ hR hstep => h.abs_sum_le hR.1 hR.2 hstep)
    (fun _ _ _ _ _ hij hR hstep =>
      ⟨(mixEvent_of_ne hij hstep).1.trans hR.1, (mixEvent_of_ne hij hstep).2.trans hR.2⟩)
    (List.nodup_finRange n) (fun _ _ => ⟨rfl, rfl⟩) he
  have htotal : ((List.finRange n).map fun j => EVENT_MULT * 32768 * m.dynMul j).sum
      = EVENT_MULT * 32768 * m.mixerDynTotVol := by
    rw [mixerDynTotVol, Finset.mul_sum, Fin.sum_univ_def]
  have hlt : EVENT_MULT * 32768 * m.mixerDynTotVol < EVENT_MULT * 32768 := by
    have hmult : EVENT_MULT = 6 / 10 := rfl
    have := h.budget.total
    rw [hmult]
    linarith
  rw [hsamples]
  exact ⟨(abs_sum_flatten_le (hparts.imp fun _ _ h => h.1)).trans_lt (htotal.trans_lt hlt),
    (abs_sum_flatten_le (hparts.imp fun _ _ h => h.2)).trans_lt (htotal.trans_lt hlt)⟩

/-- The bound holds in every iteration of a pass. -/
theorem Balanced.mixer (hn : n ≠ 1) {inputs : List (FrameInput n k)} {frames : List Frame}
    (h : m.Balanced) (hinputs : ∀ input ∈ inputs, FrameInput.Playable input)
    (hm : m.mixer inputs = some (frames, m')) : ∀ frame ∈ frames,
      |(((frame.events.map fun s => s.1.toInt).sum : ℤ) : ℚ)| < EVENT_MULT * 32768 ∧
        |(((frame.events.map fun s => s.2.toInt).sum : ℤ) : ℚ)| < EVENT_MULT * 32768 := by
  induction inputs generalizing m frames with
  | nil =>
    obtain ⟨rfl, -⟩ : [] = frames ∧ m = m' := by simpa [Mixer.mixer] using hm
    exact fun frame hf => absurd hf List.not_mem_nil
  | cons input inputs ih =>
    obtain ⟨hinput, hinputs⟩ := List.forall_mem_cons.mp hinputs
    simp only [Mixer.mixer, Option.bind_eq_bind, Option.bind_eq_some_iff, Prod.exists,
      Option.some.injEq, Prod.mk.injEq] at hm
    obtain ⟨frame, m₁, hframe, rest, m₂, hrest, rfl, rfl⟩ := hm
    exact List.forall_mem_cons.mpr
      ⟨h.abs_sum_events_lt hframe, ih (h.mixerFrame hn hinput hframe) hinputs hrest⟩

/-! ## Runs -/

/-- A call that changes the event channels. -/
inductive EventCall (n : ℕ)
  /-- `mixerAddEvent`, on an idle or a busy channel. -/
  | add (args : EventArgs) (voice : Fin n)
  /-- `mixerRemoveEvent`. -/
  | remove (j : Fin n)

/-- One call: a sound is not `NULL`, and only a busy channel is cleared. -/
def eventStep (m : Mixer n k) : EventCall n → Option (Mixer n k)
  | .add args voice => if args.snd.isSome then some (m.mixerAddEvent args voice).2 else none
  | .remove j => if m.Busy j then some (m.mixerRemoveEvent j) else none

theorem Budget.eventStep (hn : n ≠ 1) (h : m.Budget) {c : EventCall n}
    (hm : m.eventStep c = some m') : m'.Budget := by
  cases c with
  | add args voice =>
    simp only [Mixer.eventStep, Option.ite_none_right_eq_some, Option.some.injEq] at hm
    obtain ⟨hsnd, rfl⟩ := hm
    exact h.mixerAddEvent hn hsnd voice
  | remove j =>
    simp only [Mixer.eventStep, Option.ite_none_right_eq_some, Option.some.injEq] at hm
    obtain ⟨hj, rfl⟩ := hm
    exact h.mixerRemoveEvent hj

/-- **The budget holds in every run**, and so does the bound for every pass of the mixer at any
time in it. -/
theorem budget_of_run (hn : 2 ≤ n) {calls : List (EventCall n)}
    (h : exec eventStep (mixerInit n k) calls = some m) :
    m.Budget ∧ ∀ inputs frames m', (∀ j, 0 ≤ (m.ebuffs j).stereoPos ∧ (m.ebuffs j).stereoPos ≤ 1) →
      (∀ input ∈ inputs, FrameInput.Playable input) → m.mixer inputs = some (frames, m') →
      ∀ frame ∈ frames,
        |(((frame.events.map fun s => s.1.toInt).sum : ℤ) : ℚ)| < EVENT_MULT * 32768 ∧
          |(((frame.events.map fun s => s.2.toInt).sum : ℤ) : ℚ)| < EVENT_MULT * 32768 := by
  have hbudget : m.Budget := exec_invariant (C := fun _ _ => True)
    (fun _ _ _ hI _ hs => hI.eventStep (by omega) hs) budget_mixerInit (along_trivial _ _) h
  exact ⟨hbudget, fun inputs frames m' hstereo hinputs hm =>
    Balanced.mixer (by omega) ⟨hbudget, hstereo⟩ hinputs hm⟩

/-- An event of two stereo samples, from the right. -/
def twoSamples : EventArgs := ⟨some #[1000, -1000, 2000, -2000], 2, 1 / 4, 0⟩

/-- Two events, of which the first is removed, and one more: the share of each is computed from the
others. -/
def someCalls : List (EventCall 3) :=
  [.add twoSamples 0, .add { twoSamples with loc := 1 } 1, .remove 0, .add twoSamples 2]

/-- Two iterations without a new event. -/
def idleInputs : List (FrameInput 3 0) := List.replicate 2 ⟨fun _ => none, fun _ => ⟨0, 0, 0⟩⟩

/-- With three channels, of which one is free again, the mixer gets by in the iterations that play
the other two. -/
theorem budget_of_run_three_events : ∃ m m' : Mixer 3 0, ∃ frames,
    exec eventStep (mixerInit 3 0) someCalls = some m ∧ m.Budget ∧
      m.mixer idleInputs = some (frames, m') ∧ ∀ frame ∈ frames,
        |(((frame.events.map fun s => s.1.toInt).sum : ℤ) : ℚ)| < EVENT_MULT * 32768 ∧
          |(((frame.events.map fun s => s.2.toInt).sum : ℤ) : ℚ)| < EVENT_MULT * 32768 := by
  have hplay : ((exec eventStep (mixerInit 3 0) someCalls).bind fun m : Mixer 3 0 =>
      m.mixer idleInputs).isSome = true := by decide +kernel
  have hpan : (exec eventStep (mixerInit 3 0 : Mixer 3 0) someCalls).map
      (fun m => decide (∀ j, 0 ≤ (m.ebuffs j).stereoPos ∧ (m.ebuffs j).stereoPos ≤ 1))
        = some true := by decide +kernel
  obtain ⟨⟨frames, m'⟩, hplay⟩ := Option.isSome_iff_exists.mp hplay
  obtain ⟨m, hm, hmix⟩ := Option.bind_eq_some_iff.mp hplay
  obtain ⟨hbudget, hpass⟩ := budget_of_run (by decide) hm
  rw [hm] at hpan
  have hinputs : ∀ input ∈ idleInputs, FrameInput.Playable input := by
    intro input hinput i args hargs
    rw [List.eq_of_mem_replicate hinput] at hargs
    cases hargs
  exact ⟨m, m', frames, hm, hbudget, hmix, hpass _ frames m' (by simpa using hpan) hinputs hmix⟩

end Mixer

end Peep
