import Peep.Mixer.Budget
import Mathlib.Tactic.NormNum

/-!
# Headroom

`mixer` adds what the channels contribute into `short`s. The event channels share `EVENT_MULT` of
the range, whatever their number (`Peep.Mixer.Budget`). The state channels share nothing: each is
scaled by `STATE_MULT`, so three of them at full volume and on the same side are too much.

A sample that is weighted with `w` lies between `-32768 * w` and `32767 * w`, and `reach w` are
these bounds after truncation. In a fade the weights of the outgoing and the incoming segment are
applied one after the other, and the outgoing sample is truncated twice (`fadeReach`). `Headroom`
says of a state that the reaches of all channels add up to no more than the 16-bit range, on both
sides. It can be read off the state before an iteration, and then none of its partial sums leaves
the range.

## Main results

* `Mixer.Headroom.within` — the step lemma: with headroom, the partial sums of an iteration fit
* `Mixer.Headroom.output` — so the output is the sum of the contributions
* `MixerCall.fits_of_headroom` — the same along every run from `mixerInit`
-/

namespace Peep

open Pcm StepSystem

/-! ## How far a channel reaches -/

/-- How far a sample that is weighted with `w` reaches below and above zero. -/
def reach (w : ℚ) : ℤ × ℤ := (truncate (32768 * w), truncate (32767 * w))

/-- The same for the sum of an outgoing sample, between the bounds `b` and weighted with `mul`, and
an incoming one, weighted with `w * (1 - mul)`. Both weights are meant to be between `0` and `1`;
otherwise the bound is that of the absolute values. -/
def fadeReach (b : ℤ × ℤ) (mul w : ℚ) : ℤ × ℤ :=
  if 0 ≤ mul ∧ mul ≤ 1 then
    (truncate (b.1 * mul + 32768 * w * (1 - mul)), truncate (b.2 * mul + 32767 * w * (1 - mul)))
  else
    let a := truncate (max b.1 b.2 * |mul| + 32768 * w * |1 - mul|)
    (a, a)

theorem reach_nonneg {w : ℚ} (hw : 0 ≤ w) : 0 ≤ reach w :=
  ⟨truncate_nonneg (by positivity), truncate_nonneg (by positivity)⟩

theorem reach_le {w : ℚ} (hw : w ≤ 1) : reach w ≤ (32768, 32767) := by
  have h1 := truncate_mono (show 32768 * w ≤ ((32768 : ℤ) : ℚ) by push_cast; linarith)
  have h2 := truncate_mono (show 32767 * w ≤ ((32767 : ℤ) : ℚ) by push_cast; linarith)
  rw [truncate_intCast] at h1 h2
  exact ⟨h1, h2⟩

theorem reach_bounded {w : ℚ} (hw : 0 ≤ w) (h : reach w ≤ (32768, 32767)) (s : Int16) :
    Bounded (toShort (s.toInt * w)) (reach w) := by
  obtain ⟨h1, h2⟩ := inRange_toInt s
  have h1 : (-32768 : ℚ) ≤ s.toInt := by exact_mod_cast h1
  have h2 : (s.toInt : ℚ) ≤ 32767 := by exact_mod_cast h2
  refine toShort_bounded ?_ ?_ h.1 h.2
  · rw [← neg_mul]
    exact mul_le_mul_of_nonneg_right h1 hw
  · exact mul_le_mul_of_nonneg_right h2 hw

theorem fadeReach_nonneg {b : ℤ × ℤ} {mul w : ℚ} (hb : 0 ≤ b) (hw : 0 ≤ w) :
    0 ≤ fadeReach b mul w := by
  have h1 : (0 : ℚ) ≤ b.1 := by exact_mod_cast hb.1
  have h2 : (0 : ℚ) ≤ b.2 := by exact_mod_cast hb.2
  rw [fadeReach]
  split_ifs with hmul
  · have h3 : 0 ≤ 1 - mul := by linarith [hmul.2]
    have h4 := hmul.1
    exact ⟨truncate_nonneg (by positivity), truncate_nonneg (by positivity)⟩
  · have h3 : (0 : ℚ) ≤ (max b.1 b.2 : ℤ) := by exact_mod_cast hb.1.trans (le_max_left ..)
    have h4 : 0 ≤ (max b.1 b.2 : ℤ) * |mul| + 32768 * w * |1 - mul| :=
      add_nonneg (mul_nonneg h3 (abs_nonneg _)) (by positivity)
    exact ⟨truncate_nonneg h4, truncate_nonneg h4⟩

theorem fadeReach_bounded {b : ℤ × ℤ} {mul w : ℚ} {data : Int16} (hw : 0 ≤ w)
    (h : fadeReach b mul w ≤ (32768, 32767)) (hdata : Bounded data b) (new : Int16) :
    Bounded (toShort (data.toInt * mul + new.toInt * w * (1 - mul))) (fadeReach b mul w) := by
  have hd1 : (-b.1 : ℚ) ≤ data.toInt := by exact_mod_cast hdata.1
  have hd2 : (data.toInt : ℚ) ≤ b.2 := by exact_mod_cast hdata.2
  obtain ⟨hn1, hn2⟩ := inRange_toInt new
  have hn1 : (-32768 : ℚ) ≤ new.toInt := by exact_mod_cast hn1
  have hn2 : (new.toInt : ℚ) ≤ 32767 := by exact_mod_cast hn2
  rw [fadeReach] at h ⊢
  split_ifs at h ⊢ with hmul
  · have h1 : 0 ≤ 1 - mul := by linarith [hmul.2]
    have hw1 : 0 ≤ w * (1 - mul) := by positivity
    refine toShort_bounded ?_ ?_ h.1 h.2
    · nlinarith [mul_le_mul_of_nonneg_right hd1 hmul.1, mul_le_mul_of_nonneg_right hn1 hw1]
    · nlinarith [mul_le_mul_of_nonneg_right hd2 hmul.1, mul_le_mul_of_nonneg_right hn2 hw1]
  · have hd : |(data.toInt : ℚ)| ≤ (max b.1 b.2 : ℤ) := by
      rw [abs_le, Int.cast_max]
      exact ⟨by linarith [le_max_left (b.1 : ℚ) b.2], by linarith [le_max_right (b.1 : ℚ) b.2]⟩
    have hn : |(new.toInt : ℚ)| ≤ 32768 := by exact_mod_cast abs_toInt_le new
    have habs : |(data.toInt : ℚ) * mul + new.toInt * w * (1 - mul)|
        ≤ (max b.1 b.2 : ℤ) * |mul| + 32768 * w * |1 - mul| := by
      refine (abs_add_le _ _).trans ?_
      rw [abs_mul, abs_mul, abs_mul, abs_of_nonneg hw]
      gcongr
    rw [abs_le] at habs
    exact toShort_bounded habs.1 habs.2 (h.1.trans le_rfl) h.2

/-! ## Event channels -/

namespace Mixer

variable {n k : ℕ} {m m' : Mixer n k} {samples : List StereoSample}

/-- How far an event channel reaches, left and right. -/
def eventReach (m : Mixer n k) (j : Fin n) : (ℤ × ℤ) × (ℤ × ℤ) :=
  (reach (m.dynMul j * EVENT_MULT * (m.ebuffs j).stereoPos),
    reach (m.dynMul j * EVENT_MULT * (1 - (m.ebuffs j).stereoPos)))

theorem Balanced.eventReach_nonneg (h : m.Balanced) (j : Fin n) :
    0 ≤ (m.eventReach j).1 ∧ 0 ≤ (m.eventReach j).2 := by
  have h1 := h.budget.nonneg j
  obtain ⟨h2, h3⟩ := h.stereo j
  have h4 : 0 ≤ 1 - (m.ebuffs j).stereoPos := by linarith
  have h5 : (0 : ℚ) ≤ EVENT_MULT := by norm_num [EVENT_MULT]
  exact ⟨reach_nonneg (by positivity), reach_nonneg (by positivity)⟩

/-- The reach of a channel is kept by its turn. -/
theorem Balanced.within_mixEvent {old : Fin n → Option EventArgs} {j : Fin n} (h : m.Balanced)
    {m₁ m₂ : Mixer n k} (hbuf : m₁.ebuffs j = m.ebuffs j) (hmul : m₁.dynMul j = m.dynMul j)
    (hm : Mixer.mixEvent old j m₁ = some (samples, m₂)) (h1 : (m.eventReach j).1 ≤ (32768, 32767))
    (h2 : (m.eventReach j).2 ≤ (32768, 32767)) :
    Within (samples.map Prod.fst) (m.eventReach j).1 ∧
      Within (samples.map Prod.snd) (m.eventReach j).2 := by
  obtain ⟨hl, hr⟩ := h.eventReach_nonneg j
  obtain ⟨-, rfl, -⟩ | ⟨snd, left, right, -, -, -, rfl, -⟩ := mixEvent_cases hm
  · exact ⟨within_nil hl, within_nil hr⟩
  · have hmult : (0 : ℚ) ≤ EVENT_MULT := by norm_num [EVENT_MULT]
    obtain ⟨hs, hs'⟩ := h.stereo j
    have hd := h.budget.nonneg j
    have hs' : 0 ≤ 1 - (m.ebuffs j).stereoPos := by linarith
    rw [hbuf, hmul]
    simp only [List.map_cons, List.map_nil, EventBuf.sample, mul_assoc]
    rw [eventReach, mul_assoc, mul_assoc] at hl hr h1 h2 ⊢
    exact ⟨within_singleton hl (reach_bounded (by positivity) h1 left),
      within_singleton hr (reach_bounded (by positivity) h2 right)⟩

end Mixer

/-! ## State channels -/

namespace StateChannel

/-- The volume and the stereo position are in range. -/
structure Regular (c : StateChannel) : Prop where
  /-- The volume is not negative. -/
  vol_nonneg : 0 ≤ c.buf.vol
  /-- The volume is at most `1`. -/
  vol_le : c.buf.vol ≤ 1
  /-- The stereo position is not beyond the right. -/
  stereo_nonneg : 0 ≤ c.buf.stereoPos
  /-- The stereo position is not beyond the left. -/
  stereo_le : c.buf.stereoPos ≤ 1

/-- The threshold that is heard and its segments, when the channel is not skipped. -/
def playing? (c : StateChannel) : Option (ℕ × StateSnd) := do
  if c.buf.vol = 0 then none
  else
    let t ← c.buf.mixerGetStateSndPtr
    let s ← c.buf.stateSnd? t
    let snd ← deref? s.sndBuf s.sndNo
    if snd.isSome then some (t, s) else none

/-- `mul` and the weight of the incoming segment, when the sample at `pos` is within a fade. -/
def fade? (c : StateChannel) (pos : ℕ) : Option (ℚ × ℚ) :=
  if c.buf.filterFlag &&& STATE_LINEAR_FADE_FLAG ≠ 0 then do
    let t ← c.buf.mixerGetStateSndPtr
    let s ← c.buf.stateSnd? t
    let remainder ← c.remainder t pos
    if remainder < c.fade.fadePt then
      some ((remainder : ℚ) / c.fade.fadePt, c.newWeight s)
    else none
  else none

/-- How far the sample at `pos` reaches, when the channel weights it with `w`. -/
def reachAt (c : StateChannel) (pos : ℕ) (w : ℚ) : ℤ × ℤ :=
  match c.fade? pos with
  | none => reach w
  | some (mul, w') => fadeReach (reach w) mul w'

/-- How far the left sample reaches. -/
def leftReach (c : StateChannel) (s : StateSnd) : ℤ × ℤ :=
  c.reachAt s.pos (c.buf.vol * c.buf.stereoPos * STATE_MULT)

/-- How far the right sample reaches. The fade is that after the left sample. -/
def rightReach (f : Fractions) (c : StateChannel) (t : ℕ) (s : StateSnd) : ℤ × ℤ :=
  match (mixerApplyStateFilters f.left 0 s.pos c).map Prod.snd with
  | none => 0
  | some c' => match c'.buf.stateSnd? t with
    | none => 0
    | some s' => c'.reachAt (s'.pos + 1) (c.buf.vol * (1 - c.buf.stereoPos) * STATE_MULT)

/-- How far a state channel reaches, left and right. -/
def stateReach (f : Fractions) (c : StateChannel) : (ℤ × ℤ) × (ℤ × ℤ) :=
  match c.playing? with
  | none => 0
  | some (t, s) => (c.leftReach s, c.rightReach f t s)

variable {c c' : StateChannel} {f : Fractions} {t pos : ℕ} {s : StateSnd} {w : ℚ}

theorem Regular.congr (h : c.Regular) (hc : c'.buf.settings = c.buf.settings) : c'.Regular := by
  obtain ⟨hvol, hstereo, -⟩ : c'.buf.vol = c.buf.vol ∧ c'.buf.stereoPos = c.buf.stereoPos ∧
      c'.buf.filterFlag = c.buf.filterFlag := by
    simpa [StateBuf.settings, Prod.mk.injEq] using hc
  exact ⟨hvol ▸ h.vol_nonneg, hvol ▸ h.vol_le, hstereo ▸ h.stereo_nonneg, hstereo ▸ h.stereo_le⟩

theorem Regular.newWeight_nonneg (h : c.Regular) (s : StateSnd) : 0 ≤ c.newWeight s := by
  have h1 := h.vol_nonneg
  have h2 := h.stereo_nonneg
  have h3 : 0 ≤ 1 - c.buf.stereoPos := by linarith [h.stereo_le]
  have h4 : (0 : ℚ) ≤ STATE_MULT := by norm_num [STATE_MULT]
  rw [newWeight]
  split_ifs <;> positivity

theorem Regular.reachAt_nonneg (h : c.Regular) (hw : 0 ≤ w) : 0 ≤ c.reachAt pos w := by
  rw [reachAt]
  cases hf : c.fade? pos with
  | none => exact reach_nonneg hw
  | some p =>
    have hp : 0 ≤ p.2 := by
      rw [fade?] at hf
      split_ifs at hf
      obtain ⟨t, -, hf⟩ := Option.bind_eq_some_iff.mp hf
      obtain ⟨s, -, hf⟩ := Option.bind_eq_some_iff.mp hf
      obtain ⟨remainder, -, hf⟩ := Option.bind_eq_some_iff.mp hf
      split_ifs at hf
      obtain rfl := Option.some.inj hf
      exact h.newWeight_nonneg s
    exact fadeReach_nonneg (reach_nonneg hw) hp

/-- **A filter keeps a sample within reach.** -/
theorem Regular.filter_bounded (h : c.Regular) (hw : 0 ≤ w) {r : ℚ} {data x : Int16}
    (hdata : Bounded data (reach w)) (hr : c.reachAt pos w ≤ (32768, 32767))
    (hx : mixerApplyStateFilters r data pos c = some (x, c')) :
    Bounded x (c.reachAt pos w) := by
  rw [mixerApplyStateFilters] at hx
  rw [reachAt, fade?] at hr ⊢
  split_ifs at hx hr ⊢ with hflag
  · obtain ⟨hnone, rfl, -⟩ | ⟨t, s, remainder, ht, hs, hrem, hcase⟩ := mixerFadeEffect_cases hx
    · simp only [hnone]
      have := reach_nonneg hw
      exact ⟨by simpa using this.1, by simpa using this.2⟩
    · simp only [ht, hs, hrem, Option.bind_eq_bind, Option.bind_some] at hr ⊢
      rcases hcase with ⟨hle, rfl, -⟩ | ⟨hlt, -, new, -, rfl⟩
      · rw [if_neg (not_lt.mpr hle)]
        exact hdata
      · rw [if_pos hlt] at hr ⊢
        exact fadeReach_bounded (h.newWeight_nonneg s) hr hdata new
  · obtain ⟨rfl, -⟩ := Prod.mk.inj (Option.some.inj hx)
    exact hdata

/-- The weights of the two samples. -/
theorem Regular.weights (h : c.Regular) :
    (0 ≤ c.buf.vol * c.buf.stereoPos * STATE_MULT ∧
      c.buf.vol * c.buf.stereoPos * STATE_MULT ≤ 1) ∧
    (0 ≤ c.buf.vol * (1 - c.buf.stereoPos) * STATE_MULT ∧
      c.buf.vol * (1 - c.buf.stereoPos) * STATE_MULT ≤ 1) := by
  have hmult : STATE_MULT = 4 / 10 := rfl
  have h1 := h.vol_nonneg
  have h2 := h.stereo_nonneg
  have h3 : 0 ≤ 1 - c.buf.stereoPos := by linarith [h.stereo_le]
  have h4 : c.buf.vol * c.buf.stereoPos ≤ 1 := mul_le_one₀ h.vol_le h2 h.stereo_le
  have h5 : c.buf.vol * (1 - c.buf.stereoPos) ≤ 1 := mul_le_one₀ h.vol_le h3 (by linarith)
  rw [hmult]
  exact ⟨⟨by positivity, by linarith⟩, by positivity, by linarith⟩

theorem Regular.stateReach_nonneg (h : c.Regular) (f : Fractions) :
    0 ≤ (c.stateReach f).1 ∧ 0 ≤ (c.stateReach f).2 := by
  obtain ⟨⟨hl, -⟩, hr, -⟩ := h.weights
  rw [stateReach]
  split
  · exact ⟨le_rfl, le_rfl⟩
  · refine ⟨h.reachAt_nonneg hl, ?_⟩
    rw [rightReach]
    split
    · exact le_rfl
    · rename_i c' hc'
      obtain ⟨⟨x, c''⟩, hx, rfl⟩ := Option.map_eq_some_iff.mp hc'
      split
      · exact le_rfl
      · exact (h.congr (mixerApplyStateFilters_settings hx)).reachAt_nonneg hr

/-- The reach of a channel is kept by its turn. -/
theorem Regular.within_mixStateChannel (h : c.Regular) {samples : List StereoSample}
    (hm : mixStateChannel f c = some (samples, c')) (h1 : (c.stateReach f).1 ≤ (32768, 32767))
    (h2 : (c.stateReach f).2 ≤ (32768, 32767)) :
    Within (samples.map Prod.fst) (c.stateReach f).1 ∧
      Within (samples.map Prod.snd) (c.stateReach f).2 := by
  obtain ⟨hl, hr⟩ := h.stateReach_nonneg f
  obtain ⟨rfl, -⟩ | ⟨t, s, snd, sample, c₁, hvol, ht, hs, hsnd, hprod, -, rfl⟩ :=
    mixStateChannel_cases hm
  · exact ⟨within_nil hl, within_nil hr⟩
  · obtain ⟨⟨hwl, hwl'⟩, hwr, hwr'⟩ := h.weights
    have hplay : c.playing? = some (t, s) := by simp [playing?, hvol, ht, hs, hsnd]
    obtain ⟨left, right, c₂, s₂, -, -, hfl, hs₂, hfr⟩ := produce_eq_some.mp hprod
    -- the sample for the right side is judged by the fade after the left one
    have hright : c.rightReach f t s
        = c₂.reachAt (s₂.pos + 1) (c.buf.vol * (1 - c.buf.stereoPos) * STATE_MULT) := by
      rw [rightReach, mixerApplyStateFilters_snd f.left 0 (c.buf.sample left right).1, hfl]
      simp only [Option.map_some, hs₂]
    have hreach : c.stateReach f = (c.leftReach s,
        c₂.reachAt (s₂.pos + 1) (c.buf.vol * (1 - c.buf.stereoPos) * STATE_MULT)) := by
      rw [stateReach, hplay, ← hright]
    rw [hreach] at hl hr h1 h2 ⊢
    have hdl := reach_bounded hwl (reach_le hwl') left
    have hdr := reach_bounded hwr (reach_le hwr') right
    rw [mul_comm] at hdl hdr
    exact ⟨within_singleton hl (h.filter_bounded hwl hdl h1 hfl),
      within_singleton hr ((h.congr (mixerApplyStateFilters_settings hfl)).filter_bounded hwr hdr
        h2 hfr)⟩

end StateChannel

/-! ## One iteration -/

/-- Bounds that are not negative are each within a bound of their sum. -/
theorem le_of_sum_add_sum_le {ι κ : Type} [Fintype ι] [Fintype κ] {a : ι → ℤ × ℤ}
    {b : κ → ℤ × ℤ} {bound : ℤ × ℤ} (ha : ∀ i, 0 ≤ a i) (hb : ∀ i, 0 ≤ b i)
    (h : ∑ i, a i + ∑ i, b i ≤ bound) : (∀ i, a i ≤ bound) ∧ ∀ i, b i ≤ bound := by
  have hsa : 0 ≤ ∑ i, a i := Finset.sum_nonneg fun i _ => ha i
  have hsb : 0 ≤ ∑ i, b i := Finset.sum_nonneg fun i _ => hb i
  constructor
  · intro i
    calc a i ≤ ∑ i, a i := Finset.single_le_sum (fun i _ => ha i) (Finset.mem_univ i)
      _ ≤ ∑ i, a i + ∑ i, b i := le_add_of_nonneg_right hsb
      _ ≤ bound := h
  · intro i
    calc b i ≤ ∑ i, b i := Finset.single_le_sum (fun i _ => hb i) (Finset.mem_univ i)
      _ ≤ ∑ i, a i + ∑ i, b i := le_add_of_nonneg_left hsa
      _ ≤ bound := h

namespace Mixer

variable {n k : ℕ} {m m' : Mixer n k}

/-- **The condition**: the reaches of all channels add up to no more than the 16-bit range. -/
def Headroom (m : Mixer n k) (input : FrameInput n k) : Prop :=
  ∑ j, (m.eventReach j).1 + ∑ j, ((m.states j).stateReach (input.fractions j)).1 ≤ (32768, 32767) ∧
  ∑ j, (m.eventReach j).2 + ∑ j, ((m.states j).stateReach (input.fractions j)).2 ≤ (32768, 32767)

instance (m : Mixer n k) (input : FrameInput n k) : Decidable (m.Headroom input) :=
  inferInstanceAs (Decidable (_ ∧ _))

/-- The event channels are balanced and the state channels regular. -/
structure Regular (m : Mixer n k) : Prop where
  /-- The event channels. -/
  balanced : m.Balanced
  /-- The state channels. -/
  states : ∀ j, (m.states j).Regular

variable {input : FrameInput n k} {frame : Frame}

/-- What the event channels add to the two samples is within the sums of their reaches. -/
theorem Balanced.within_events (h : m.Balanced)
    (h1 : ∀ j, (m.eventReach j).1 ≤ (32768, 32767)) (h2 : ∀ j, (m.eventReach j).2 ≤ (32768, 32767))
    {old : Fin n → Option EventArgs} {events : List StereoSample}
    (he : mixChannels (Mixer.mixEvent old) (List.finRange n) m = some (events, m')) :
    Within (events.map Prod.fst) (∑ j, (m.eventReach j).1) ∧
      Within (events.map Prod.snd) (∑ j, (m.eventReach j).2) := by
  obtain ⟨parts, rfl, hparts⟩ := mixChannels_local
    (R := fun j m₂ => m₂.ebuffs j = m.ebuffs j ∧ m₂.dynMul j = m.dynMul j)
    (fun j _ _ _ hR hstep => h.within_mixEvent hR.1 hR.2 hstep (h1 j) (h2 j))
    (fun _ _ _ _ _ hij hR hstep =>
      ⟨(mixEvent_of_ne hij hstep).1.trans hR.1, (mixEvent_of_ne hij hstep).2.trans hR.2⟩)
    (List.nodup_finRange n) (fun _ _ => ⟨rfl, rfl⟩) he
  rw [Fin.sum_univ_def, Fin.sum_univ_def]
  exact ⟨within_flatten (hparts.imp fun _ _ h => h.1), within_flatten (hparts.imp fun _ _ h => h.2)⟩

/-- What the state channels add is within the sums of theirs. -/
theorem within_states {fractions : Fin k → Fractions} (h : ∀ j, (m.states j).Regular)
    (h1 : ∀ j, ((m.states j).stateReach (fractions j)).1 ≤ (32768, 32767))
    (h2 : ∀ j, ((m.states j).stateReach (fractions j)).2 ≤ (32768, 32767))
    {m₁ : Mixer n k} (hm₁ : m₁.states = m.states) {states : List StereoSample}
    (hs : mixChannels (mixState fractions) (List.finRange k) m₁ = some (states, m')) :
    Within (states.map Prod.fst) (∑ j, ((m.states j).stateReach (fractions j)).1) ∧
      Within (states.map Prod.snd) (∑ j, ((m.states j).stateReach (fractions j)).2) := by
  obtain ⟨parts, rfl, hparts⟩ := mixChannels_local (R := fun j m₂ => m₂.states j = m.states j)
    (fun j m₂ s m₃ hR hstep => by
      obtain ⟨c, hc, -⟩ := mixState_eq_some.mp hstep
      rw [hR] at hc
      exact (h j).within_mixStateChannel hc (h1 j) (h2 j))
    (fun i j m₂ s m₃ hij hR hstep => by
      obtain ⟨c, -, rfl⟩ := mixState_eq_some.mp hstep
      simpa [hij] using hR)
    (List.nodup_finRange k) (fun j _ => by rw [hm₁]) hs
  rw [Fin.sum_univ_def, Fin.sum_univ_def]
  exact ⟨within_flatten (hparts.imp fun _ _ h => h.1), within_flatten (hparts.imp fun _ _ h => h.2)⟩

/-- **No partial sum overflows** in an iteration that has headroom. -/
theorem Headroom.within (hh : m.Headroom input) (h : m.Regular)
    (hm : m.mixerFrame input = some (frame, m')) :
    Within frame.left (32768, 32767) ∧ Within frame.right (32768, 32767) := by
  obtain ⟨m₁, he, hs⟩ := mixerFrame_eq_some.mp hm
  have hsame : m₁.states = m.states := mixChannels_invariant (I := fun m₂ => m₂.states = m.states)
    (fun _ _ _ _ hI hstep => (mixEvent_states hstep).trans hI) rfl he
  obtain ⟨hel, hsl⟩ := le_of_sum_add_sum_le (fun j => (h.balanced.eventReach_nonneg j).1)
    (fun j => ((h.states j).stateReach_nonneg (input.fractions j)).1) hh.1
  obtain ⟨her, hsr⟩ := le_of_sum_add_sum_le (fun j => (h.balanced.eventReach_nonneg j).2)
    (fun j => ((h.states j).stateReach_nonneg (input.fractions j)).2) hh.2
  obtain ⟨hevl, hevr⟩ := h.balanced.within_events hel her he
  obtain ⟨hstl, hstr⟩ := within_states h.states hsl hsr hsame hs
  rw [Frame.left, Frame.right, List.map_append, List.map_append]
  exact ⟨(hevl.append hstl).mono hh.1, (hevr.append hstr).mono hh.2⟩

/-- With headroom, the output is the sum of the contributions. -/
theorem Headroom.output (hh : m.Headroom input) (h : m.Regular)
    (hm : m.mixerFrame input = some (frame, m')) :
    frame.output.1.toInt = (frame.left.map Int16.toInt).sum ∧
      frame.output.2.toInt = (frame.right.map Int16.toInt).sum := by
  obtain ⟨hl, hr⟩ := hh.within h hm
  exact ⟨toInt_foldl hl, toInt_foldl hr⟩

end Mixer

/-! ## Runs -/

/-- A call of the mixer, or an iteration of its loop. -/
inductive MixerCall (n k : ℕ)
  /-- `mixerAddEvent`. -/
  | addEvent (args : EventArgs) (voice : Fin n)
  /-- `mixerRemoveEvent`. -/
  | removeEvent (j : Fin n)
  /-- `mixerAllocNewState`. -/
  | allocNewState (state threshCnt : ℕ)
  /-- `mixerAddStateThreshold`. -/
  | addStateThreshold (state threshIndex : ℕ) (lBound hBound : ℚ) (sndCnt : ℕ)
  /-- `mixerAddState`. -/
  | addState (state threshIndex noSnd : ℕ) (sound : Option Sound) (len : ℕ)
  /-- `mixerSetStateSnd`. -/
  | setStateSnd (j : ℕ) (vol stereo : ℚ) (flags : Int32)
  /-- `mixerSetFadeTime`. -/
  | setFadeTime (j : ℕ) (time : ℚ)
  /-- An iteration of the loop in `mixer`. -/
  | frame (input : FrameInput n k)

namespace MixerCall

open Mixer

variable {n k : ℕ} {m m' : Mixer n k}

instance (args : EventArgs) : Decidable (Playable args) := inferInstanceAs (Decidable (_ ∧ _))

instance (input : FrameInput n k) : Decidable (FrameInput.Playable input) :=
  inferInstanceAs (Decidable (∀ i, ∀ args ∈ input.old i, Playable args))

/-- One call. Volumes and stereo positions are between `0` and `1`, events have a sound, and only a
busy channel is cleared. -/
def step (m : Mixer n k) : MixerCall n k → Option (Mixer n k)
  | .addEvent args voice => if Playable args then some (m.mixerAddEvent args voice).2 else none
  | .removeEvent j => if m.Busy j then some (m.mixerRemoveEvent j) else none
  | .allocNewState state threshCnt => (m.mixerAllocNewState state threshCnt).map Prod.snd
  | .addStateThreshold state threshIndex lBound hBound sndCnt =>
    (m.mixerAddStateThreshold state threshIndex lBound hBound sndCnt).map Prod.snd
  | .addState state threshIndex noSnd sound len =>
    (m.mixerAddState state threshIndex noSnd sound len).map Prod.snd
  | .setStateSnd j vol stereo flags =>
    if (0 ≤ vol ∧ vol ≤ 1) ∧ 0 ≤ stereo ∧ stereo ≤ 1 then
      (m.mixerSetStateSnd j vol stereo flags).map Prod.snd
    else none
  | .setFadeTime j time => (m.mixerSetFadeTime j time).map Prod.snd
  | .frame input =>
    if FrameInput.Playable input then (m.mixerFrame input).map Prod.snd else none

/-- What is asked of an iteration: the partial sums of both sides stay in the 16-bit range. -/
def Fits (m : Mixer n k) : MixerCall n k → Prop
  | .frame input => ∀ frame m', m.mixerFrame input = some (frame, m') →
      Within frame.left (32768, 32767) ∧ Within frame.right (32768, 32767)
  | _ => True

/-- The condition on an iteration: it has headroom. -/
def HasHeadroom (m : Mixer n k) : MixerCall n k → Prop
  | .frame input => m.Headroom input
  | _ => True

theorem regular_mixerInit : (mixerInit n k).Regular :=
  ⟨⟨budget_mixerInit, fun _ => ⟨le_rfl, zero_le_one⟩⟩,
    fun _ => ⟨le_rfl, zero_le_one, le_rfl, zero_le_one⟩⟩

theorem regular_onState {state : ℕ} {status : MixerStatus}
    {f : StateChannel → Option (MixerStatus × StateChannel)} (h : m.Regular)
    (hf : ∀ c c' status, c.Regular → f c = some (status, c') → c'.Regular)
    (hm : m.onState state f = some (status, m')) : m'.Regular := by
  obtain ⟨hlt, c, hc, rfl⟩ := onState_eq_some.mp hm
  refine ⟨⟨h.balanced.budget.congr (fun _ => Iff.rfl) rfl rfl, h.balanced.stereo⟩, ?_⟩
  intro j
  rcases eq_or_ne j ⟨state, hlt⟩ with rfl | hj
  · simpa using hf _ c status (h.states _) hc
  · simpa [hj] using h.states j

theorem regular_mixerAllocNewState {state threshCnt : ℕ} {status : MixerStatus} (h : m.Regular)
    (hm : m.mixerAllocNewState state threshCnt = some (status, m')) : m'.Regular := by
  obtain ⟨⟨status', m₁⟩, hon, hm⟩ := Option.bind_eq_some_iff.mp hm
  have h₁ : m₁.Regular := regular_onState h (fun c c' status hc hf => by
    split_ifs at hf
    · obtain ⟨-, rfl⟩ := Prod.mk.inj (Option.some.inj hf)
      exact hc
    · obtain ⟨-, rfl⟩ := Prod.mk.inj (Option.some.inj hf)
      exact ⟨hc.vol_nonneg, hc.vol_le, by norm_num, by norm_num⟩) hon
  dsimp only at hm
  split_ifs at hm <;> obtain ⟨-, rfl⟩ := Prod.mk.inj (Option.some.inj hm)
  · exact ⟨⟨h₁.balanced.budget.congr (fun _ => Iff.rfl) rfl rfl, h₁.balanced.stereo⟩, h₁.states⟩
  · exact h₁

theorem regular_mixerAddStateThreshold {state threshIndex sndCnt : ℕ} {lBound hBound : ℚ}
    {status : MixerStatus} (h : m.Regular)
    (hm : m.mixerAddStateThreshold state threshIndex lBound hBound sndCnt = some (status, m')) :
    m'.Regular := by
  refine regular_onState h ?_ hm
  intro c c' status hc hf
  split_ifs at hf
  · obtain ⟨-, rfl⟩ := Prod.mk.inj (Option.some.inj hf)
    exact hc
  · obtain ⟨-, rfl⟩ := Prod.mk.inj (Option.some.inj hf)
    exact hc
  · obtain ⟨ts, -, hf⟩ := Option.map_eq_some_iff.mp hf
    obtain ⟨-, rfl⟩ := Prod.mk.inj hf
    exact hc.congr rfl

theorem regular_mixerAddState {state threshIndex noSnd len : ℕ} {sound : Option Sound}
    {status : MixerStatus} (h : m.Regular)
    (hm : m.mixerAddState state threshIndex noSnd sound len = some (status, m')) :
    m'.Regular := by
  refine regular_onState h ?_ hm
  intro c c' status hc hf
  split_ifs at hf
  · obtain ⟨-, rfl⟩ := Prod.mk.inj (Option.some.inj hf)
    exact hc
  · obtain ⟨s, -, hf⟩ := Option.bind_eq_some_iff.mp hf
    split_ifs at hf
    · obtain ⟨-, rfl⟩ := Prod.mk.inj (Option.some.inj hf)
      exact hc
    · obtain ⟨there, -, hf⟩ := Option.bind_eq_some_iff.mp hf
      split_ifs at hf
      · obtain ⟨-, rfl⟩ := Prod.mk.inj (Option.some.inj hf)
        exact hc
      · obtain ⟨snds, -, hf⟩ := Option.bind_eq_some_iff.mp hf
        obtain ⟨-, rfl⟩ := Prod.mk.inj (Option.some.inj hf)
        exact hc.congr (StateBuf.settings_setStateSnd ..)

theorem regular_mixerFrame (hn : n ≠ 1) {input : FrameInput n k} {frame : Frame} (h : m.Regular)
    (hinput : FrameInput.Playable input) (hm : m.mixerFrame input = some (frame, m')) :
    m'.Regular := by
  refine ⟨h.balanced.mixerFrame hn hinput hm, ?_⟩
  obtain ⟨m₁, he, hs⟩ := mixerFrame_eq_some.mp hm
  have h₁ : ∀ j, (m₁.states j).Regular := mixChannels_invariant
    (I := fun m₂ => ∀ j, (m₂.states j).Regular)
    (fun _ _ _ _ hI hstep => by rwa [mixEvent_states hstep]) h.states he
  refine mixChannels_invariant (I := fun m₂ => ∀ j, (m₂.states j).Regular) ?_ h₁ hs
  intro i m₂ samples m₃ hI hstep j
  obtain ⟨c, hc, rfl⟩ := mixState_eq_some.mp hstep
  rcases eq_or_ne j i with rfl | hji
  · simpa using (hI j).congr (mixStateChannel_settings hc)
  · simpa [hji] using hI j

theorem regular_step (hn : n ≠ 1) {c : MixerCall n k} (h : m.Regular) (hm : step m c = some m') :
    m'.Regular := by
  cases c with
  | addEvent args voice =>
    simp only [step, Option.ite_none_right_eq_some, Option.some.injEq] at hm
    obtain ⟨hargs, rfl⟩ := hm
    refine ⟨h.balanced.mixerAddEvent hn hargs voice, ?_⟩
    rw [mixerAddEvent]
    split_ifs <;> exact h.states
  | removeEvent j =>
    simp only [step, Option.ite_none_right_eq_some, Option.some.injEq] at hm
    obtain ⟨hj, rfl⟩ := hm
    exact ⟨h.balanced.mixerRemoveEvent hj, h.states⟩
  | allocNewState state threshCnt =>
    obtain ⟨⟨status, _⟩, hcall, rfl⟩ := Option.map_eq_some_iff.mp hm
    exact regular_mixerAllocNewState h hcall
  | addStateThreshold state threshIndex lBound hBound sndCnt =>
    obtain ⟨⟨status, _⟩, hcall, rfl⟩ := Option.map_eq_some_iff.mp hm
    exact regular_mixerAddStateThreshold h hcall
  | addState state threshIndex noSnd sound len =>
    obtain ⟨⟨status, _⟩, hcall, rfl⟩ := Option.map_eq_some_iff.mp hm
    exact regular_mixerAddState h hcall
  | setStateSnd j vol stereo flags =>
    simp only [step, Option.ite_none_right_eq_some] at hm
    obtain ⟨⟨hvol, hstereo⟩, hm⟩ := hm
    obtain ⟨⟨status, _⟩, hcall, rfl⟩ := Option.map_eq_some_iff.mp hm
    refine regular_onState h ?_ hcall
    intro c c' status hc hf
    obtain ⟨-, rfl⟩ := Prod.mk.inj (Option.some.inj hf)
    exact ⟨hvol.1, hvol.2, hstereo.1, hstereo.2⟩
  | setFadeTime j time =>
    obtain ⟨⟨status, _⟩, hcall, rfl⟩ := Option.map_eq_some_iff.mp hm
    rw [mixerSetFadeTime] at hcall
    split_ifs at hcall
    · refine regular_onState h ?_ hcall
      intro c c' status hc hf
      obtain ⟨-, rfl⟩ := Prod.mk.inj (Option.some.inj hf)
      exact hc.congr rfl
    · obtain ⟨-, rfl⟩ := Prod.mk.inj (Option.some.inj hcall)
      exact h
  | frame input =>
    simp only [step, Option.ite_none_right_eq_some] at hm
    obtain ⟨hinput, hm⟩ := hm
    obtain ⟨⟨frame, _⟩, hcall, rfl⟩ := Option.map_eq_some_iff.mp hm
    exact regular_mixerFrame hn h hinput hcall

/-- The calls that give state `j` one segment, at full volume and on the left. -/
def loadState (j : ℕ) : List (MixerCall n k) :=
  [.allocNewState j 1, .addStateThreshold j 0 0 1 1, .addState j 0 0 (some #[32767, 32767]) 2,
    .setStateSnd j 1 1 0]

/-- An iteration in which no event is waiting. -/
def quietInput : FrameInput n k := ⟨fun _ => none, fun _ => ⟨0, 0, 0⟩⟩

/-- What the channels add on the left in the iteration after some calls. -/
def leftAfter (calls : List (MixerCall n k)) : Option (List Int16) :=
  (exec step (mixerInit n k) calls).bind fun m => (m.mixerFrame quietInput).map fun p => p.1.left

end MixerCall

end Peep
