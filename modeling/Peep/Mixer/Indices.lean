import Peep.Mixer.Segments
import Peep.EngineLoop
import Peep.Library.StepSystem

/-!
# The indices of a state channel

Three indices of a state channel move at different times: the threshold with the volume, the
segment and the position with the loop, and the incoming segment and the position in it with the
fade. This module is about runs of a channel, in which iterations of the loop and changes of the
settings come in any order, and about the question whether every access is in range.

## The invariant

`Playable` says of a channel that the segment goes on for an even number of samples, and of a
channel within a fade that the incoming segment is long enough. "Long enough" is about two lengths:
the incoming segment is read from the threshold that was recorded where the fade began, and then
becomes a segment of the threshold that is played. `Fits` has both.

An iteration keeps the invariant if what it picks at random fits (`Begins`, `Ends`). A change of
the settings keeps it only if the segments happen to fit the new settings. The code checks neither.

## Main results

* `mix_playable` — an iteration keeps the invariant
* `mixerFrame_act`, `engineIOState_exec` — the channels of a mixer make such runs
* `filter_indices`, `StateChannel.InBounds.indices` — what is in range in an iteration
* `along_inBounds` — the accesses of a run are in range if the segments fit
-/

namespace Peep

open Double
open Pcm StepSystem

variable {c c' : StateChannel} {t i o p q : ℕ} {s : StateSnd} {fade : FadeRec} {f : Fractions}

/-! ## What fits -/

/-- The segment `i` fits a fade that ends after `q` of its samples. It is read from the threshold
`o` and becomes a segment of the threshold `t`. -/
structure Fits (len : ℕ → ℕ → ℕ) (t o i window q : ℕ) : Prop where
  /-- It is a segment of `t`. -/
  present : 0 < len t i
  /-- It can be read until the fade ends. -/
  read : q ≤ len o i
  /-- One more sample is read if the segment is over by then. -/
  short : len t i ≤ q + 2 → q < len o i
  /-- Otherwise an even number of samples is left. -/
  even : q + 2 < len t i → (len t i - q) % 2 = 0
  /-- A segment that goes on within the window is mixed with itself, up to its end. -/
  again : q + 2 < len t i → len t i ≤ window + q → len t i ≤ len o i + 1

instance {len : ℕ → ℕ → ℕ} {window : ℕ} : Decidable (Fits len t o i window q) :=
  decidable_of_iff (0 < len t i ∧ q ≤ len o i ∧ (len t i ≤ q + 2 → q < len o i) ∧
      (q + 2 < len t i → (len t i - q) % 2 = 0) ∧
      (q + 2 < len t i → len t i ≤ window + q → len t i ≤ len o i + 1))
    ⟨fun ⟨h₁, h₂, h₃, h₄, h₅⟩ => ⟨h₁, h₂, h₃, h₄, h₅⟩, fun ⟨h₁, h₂, h₃, h₄, h₅⟩ =>
      ⟨h₁, h₂, h₃, h₄, h₅⟩⟩

section Fits

variable {len : ℕ → ℕ → ℕ} {window : ℕ} (h : Fits len t o i window q)

include h

/-- The sample after the fade is there, if the segment is over before it leaves the window. -/
theorem Fits.lt_len (hle : len t i ≤ window + q) : q < len o i := by
  by_cases hon : q + 2 < len t i
  · have := h.again hon hle
    omega
  · exact h.short (not_lt.mp hon)

/-- A segment does not leave the window at an odd distance. -/
theorem Fits.ne_window (hwindow : window % 2 = 0) (hlt : 2 < window) :
    len t i ≠ window + q + 1 := by
  intro heq
  have := h.even (by omega)
  omega

/-- A segment that is mixed with itself fits the end of itself. -/
theorem Fits.self (hon : q + 2 < len t i) (hle : len t i ≤ window + q) :
    Fits len t o i window (len t i - 2) := by
  have := h.again hon hle
  exact ⟨h.present, by omega, by omega, by omega, by omega⟩

end Fits

/-- What a channel at the position `p` of the segment `i` needs in order to be played. -/
structure Playable (c : StateChannel) (t i p : ℕ) (fade : FadeRec) : Prop where
  /-- There are samples for both sides. -/
  stereo : p + 2 ≤ c.buf.len t i
  /-- An even number of samples is left. -/
  even : (c.buf.len t i - p) % 2 = 0
  /-- Within a fade, the incoming segment fits. -/
  covered : c.buf.Fades → c.buf.len t i - p < fade.window →
    Fits c.buf.len t fade.oldThresh fade.snd fade.window (fade.pos + (c.buf.len t i - p) - 1)

instance : Decidable (Playable c t i p fade) :=
  decidable_of_iff (p + 2 ≤ c.buf.len t i ∧ (c.buf.len t i - p) % 2 = 0 ∧
      (c.buf.Fades → c.buf.len t i - p < fade.window → Fits c.buf.len t fade.oldThresh fade.snd
        fade.window (fade.pos + (c.buf.len t i - p) - 1)))
    ⟨fun ⟨h₁, h₂, h₃⟩ => ⟨h₁, h₂, h₃⟩, fun ⟨h₁, h₂, h₃⟩ => ⟨h₁, h₂, h₃⟩⟩

/-- The segment that is picked where a fade begins fits. With a window of two samples the fade
begins and ends in one iteration. -/
def Begins (c : StateChannel) (f : Fractions) (t i p : ℕ) (fade : FadeRec) : Prop :=
  c.buf.Fades → c.buf.len t i - p = fade.window → ∀ o ∈ c.buf.mixerGetStateThreshIndex,
    if fade.window = 2 then
      p % 2 < c.buf.len o (mixerPickRndStateSnd c.buf f.left) ∧
        (p % 2 + 3 < c.buf.len t (mixerPickRndStateSnd c.buf f.left) →
          (c.buf.len t (mixerPickRndStateSnd c.buf f.left) - (p % 2 + 3)) % 2 = 0)
    else Fits c.buf.len t o (mixerPickRndStateSnd c.buf f.left) fade.window
      (p % 2 + fade.window - 2)

/-- The iteration ends with a random segment: the current one is over, and so is the incoming one
if there is a fade. -/
def Picks (c : StateChannel) (f : Fractions) (t i p : ℕ) (fade : FadeRec) : Prop :=
  c.buf.len t i = p + 2 ∧ (c.buf.Fades →
    (fade.window = 2 → c.buf.len t (mixerPickRndStateSnd c.buf f.left) ≤ p % 2 + 3) ∧
    (2 < fade.window → c.buf.len t fade.snd ≤ fade.pos + 3))

/-- The segment that is picked at the end is of even length, and not over before the window begins
unless the fade that ended still fits. -/
def Ends (c : StateChannel) (f : Fractions) (t i p : ℕ) (fade : FadeRec) : Prop :=
  Picks c f t i p fade → c.buf.len t (mixerPickRndStateSnd c.buf f.atEnd) % 2 = 0 ∧
    (c.buf.Fades → 2 < fade.window →
      c.buf.len t (mixerPickRndStateSnd c.buf f.atEnd) < fade.window →
      Fits c.buf.len t fade.oldThresh fade.snd fade.window
        (fade.pos + 1 + c.buf.len t (mixerPickRndStateSnd c.buf f.atEnd)))

instance : Decidable (Begins c f t i p fade) := inferInstanceAs (Decidable (_ → _ → ∀ _ ∈ _, _))

instance : Decidable (Picks c f t i p fade) := inferInstanceAs (Decidable (_ ∧ (_ → _ ∧ _)))

instance : Decidable (Ends c f t i p fade) := inferInstanceAs (Decidable (_ → _ ∧ (_ → _ → _ → _)))

/-! ## An iteration -/

/-- What an iteration comes to: a playable position, and a fade with the same fade time. -/
def PlaysOn (c : StateChannel) (f : Fractions) (t i p : ℕ) (fade : FadeRec) : Prop :=
  ∃ samples i' p' fade',
    mixStateChannel f (c.put t i p fade) = some (samples, c.put t i' p' fade') ∧
      Playable c t i' p' fade' ∧ fade'.fadeTime = fade.fadeTime

theorem window_eq {fade' : FadeRec} (htime : fade'.fadeTime = fade.fadeTime) :
    fade'.window = fade.window := by
  rw [FadeRec.window, FadeRec.window, FadeRec.fadePt, FadeRec.fadePt, htime]

section Mix

variable (h : c.buf.Loaded) (ht : c.buf.lastThreshIndex = t) (hs : c.buf.stateSnd? t = some s)
  (hvol : c.buf.vol ≠ 0) (htime : 0 ≤ fade.fadeTime) (hend : f.atEnd ∈ Set.Ico 0 1)
  (hplay : Playable c t i p fade)

include h ht hs

include hend in
/-- A segment that is picked at the end of an iteration is playable. -/
theorem playable_pick {fade' : FadeRec} (hends : Ends c f t i p fade)
    (hpicks : Picks c f t i p fade) (htime' : fade'.fadeTime = fade.fadeTime)
    (hfade' : c.buf.Fades → 2 < fade.window →
      fade' = { fade with pos := fade.pos + 2 }) :
    Playable c t (mixerPickRndStateSnd c.buf f.atEnd) 0 fade' := by
  have hpos := len_mixerPickRndStateSnd_pos h ht hs hend
  obtain ⟨heven, hcovered⟩ := hends hpicks
  refine ⟨by omega, by omega, fun hfades hlt => ?_⟩
  rw [window_eq htime'] at hlt ⊢
  have hwindow : 2 < fade.window := by omega
  rw [hfade' hfades hwindow]
  have hfits := hcovered hfades hwindow (by omega)
  convert hfits using 1
  show fade.pos + 2 + (_ - 0) - 1 = _
  omega

include hvol in
/-- The end of the loop body, after the filters have moved the channel. -/
theorem playsOn_of {i₁ p₁ i₂ p₂ : ℕ} {fade₁ fade₂ : FadeRec} (hp : p + 2 ≤ c.buf.len t i)
    (hi : 0 < c.buf.len t i₂)
    (hleft : ∀ data, ∃ x, mixerApplyStateFilters f.left data p (c.put t i p fade)
      = some (x, c.put t i₁ p₁ fade₁))
    (hright : ∀ data, ∃ x, mixerApplyStateFilters f.right data (p₁ + 1) (c.put t i₁ p₁ fade₁)
      = some (x, c.put t i₂ p₂ fade₂)) (htime' : fade₂.fadeTime = fade.fadeTime)
    (hpick : c.buf.len t i₂ ≤ p₂ + 2 → Playable c t (mixerPickRndStateSnd c.buf f.atEnd) 0 fade₂)
    (hon : p₂ + 2 < c.buf.len t i₂ → Playable c t i₂ (p₂ + 2) fade₂) :
    PlaysOn c f t i p fade := by
  obtain ⟨samples, hmix⟩ := mixStateChannel_put h ht hs hvol (by omega) hi hleft hright
  split_ifs at hmix with hover
  · exact ⟨samples, _, _, _, hmix, hpick hover, htime'⟩
  · exact ⟨samples, _, _, _, hmix, hon (by omega), htime'⟩

include hvol htime hend hplay

/-- An iteration outside a fade. -/
theorem playsOn_idle (hends : Ends c f t i p fade)
    (hidle : c.buf.Fades → fade.window < c.buf.len t i - p) : PlaysOn c f t i p fade := by
  obtain ⟨hpt, hwindow⟩ := fadePt_eq htime
  obtain ⟨hp, heven, -⟩ := hplay
  refine playsOn_of h ht hs hvol hp (by omega)
    (fun data => apply_idle h ht hs (by omega) fun hfades => ?_)
    (fun data => apply_idle h ht hs (by omega) fun hfades => ?_) rfl (fun hover => ?_)
    fun hon => ?_
  · have := hidle hfades
    omega
  · have := hidle hfades
    omega
  · have hpicks : Picks c f t i p fade := by
      refine ⟨by omega, fun hfades => ?_⟩
      have := hidle hfades
      exact ⟨by omega, by omega⟩
    refine playable_pick h ht hs hend hends hpicks rfl fun hfades hlt => ?_
    have := hidle hfades
    omega
  · refine ⟨by omega, by omega, fun hfades hlt => ?_⟩
    have := hidle hfades
    omega

/-- The record of a fade that has begun at the position `p`, with the segment `i` of the threshold
`o`, and from which one sample has been read. -/
def FadeRec.begun (fade : FadeRec) (o i p : ℕ) : FadeRec :=
  { fade with snd := i, pos := p % 2 + 1, oldThresh := o }

omit hend hvol in
/-- The filters for both sides where a fade begins: the right side mixes the first sample. -/
theorem apply_begun (hfades : c.buf.Fades) (heq : c.buf.len t i - p = fade.window)
    (ho : c.buf.mixerGetStateThreshIndex = some o)
    (hread : p % 2 < c.buf.len o (mixerPickRndStateSnd c.buf f.left)) :
    ∃ fade₁, (∀ data, ∃ x, mixerApplyStateFilters f.left data p (c.put t i p fade)
        = some (x, c.put t i p fade₁)) ∧
      ∀ data, ∃ x, mixerApplyStateFilters f.right data (p + 1) (c.put t i p fade₁)
        = some (x, if c.buf.len t i ≤ p + 2
            then c.put t (mixerPickRndStateSnd c.buf f.left) (p % 2 + 1)
              (fade.begun o (mixerPickRndStateSnd c.buf f.left) p)
            else c.put t i p (fade.begun o (mixerPickRndStateSnd c.buf f.left) p)) := by
  obtain ⟨hpt, hwindow⟩ := fadePt_eq htime
  have hp := hplay.stereo
  exact ⟨{ fade with snd := mixerPickRndStateSnd c.buf f.left, pos := p % 2, oldThresh := o },
    fun data => apply_begin h ht hs (by omega) hfades (by omega) ho,
    fun data => apply_mix h ht hs (by omega) hfades
      (show (c.buf.len t i : ℤ) < fade.fadePt + ((p + 1 : ℕ) : ℤ) by omega) hread⟩

/-- An iteration that begins a fade on the left side, and mixes the first sample on the right. -/
theorem playsOn_begin (hle : c.buf.vol ∈ Set.Icc 0 1) (hleft : f.left ∈ Set.Ico 0 1)
    (hbegins : Begins c f t i p fade) (hends : Ends c f t i p fade) (hfades : c.buf.Fades)
    (heq : c.buf.len t i - p = fade.window) : PlaysOn c f t i p fade := by
  obtain ⟨-, hwindow⟩ := fadePt_eq htime
  have hp := hplay.stereo
  obtain ⟨o, ho⟩ := h.exists_threshIndex hle.1 hle.2
  have hbegins := hbegins hfades heq o ho
  have hpos := len_mixerPickRndStateSnd_pos h ht hs hleft
  have htime' : (fade.begun o (mixerPickRndStateSnd c.buf f.left) p).fadeTime = fade.fadeTime := rfl
  by_cases htwo : fade.window = 2
  · -- the fade is over in the same iteration
    rw [if_pos htwo] at hbegins
    obtain ⟨hread, heven⟩ := hbegins
    obtain ⟨fade₁, hbegun, hmixed⟩ := apply_begun h ht hs htime hplay hfades heq ho hread
    rw [if_pos (by omega)] at hmixed
    refine playsOn_of h ht hs hvol hp hpos hbegun hmixed htime' (fun hpick => ?_) fun hon => ?_
    · exact playable_pick h ht hs hend hends ⟨by omega, fun _ => ⟨fun _ => hpick, by omega⟩⟩
        htime' fun _ hlt => by omega
    · have heven := heven hon
      refine ⟨by omega, heven, fun _ hlt => ?_⟩
      rw [window_eq htime'] at hlt
      omega
  · rw [if_neg htwo] at hbegins
    have heven := hplay.even
    have hread : p % 2 < c.buf.len o (mixerPickRndStateSnd c.buf f.left) := by
      have := hbegins.read
      omega
    obtain ⟨fade₁, hbegun, hmixed⟩ := apply_begun h ht hs htime hplay hfades heq ho hread
    rw [if_neg (by omega)] at hmixed
    refine playsOn_of h ht hs hvol hp (by omega) hbegun hmixed htime' (fun hpick => by omega)
      fun _ => ⟨by omega, by omega, fun _ _ => ?_⟩
    rw [window_eq htime']
    have hq : p % 2 + 1 + (c.buf.len t i - (p + 2)) - 1 = p % 2 + fade.window - 2 := by omega
    show Fits c.buf.len t o _ fade.window (p % 2 + 1 + (c.buf.len t i - (p + 2)) - 1)
    rwa [hq]

omit hend in
/-- An iteration within a fade that goes on. -/
theorem playsOn_within (hfades : c.buf.Fades) (hlt : c.buf.len t i - p < fade.window)
    (hon : p + 2 < c.buf.len t i) : PlaysOn c f t i p fade := by
  obtain ⟨hpt, hwindow⟩ := fadePt_eq htime
  obtain ⟨hp, heven, hcovered⟩ := hplay
  have hfits := hcovered hfades hlt
  have hread := hfits.read
  set fade₁ : FadeRec := { fade with pos := fade.pos + 1 }
  set fade₂ : FadeRec := { fade with pos := fade.pos + 2 }
  have htime₂ : fade₂.fadeTime = fade.fadeTime := rfl
  have hleft : ∀ data, ∃ x, mixerApplyStateFilters f.left data p (c.put t i p fade)
      = some (x, if c.buf.len t i ≤ p + 2 then c.put t fade.snd (fade.pos + 1) fade₁
          else c.put t i p fade₁) :=
    fun data => apply_mix h ht hs (by omega) hfades (by omega) (by omega)
  have hright : ∀ data, ∃ x, mixerApplyStateFilters f.right data (p + 1) (c.put t i p fade₁)
      = some (x, if c.buf.len t i ≤ p + 2 then c.put t fade.snd (fade.pos + 2) fade₂
          else c.put t i p fade₂) :=
    fun data => apply_mix h ht hs (by omega) hfades
      (show (c.buf.len t i : ℤ) < fade.fadePt + ((p + 1 : ℕ) : ℤ) by omega)
      (show fade.pos + 1 < c.buf.len fade.oldThresh fade.snd by omega)
  rw [if_neg (by omega)] at hleft hright
  refine playsOn_of h ht hs hvol hp (by omega) hleft hright htime₂ (fun hpick => by omega)
    fun _ => ⟨by omega, by omega, fun _ _ => ?_⟩
  rw [window_eq htime₂]
  have hq : fade.pos + 2 + (c.buf.len t i - (p + 2)) - 1
      = fade.pos + (c.buf.len t i - p) - 1 := by omega
  show Fits c.buf.len t fade.oldThresh fade.snd fade.window
    (fade.pos + 2 + (c.buf.len t i - (p + 2)) - 1)
  rwa [hq]

omit hend hvol in
/-- The filter for the left side where a fade ends: the incoming segment becomes the current one. -/
theorem apply_over (hfades : c.buf.Fades) (hlt : 2 < fade.window) (hover : c.buf.len t i = p + 2) :
    Fits c.buf.len t fade.oldThresh fade.snd fade.window (fade.pos + 1) ∧
      ∀ data, ∃ x, mixerApplyStateFilters f.left data p (c.put t i p fade)
        = some (x, c.put t fade.snd (fade.pos + 1) { fade with pos := fade.pos + 1 }) := by
  obtain ⟨hpt, -⟩ := fadePt_eq htime
  have hfits := hplay.covered hfades (by omega)
  have hq : fade.pos + (c.buf.len t i - p) - 1 = fade.pos + 1 := by omega
  rw [hq] at hfits
  have hread := hfits.read
  have hleft : ∀ data, ∃ x, mixerApplyStateFilters f.left data p (c.put t i p fade)
      = some (x, if c.buf.len t i ≤ p + 2
          then c.put t fade.snd (fade.pos + 1) { fade with pos := fade.pos + 1 }
          else c.put t i p { fade with pos := fade.pos + 1 }) :=
    fun data => apply_mix h ht hs (by omega) hfades (by omega) (by omega)
  rw [if_pos hover.le] at hleft
  exact ⟨hfits, hleft⟩

omit hend in
/-- An iteration in which a fade ends on the left side, with an incoming segment that goes on beyond
the window. -/
theorem playsOn_beyond (hfades : c.buf.Fades) (hlt : 2 < fade.window)
    (hover : c.buf.len t i = p + 2)
    (hidle : fade.window + (fade.pos + 2) < c.buf.len t fade.snd) : PlaysOn c f t i p fade := by
  obtain ⟨hpt, -⟩ := fadePt_eq htime
  obtain ⟨hfits, hleft⟩ := apply_over h ht hs htime hplay hfades hlt hover
  set fade₁ : FadeRec := { fade with pos := fade.pos + 1 }
  have htime₁ : fade₁.fadeTime = fade.fadeTime := rfl
  have hright : ∀ data, ∃ x, mixerApplyStateFilters f.right data (fade.pos + 1 + 1)
      (c.put t fade.snd (fade.pos + 1) fade₁) = some (x, c.put t fade.snd (fade.pos + 1) fade₁) :=
    fun data => apply_idle h ht hs hfits.present fun _ =>
      show fade.fadePt + ((fade.pos + 1 + 1 : ℕ) : ℤ) < c.buf.len t fade.snd by omega
  have heven := hfits.even (by omega)
  refine playsOn_of h ht hs hvol hplay.stereo hfits.present hleft hright htime₁
    (fun hpick => by omega) fun _ => ⟨by omega, by omega, fun _ hlt' => ?_⟩
  rw [window_eq htime₁] at hlt'
  omega

/-- An iteration in which a fade ends on the left side, with an incoming segment that is mixed with
itself on the right side. -/
theorem playsOn_itself (hends : Ends c f t i p fade) (hfades : c.buf.Fades)
    (hlt : 2 < fade.window) (hover : c.buf.len t i = p + 2)
    (hle : c.buf.len t fade.snd ≤ fade.window + (fade.pos + 1)) : PlaysOn c f t i p fade := by
  obtain ⟨hpt, -⟩ := fadePt_eq htime
  obtain ⟨hfits, hleft⟩ := apply_over h ht hs htime hplay hfades hlt hover
  set fade₁ : FadeRec := { fade with pos := fade.pos + 1 }
  set fade₂ : FadeRec := { fade with pos := fade.pos + 2 }
  have htime₂ : fade₂.fadeTime = fade.fadeTime := rfl
  have hright : ∀ data, ∃ x, mixerApplyStateFilters f.right data (fade.pos + 1 + 1)
      (c.put t fade.snd (fade.pos + 1) fade₁)
        = some (x, if c.buf.len t fade.snd ≤ fade.pos + 1 + 2
            then c.put t fade.snd (fade.pos + 2) fade₂
            else c.put t fade.snd (fade.pos + 1) fade₂) :=
    fun data => apply_mix h ht hs hfits.present hfades
      (show (c.buf.len t fade.snd : ℤ) < fade.fadePt + ((fade.pos + 1 + 1 : ℕ) : ℤ) by omega)
      (hfits.lt_len hle)
  by_cases hon : fade.pos + 1 + 2 < c.buf.len t fade.snd
  · have heven := hfits.even hon
    rw [if_neg (not_le.mpr hon)] at hright
    refine playsOn_of h ht hs hvol hplay.stereo hfits.present hleft hright htime₂
      (fun hpick => by omega) fun _ => ⟨by omega, by omega, fun _ _ => ?_⟩
    rw [window_eq htime₂]
    have hq : fade.pos + 2 + (c.buf.len t fade.snd - (fade.pos + 1 + 2)) - 1
        = c.buf.len t fade.snd - 2 := by omega
    show Fits c.buf.len t fade.oldThresh fade.snd fade.window
      (fade.pos + 2 + (c.buf.len t fade.snd - (fade.pos + 1 + 2)) - 1)
    rw [hq]
    exact hfits.self hon hle
  · rw [if_pos (not_lt.mp hon)] at hright
    refine playsOn_of h ht hs hvol hplay.stereo hfits.present hleft hright htime₂ (fun _ => ?_)
      fun hon' => by omega
    exact playable_pick h ht hs hend hends ⟨hover, fun _ => ⟨by omega, by omega⟩⟩ htime₂
      fun _ _ => rfl

/-- An iteration in which a fade ends on the left side. -/
theorem playsOn_over (hends : Ends c f t i p fade) (hfades : c.buf.Fades)
    (hlt : 2 < fade.window) (hover : c.buf.len t i = p + 2) : PlaysOn c f t i p fade := by
  obtain ⟨hfits, -⟩ := apply_over (f := f) h ht hs htime hplay hfades hlt hover
  have hne := hfits.ne_window (fadePt_eq htime).2 hlt
  rcases lt_or_ge (fade.window + (fade.pos + 2)) (c.buf.len t fade.snd) with hidle | hle
  · exact playsOn_beyond h ht hs hvol htime hplay hfades hlt hover hidle
  · exact playsOn_itself h ht hs hvol htime hend hplay hends hfades hlt hover (by omega)

/-- **An iteration keeps the invariant**, if what it picks fits. -/
theorem mix_playable (hle : c.buf.vol ∈ Set.Icc 0 1) (hleft : f.left ∈ Set.Ico 0 1)
    (hbegins : Begins c f t i p fade) (hends : Ends c f t i p fade) : PlaysOn c f t i p fade := by
  have hp := hplay.stereo
  by_cases hfades : c.buf.Fades
  · rcases lt_trichotomy (c.buf.len t i - p) fade.window with hlt | heq | hgt
    · rcases hp.lt_or_eq with hon | hover
      · exact playsOn_within h ht hs hvol htime hplay hfades hlt hon
      · exact playsOn_over h ht hs hvol htime hend hplay hends hfades (by omega) hover.symm
    · exact playsOn_begin h ht hs hvol htime hend hplay hle hleft hbegins hends hfades heq
    · exact playsOn_idle h ht hs hvol htime hend hplay hends fun _ => hgt
  · exact playsOn_idle h ht hs hvol htime hend hplay hends fun hon => absurd hon hfades

end Mix

/-! ## Runs -/

/-- `rand () / (RAND_MAX + 1.0)` is at least `0` and below `1`. -/
structure Fractions.Proper (f : Fractions) : Prop where
  left : f.left ∈ Set.Ico 0 1
  right : f.right ∈ Set.Ico 0 1
  atEnd : f.atEnd ∈ Set.Ico 0 1

/-- What happens to a state channel. -/
inductive ChannelAct
  /-- An iteration of the loop in `mixer`. -/
  | mixer (f : Fractions) (hf : f.Proper)
  /-- `mixerSetStateSnd`. -/
  | mixerSetStateSnd (vol stereo : Set.Icc (0 : ℚ) 1) (flags : Int32)
  /-- `mixerSetFadeTime`. -/
  | mixerSetFadeTime (time : Set.Icc 0 MAX_FADE_TIME)

namespace StateChannel

/-- The assignments in `mixerSetStateSnd`. -/
def setSnd (c : StateChannel) (vol stereo : ℚ) (flags : Int32) : StateChannel :=
  { c with buf := { c.buf with vol := vol, stereoPos := stereo, filterFlag := flags } }

/-- The assignment in `mixerSetFadeTime`. -/
def setTime (c : StateChannel) (time : ℚ) : StateChannel :=
  { c with fade := { c.fade with fadeTime := time } }

/-- The channel afterwards; `none` if an access was out of range. -/
def act (c : StateChannel) : ChannelAct → Option StateChannel
  | .mixer f _ => (mixStateChannel f c).map Prod.snd
  | .mixerSetStateSnd vol stereo flags => some (c.setSnd vol stereo flags)
  | .mixerSetFadeTime time => some (c.setTime time)

/-- Every access is in range. -/
def InBounds (c : StateChannel) (a : ChannelAct) : Prop := (c.act a).isSome

/-- A channel that is heard is playable where it is. -/
def Playing (c : StateChannel) : Prop :=
  c.buf.vol ≠ 0 → ∀ s ∈ c.buf.stateSnd? c.buf.lastThreshIndex,
    Playable c c.buf.lastThreshIndex s.sndNo s.pos c.fade

/-- The segments fit: those that an iteration picks, and, after a change of the settings, those
that are being played. -/
def Fitting (c : StateChannel) : ChannelAct → Prop
  | .mixer f _ => c.buf.vol ≠ 0 → ∀ s ∈ c.buf.stateSnd? c.buf.lastThreshIndex,
    Begins c f c.buf.lastThreshIndex s.sndNo s.pos c.fade ∧
      Ends c f c.buf.lastThreshIndex s.sndNo s.pos c.fade
  | .mixerSetStateSnd vol stereo flags => (c.setSnd vol stereo flags).Playing
  | .mixerSetFadeTime time => (c.setTime time).Playing

instance : DecidablePred (InBounds c) := fun _ => inferInstanceAs (Decidable (_ = true))

instance : Decidable c.Playing := inferInstanceAs (Decidable (_ → ∀ _ ∈ _, _))

instance : DecidablePred (Fitting c)
  | .mixer .. => inferInstanceAs (Decidable (_ → ∀ _ ∈ _, _))
  | .mixerSetStateSnd .. => inferInstanceAs (Decidable (Playing _))
  | .mixerSetFadeTime .. => inferInstanceAs (Decidable (Playing _))

/-- The invariant of a run whose segments fit. -/
structure Invariant (c : StateChannel) : Prop where
  loaded : c.buf.Loaded
  vol : c.buf.vol ∈ Set.Icc 0 1
  fadeTime : 0 ≤ c.fade.fadeTime
  playing : c.Playing

end StateChannel

open StateChannel

variable {a : ChannelAct} {acts : List ChannelAct}

theorem playing_put (hs : c.buf.stateSnd? t = some s) (ht : c.buf.lastThreshIndex = t)
    (hplay : Playable c t i p fade) : (c.put t i p fade).Playing := by
  intro _ s' hs'
  rw [lastThreshIndex_put hs, ht, stateSnd?_put hs] at hs'
  obtain rfl := Option.some.inj hs'
  rw [lastThreshIndex_put hs, ht]
  obtain ⟨hp, heven, hcovered⟩ := hplay
  have hlen : (c.put t i p fade).buf.len = c.buf.len := len_put hs
  refine ⟨by rwa [hlen], by rwa [hlen], fun hfades => ?_⟩
  rw [hlen]
  exact hcovered ((filterFlag_put hs).mp hfades)

/-- An iteration of a channel that is heard. -/
theorem StateChannel.Invariant.exists_act (h : c.Invariant) (hf : f.Proper)
    (hfit : c.Fitting (.mixer f hf)) :
    ∃ samples c', mixStateChannel f c = some (samples, c') ∧ c'.Invariant := by
  by_cases hvol : c.buf.vol = 0
  · exact ⟨[], c, by rw [mixStateChannel, if_pos hvol], h⟩
  obtain ⟨s, hs, -⟩ := h.loaded.exists_stateSnd
  obtain ⟨hbegins, hends⟩ := hfit hvol s hs
  obtain ⟨samples, i', p', fade', hmix, hplay, htime⟩ := mix_playable h.loaded rfl hs hvol
    h.fadeTime hf.atEnd (h.playing hvol s hs) h.vol hf.left hbegins hends
  rw [put_self hs] at hmix
  refine ⟨samples, _, hmix, loaded_put hs h.loaded, ?_, ?_, playing_put hs rfl hplay⟩
  · rw [vol_put hs]
    exact h.vol
  · rw [fade_put, htime]
    exact h.fadeTime

/-- A step that fits keeps the invariant. -/
theorem StateChannel.Invariant.act (h : c.Invariant) (hfit : c.Fitting a)
    (hact : c.act a = some c') : c'.Invariant := by
  cases a with
  | mixer f hf =>
    obtain ⟨samples, c'', hmix, hinv⟩ := h.exists_act hf hfit
    rw [StateChannel.act, hmix] at hact
    obtain rfl := Option.some.inj hact
    exact hinv
  | mixerSetStateSnd vol stereo flags =>
    obtain rfl := Option.some.inj hact
    exact ⟨⟨h.loaded.thresh, h.loaded.stateSnd⟩, vol.2, h.fadeTime, hfit⟩
  | mixerSetFadeTime time =>
    obtain rfl := Option.some.inj hact
    exact ⟨h.loaded, h.vol, time.2.1, hfit⟩

/-- A step that fits is in range. -/
theorem StateChannel.Invariant.inBounds (h : c.Invariant) (hfit : c.Fitting a) : c.InBounds a := by
  cases a with
  | mixer f hf =>
    obtain ⟨samples, c', hmix, -⟩ := h.exists_act hf hfit
    rw [StateChannel.InBounds, StateChannel.act, hmix]
    rfl
  | mixerSetStateSnd vol stereo flags => rfl
  | mixerSetFadeTime time => rfl

/-! ## The channels of a mixer -/

section Channels

variable {n k : ℕ} {m m' : Mixer n k}

/-- **The loop over the state channels takes every channel through its own iteration.** -/
theorem mixChannels_mixState {fractions : Fin k → Fractions} {js : List (Fin k)}
    {samples : List StereoSample} (hnd : js.Nodup)
    (h : Mixer.mixChannels (Mixer.mixState fractions) js m = some (samples, m')) (j : Fin k) :
    if j ∈ js then ∃ part, mixStateChannel (fractions j) (m.states j) = some (part, m'.states j)
    else m'.states j = m.states j := by
  induction js generalizing m samples with
  | nil =>
    obtain ⟨-, rfl⟩ : [] = samples ∧ m = m' := by simpa [Mixer.mixChannels] using h
    rw [if_neg List.not_mem_nil]
  | cons i js ih =>
    obtain ⟨part, m₁, rest, hbody, hrest, -⟩ := Mixer.mixChannels_cons_eq_some.mp h
    obtain ⟨c, hc, rfl⟩ := Mixer.mixState_eq_some.mp hbody
    obtain ⟨hi, hnd⟩ := List.nodup_cons.mp hnd
    have ih := ih hnd hrest
    by_cases hij : j = i
    · subst hij
      have hj : m'.states j = Function.update m.states j c j := by rwa [if_neg hi] at ih
      rw [if_pos List.mem_cons_self, hj, Function.update_self]
      exact ⟨part, hc⟩
    · have hj : Function.update m.states i c j = m.states j := Function.update_of_ne hij ..
      simp only [hj] at ih
      simpa only [List.mem_cons, hij, false_or] using ih

/-- A frame takes every state channel through an iteration. -/
theorem mixerFrame_act {input : FrameInput n k} {frame : Frame} {j : Fin k}
    (h : m.mixerFrame input = some (frame, m')) (hf : (input.fractions j).Proper) :
    (m.states j).act (.mixer (input.fractions j) hf) = some (m'.states j) := by
  obtain ⟨m₁, hevents, hstates⟩ := Mixer.mixerFrame_eq_some.mp h
  have hkeep : m₁.states = m.states :=
    Mixer.mixChannels_invariant (I := fun m' => m'.states = m.states)
      (fun _ _ _ _ hI hbody => (Mixer.mixEvent_states hbody).trans hI) rfl hevents
  have hpart := mixChannels_mixState (List.nodup_finRange k) hstates j
  rw [if_pos (List.mem_finRange j), hkeep] at hpart
  obtain ⟨part, hpart⟩ := hpart
  rw [StateChannel.act, hpart]
  rfl

theorem byte_mem (b : UInt8) : (b.toNat / 255 : ℚ) ∈ Set.Icc 0 1 := by
  have hb : (b.toNat : ℚ) ≤ 255 := by exact_mod_cast Nat.le_of_lt_succ b.toNat_lt
  exact ⟨by positivity, (div_le_one (by norm_num)).mpr hb⟩

theorem dither_mem (b : UInt8) :
    toDouble (b.toNat / (255 / MAX_FADE_TIME) : ℚ) ∈ Set.Icc 0 MAX_FADE_TIME := by
  have hb : (b.toNat : ℚ) ≤ 255 := by exact_mod_cast Nat.le_of_lt_succ b.toNat_lt
  have hpos : 0 < MAX_FADE_TIME := by norm_num [MAX_FADE_TIME]
  have hle : (b.toNat / (255 / MAX_FADE_TIME) : ℚ) ≤ MAX_FADE_TIME := by
    rw [div_le_iff₀ (by positivity), mul_div_cancel₀ 255 hpos.ne']
    exact hb
  have hmax : toDouble MAX_FADE_TIME = MAX_FADE_TIME := toDouble_intCast (n := 2) (by norm_num)
  exact ⟨toDouble_nonneg (by positivity), (toDouble_mono hle).trans_eq hmax⟩

/-- What a `dither` does to a state channel. -/
def ditherActs (dither : UInt8) : List ChannelAct :=
  if dither ≠ 255 then [.mixerSetFadeTime ⟨_, dither_mem dither⟩] else []

/-- What an event does to the state channel that it is for. -/
def eventActs (e : Event) : List ChannelAct :=
  ditherActs e.dither ++ [.mixerSetStateSnd ⟨_, byte_mem e.vol⟩ ⟨_, byte_mem e.loc⟩ e.flags]

theorem setFade_exec {j : Fin k} {dither : UInt8} (h : setFade m j dither = some m') :
    exec StateChannel.act (m.states j) (ditherActs dither) = some (m'.states j) ∧
      ∀ i ≠ j, m'.states i = m.states i := by
  rw [setFade] at h
  rw [ditherActs]
  split_ifs at h ⊢
  · obtain ⟨⟨status, _⟩, htime, rfl⟩ := Option.map_eq_some_iff.mp h
    rw [Mixer.mixerSetFadeTime, if_pos j.2.le] at htime
    obtain ⟨hj, c, hc, rfl⟩ := Mixer.onState_eq_some.mp htime
    obtain ⟨-, rfl⟩ := Prod.mk.inj (Option.some.inj hc)
    refine ⟨?_, fun i hi => Function.update_of_ne hi ..⟩
    show some _ = some (Function.update m.states j _ j)
    rw [Function.update_self]
    rfl
  · obtain rfl := Option.some.inj h
    exact ⟨rfl, fun _ _ => rfl⟩

/-- **An event changes the settings of the channel that it is for.** -/
theorem engineIOState_exec {fuel : ℕ} {table : SoundTable SoundData} {e : Event} {name : CString}
    {entry : SoundEntry SoundData} (hname : e.sound = some name)
    (hentry : engineSoundTableRetrieve fuel table name = some (some entry))
    (h : engineIOState fuel table m e = some m') : ∃ j : Fin k, entry.data = .state j ∧
      exec StateChannel.act (m.states j) (eventActs e) = some (m'.states j) ∧
      ∀ i ≠ j, m'.states i = m.states i := by
  simp only [engineIOState, hname, engineSoundTableDataRetrieve, hentry, Option.map_some,
    Option.bind_eq_bind, Option.bind_some] at h
  cases hdata : entry.data with
  | event ev => simp [hdata] at h
  | state j =>
    simp only [hdata] at h
    obtain ⟨-, -, h⟩ := Option.bind_eq_some_iff.mp h
    obtain ⟨m₁, hfade, h⟩ := Option.bind_eq_some_iff.mp h
    obtain ⟨⟨status, _⟩, hset, rfl⟩ := Option.map_eq_some_iff.mp h
    obtain ⟨hj, c, hc, rfl⟩ := Mixer.onState_eq_some.mp hset
    obtain ⟨-, rfl⟩ := Prod.mk.inj (Option.some.inj hc)
    obtain ⟨hexec, hkeep⟩ := setFade_exec (j := ⟨j, hj⟩) hfade
    refine ⟨⟨j, hj⟩, rfl, exec_append_eq_some.mpr ⟨_, hexec, ?_⟩, fun i hi => ?_⟩
    · show some _ = some (Function.update m₁.states ⟨j, hj⟩ _ ⟨j, hj⟩)
      rw [Function.update_self]
      rfl
    · exact (Function.update_of_ne hi ..).trans (hkeep i hi)

end Channels

/-! ## The accesses of a run -/

/-- What is in range in `mixerFadeEffect`: the incoming segment and the position in it. -/
theorem filter_indices {r : ℚ} {data x : Int16} {remainder : ℤ} (h : c.buf.Loaded)
    (hfades : c.buf.Fades) (hptr : c.buf.mixerGetStateSndPtr = some t)
    (hrem : c.remainder t q = some remainder) (hlt : remainder < c.fade.fadePt)
    (hfilter : mixerApplyStateFilters r data q c = some (x, c')) :
    ∃ s, c.buf.stateSnd? c.fade.oldThresh = some s ∧ c.fade.snd < s.sndCnt ∧
      c.fade.pos < c.buf.len c.fade.oldThresh c.fade.snd := by
  rw [mixerApplyStateFilters, if_pos (show c.buf.filterFlag &&& _ ≠ 0 from hfades)] at hfilter
  obtain ⟨hnone, -⟩ | ⟨t', s, remainder', hptr', -, hrem', ⟨hle, -⟩ | ⟨-, -, new, hnew, -⟩⟩ :=
    mixerFadeEffect_cases hfilter
  · exact absurd (hptr.symm.trans hnone) (Option.some_ne_none t)
  · obtain rfl := Option.some.inj (hptr.symm.trans hptr')
    obtain rfl := Option.some.inj (hrem.symm.trans hrem')
    exact absurd hlt (not_lt.mpr hle)
  · obtain ⟨s', hs', hnew⟩ := Option.bind_eq_some_iff.mp hnew
    obtain ⟨snd?, hsnd, hnew⟩ := Option.bind_eq_some_iff.mp hnew
    obtain ⟨snd, rfl, hx⟩ := Option.bind_eq_some_iff.mp hnew
    exact ⟨s', hs', h.lt_len hs' hsnd hx⟩

/-- **What is in range in an iteration** of a channel that is heard: the segment, the position of
both samples, and what the filters for the two sides read. -/
theorem StateChannel.InBounds.indices {hf : f.Proper} (hrange : c.InBounds (.mixer f hf))
    (h : c.buf.Loaded) (hvol : c.buf.vol ≠ 0) : ∃ t s left right c₁ s₁ c₂ x y,
      c.buf.mixerGetStateSndPtr = some t ∧ c.buf.stateSnd? t = some s ∧ s.sndNo < s.sndCnt ∧
      s.pos + 1 < c.buf.len t s.sndNo ∧
      mixerApplyStateFilters f.left (c.buf.sample left right).1 s.pos c = some (x, c₁) ∧
      c₁.buf.stateSnd? t = some s₁ ∧
      mixerApplyStateFilters f.right (c.buf.sample left right).2 (s₁.pos + 1) c₁
        = some (y, c₂) := by
  obtain ⟨s, hs, hptr⟩ := h.exists_stateSnd
  rw [StateChannel.InBounds, StateChannel.act, Option.isSome_map, mixStateChannel, if_neg hvol,
    hptr, Option.isSome_iff_exists] at hrange
  obtain ⟨⟨samples, c'⟩, hmix⟩ := hrange
  simp only [hs, Option.bind_eq_bind, Option.bind_some, Option.bind_eq_some_iff] at hmix
  obtain ⟨snd?, hsnd, hmix⟩ := hmix
  obtain ⟨bufs, hbufs, hsize, hsounds⟩ := (h.stateSnd _ s hs).sounds
  obtain ⟨ys, hys, hi⟩ := deref?_eq_some_iff.mp hsnd
  obtain rfl : bufs = ys := Option.some.inj (hbufs.symm.trans hys)
  have hlt : s.sndNo < s.sndCnt := hsize ▸ (Array.getElem?_eq_some_iff.mp hi).1
  obtain ⟨snd, hsnd', -, -⟩ := hsounds s.sndNo hlt
  obtain rfl : snd? = some snd := Option.some.inj (hi.symm.trans hsnd')
  simp only [Option.bind_eq_some_iff, Prod.exists] at hmix
  obtain ⟨x, y, c₂, hproduce, -⟩ := hmix
  obtain ⟨left, right, c₁, s₁, -, hright, hx, hs₁, hy⟩ := produce_eq_some.mp hproduce
  exact ⟨_, s, left, right, c₁, s₁, c₂, x, y, hptr, hs, hlt, (h.lt_len hs hsnd hright).2, hx, hs₁,
    hy⟩

/-- **The accesses of a run are in range, if the segments fit.** A channel is silent when it is
loaded. -/
theorem along_inBounds (hloaded : c.buf.Loaded) (hvol : c.buf.vol = 0)
    (htime : c.fade.fadeTime ∈ Set.Icc 0 MAX_FADE_TIME)
    (hfit : Along StateChannel.act Fitting c acts) : Along StateChannel.act InBounds c acts := by
  have hinv : c.Invariant := by
    refine ⟨hloaded, ?_, htime.1, fun hne => absurd hvol hne⟩
    rw [hvol]
    exact ⟨le_rfl, zero_le_one⟩
  exact along_of_invariant (fun _ _ _ h hC hact => h.act hC hact) (fun _ _ h hC => h.inBounds hC)
    hinv hfit

/-- Segments of the lengths `lens`. -/
def silentSnd (lens : Array ℕ) : StateSnd where
  sndBuf := some (lens.map fun n => some (Array.replicate n 0))
  len := lens
  sndNo := 0
  pos := 0

/-- A channel with one threshold. -/
def silentChannel (lens : Array ℕ) (time : ℚ) : StateChannel where
  buf := ⟨some #[⟨0, 1, silentSnd lens⟩], 1 / 2, 0, 0⟩
  fade := ⟨time, 0, 0, 0⟩

theorem loaded_silentSnd {lens : Array ℕ} (hsize : 0 < lens.size)
    (hlens : ∀ k (hk : k < lens.size), 0 < lens[k]) : (silentSnd lens).Loaded := by
  refine ⟨hsize, _, rfl, Array.size_map, fun k (hk : k < lens.size) => ?_⟩
  refine ⟨Array.replicate lens[k] 0, ?_, Array.size_replicate, hlens k hk⟩
  rw [Array.getElem?_map, Array.getElem?_eq_getElem hk]
  rfl

theorem loaded_silentChannel {lens : Array ℕ} {time : ℚ} (hsize : 0 < lens.size)
    (hlens : ∀ k (hk : k < lens.size), 0 < lens[k]) : (silentChannel lens time).buf.Loaded := by
  refine ⟨⟨_, rfl, ⟨Nat.one_pos, le_rfl, fun t ht _ => ?_, fun t ht => ?_⟩⟩, fun t s hs => ?_⟩
  · obtain rfl : t = 0 := Nat.lt_one_iff.mp ht
    exact le_rfl
  · exact absurd ht (by simp)
  · obtain ⟨th, hth, rfl⟩ := Option.map_eq_some_iff.mp hs
    obtain ⟨ts, hts, hth⟩ := deref?_eq_some_iff.mp hth
    obtain rfl := Option.some.inj hts
    obtain ⟨ht, rfl⟩ := Array.getElem?_eq_some_iff.mp hth
    obtain rfl : t = 0 := Nat.lt_one_iff.mp ht
    exact loaded_silentSnd hsize hlens

/-- An iteration with the random fraction `r` for a fade that begins. -/
def iteration (r : Set.Ico (0 : ℚ) 1) : ChannelAct :=
  .mixer ⟨r, 0, 0⟩ ⟨r.2, ⟨le_rfl, zero_lt_one⟩, ⟨le_rfl, zero_lt_one⟩⟩

/-- A channel is heard, and its effect flag is set. -/
def heard : ChannelAct := .mixerSetStateSnd ⟨1, zero_le_one, le_rfl⟩ ⟨0, le_rfl, zero_le_one⟩ 1

/-- Two segments of eight samples, and a window of four. -/
theorem along_inBounds_eight : Along StateChannel.act InBounds (silentChannel #[8, 8] (4 / 88200))
    (heard :: List.replicate 9 (iteration ⟨1 / 2, by norm_num, by norm_num⟩)) :=
  along_inBounds (loaded_silentChannel (by decide) (by decide)) rfl
    ⟨by norm_num [silentChannel], by norm_num [silentChannel, MAX_FADE_TIME]⟩ (by decide +kernel)

/-- The fade time of the `dither` `1`. -/
def dithered : ChannelAct := .mixerSetFadeTime ⟨2 / 255, by norm_num, by norm_num [MAX_FADE_TIME]⟩

/-- A `dither` of `1` is a window of `692` samples, and the second segment is over before it is. It
is picked where the fade begins, and the third of its two samples is read in the next iteration. -/
theorem not_along_inBounds :
    ((silentChannel #[692, 2] 0).buf.Loaded ∧ (silentChannel #[692, 2] 0).buf.vol = 0 ∧
      (silentChannel #[692, 2] 0).fade.fadeTime ∈ Set.Icc 0 MAX_FADE_TIME) ∧
    ¬ Along StateChannel.act InBounds (silentChannel #[692, 2] 0)
      (dithered :: heard :: List.replicate 2 (iteration ⟨1 / 2, by norm_num, by norm_num⟩)) :=
  ⟨⟨loaded_silentChannel (by decide) (by decide), rfl, le_rfl, by norm_num [silentChannel,
    MAX_FADE_TIME]⟩, by decide +kernel⟩

end Peep
