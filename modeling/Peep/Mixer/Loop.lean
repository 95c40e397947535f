import Peep.Mixer
import Mathlib.Data.List.FinRange

/-!
# The loop of the mixer

One iteration of the loop in `mixer` computes two samples of output, one for each side. It goes
through the event channels and then through the state channels, and adds what each contributes. An
event channel whose sound is done is cleared, and given an event from the mixer queue if there is
one. A state channel whose segment is done picks another one at random; with its effect flag set,
`mixerFadeEffect` mixes the beginning of the next segment into the end of the current one.

An iteration is a function of the tables and of what comes from outside: `FrameInput` has the
random fractions, and what `mixerAddOldEvent` finds in the queue. It returns the contributions in
the order in which they are added to the output, so that partial sums can be talked about.

`mixerApplyEventFilters` has no filters: its loop runs from `1` to `MAX_EVENT_FLAG`, which is `1`.

## Main results

* `mixEvent_cases`, `mixStateChannel_cases`, `mixerFadeEffect_cases` — what a channel's turn does
* `Mixer.mixChannels_invariant`, `Mixer.mixChannels_local` — the induction over the channels
-/

namespace Peep

open Double (toDouble)
open Pcm

variable {n k : ℕ}

/-! ## The fade effect -/

/-- `fade_pt` in `mixerFadeEffect`; both products are rounded before the conversion to `int`. -/
def FadeRec.fadePt (f : FadeRec) : ℤ :=
  let p := truncate (toDouble (toDouble (f.fadeTime * STEREO) * SAMPLE_RATE))
  p + p.tmod 2

-- the exact product is below `1323`
example : FadeRec.fadePt ⟨toDouble (15 / 1000), 0, 0, 0⟩ = 1324 := by decide +kernel

namespace StateChannel

/-- `remainder` in `mixerFadeEffect`. -/
def remainder (c : StateChannel) (t : ℕ) (pos : ℕ) : Option ℤ := do
  let s ← c.buf.stateSnd? t
  let len ← s.len[s.sndNo]?
  some (len - pos)

/-- The weight `stereo * vol * STATE_MULT` of the incoming segment in `mixerFadeEffect`. -/
def newWeight (c : StateChannel) (s : StateSnd) : ℚ :=
  (if s.pos % 2 = 0 then c.buf.stereoPos else 1 - c.buf.stereoPos) * c.buf.vol * STATE_MULT

/-- The sample of the incoming segment in `mixerFadeEffect`. -/
def incoming? (c : StateChannel) : Option Int16 := do
  let s ← c.buf.stateSnd? c.fade.oldThresh
  let snd ← deref? s.sndBuf c.fade.snd
  let snd ← snd
  snd[c.fade.pos]?

/-- The end of `mixerFadeEffect`: the position in the incoming segment moves on, and the segment
becomes the current one when the outgoing one ends. -/
def fadeOn (c : StateChannel) (t : ℕ) (s : StateSnd) : Option StateChannel := do
  let fade := { c.fade with pos := c.fade.pos + 1 }
  let len ← s.len[s.sndNo]?
  if len ≤ s.pos + STEREO then
    some ⟨c.buf.setStateSnd t { s with sndNo := fade.snd, pos := fade.pos }, fade⟩
  else some ⟨c.buf, fade⟩

end StateChannel

/-- `mixerFadeEffect`; `r` is the random fraction for the next segment. -/
def mixerFadeEffect (r : ℚ) (data : Int16) (pos : ℕ) (c : StateChannel) :
    Option (Int16 × StateChannel) :=
  match c.buf.mixerGetStateSndPtr with
  | none => some (0, c)
  | some t => do
    let s ← c.buf.stateSnd? t
    let remainder ← c.remainder t pos
    if c.fade.fadePt < remainder then some (data, c)
    else if remainder = c.fade.fadePt then
      -- start a new fade with a random segment of the threshold
      let old ← c.buf.mixerGetStateThreshIndex
      some (data, { c with
        fade := { c.fade with
          snd := mixerPickRndStateSnd c.buf r, pos := s.pos % 2, oldThresh := old } })
    else
      let mul : ℚ := remainder / c.fade.fadePt
      let new ← c.incoming?
      let c' ← c.fadeOn t s
      some (toShort (data.toInt * mul + new.toInt * c.newWeight s * (1 - mul)), c')

/-- `mixerApplyStateFilters`. -/
def mixerApplyStateFilters (r : ℚ) (data : Int16) (pos : ℕ) (c : StateChannel) :
    Option (Int16 × StateChannel) :=
  if c.buf.filterFlag &&& STATE_LINEAR_FADE_FLAG ≠ 0 then mixerFadeEffect r data pos c
  else some (data, c)

/-! ## The loop -/

/-- What a channel adds to the two output samples, left and right. -/
abbrev StereoSample := Int16 × Int16

/-- The random fractions of the three places that call `rand` for a state channel. -/
structure Fractions where
  /-- In `mixerFadeEffect` for the left side. -/
  left : ℚ
  /-- In `mixerFadeEffect` for the right side. -/
  right : ℚ
  /-- At the end of the segment. -/
  atEnd : ℚ

/-- What an iteration of the loop takes from outside the mixer. -/
structure FrameInput (n k : ℕ) where
  /-- What `mixerAddOldEvent` hands to `mixerAddEvent` if the channel is done. There is nothing if
  the queue is empty or the event has expired. -/
  old : Fin n → Option EventArgs
  /-- The random fractions. -/
  fractions : Fin k → Fractions

/-- `eleft` and `eright`. -/
def EventBuf.sample (b : EventBuf) (mul : ℚ) (left right : Int16) : StereoSample :=
  (toShort (left.toInt * mul * EVENT_MULT * b.stereoPos),
    toShort (right.toInt * mul * EVENT_MULT * (1 - b.stereoPos)))

/-- `sleft` and `sright`, before the filters. -/
def StateBuf.sample (b : StateBuf) (left right : Int16) : StereoSample :=
  (toShort (b.vol * b.stereoPos * STATE_MULT * left.toInt),
    toShort (b.vol * (1 - b.stereoPos) * STATE_MULT * right.toInt))

namespace Mixer

/-- `ebuffs[j].pos += STEREO`. -/
def advance (m : Mixer n k) (j : Fin n) : Mixer n k :=
  { m with
    ebuffs := Function.update m.ebuffs j
      { m.ebuffs j with pos := (m.ebuffs j).pos + STEREO } }

/-- The clean-up after a sound that is done, with a sound from the queue in its place. -/
def finish (m : Mixer n k) (old : Option EventArgs) (j : Fin n) : Mixer n k :=
  match old with
  | none => m.mixerRemoveEvent j
  | some args => ((m.mixerRemoveEvent j).mixerAddEvent args j).2

/-- The body of the loop over the event channels. -/
def mixEvent (old : Fin n → Option EventArgs) (j : Fin n) (m : Mixer n k) :
    Option (List StereoSample × Mixer n k) :=
  match (m.ebuffs j).sndBuf with
  | none => some ([], m)
  | some snd => do
    let left ← snd[(m.ebuffs j).pos]?
    let right ← snd[(m.ebuffs j).pos + 1]?
    let sample := (m.ebuffs j).sample (m.dynMul j) left right
    if (m.ebuffs j).pos + STEREO = (m.ebuffs j).len then
      some ([sample], (m.advance j).finish (old j) j)
    else some ([sample], m.advance j)

end Mixer

/-- The end of the loop body for a state channel: `state_snd->pos += STEREO`, and the choice of
the next segment. -/
def StateChannel.advance (c : StateChannel) (t : ℕ) (r : ℚ) : Option StateChannel := do
  let s ← c.buf.stateSnd? t
  let len ← s.len[s.sndNo]?
  let pos := s.pos + STEREO
  if len ≤ pos then
    some { c with
      buf := c.buf.setStateSnd t { s with sndNo := mixerPickRndStateSnd c.buf r, pos := 0 } }
  else some { c with buf := c.buf.setStateSnd t { s with pos := pos } }

/-- The part of the loop body that produces the two samples of a state channel. -/
def StateChannel.produce (f : Fractions) (c : StateChannel) (t : ℕ) (s : StateSnd) (snd : Sound) :
    Option (StereoSample × StateChannel) := do
  let left ← snd[s.pos]?
  let right ← snd[s.pos + 1]?
  let sample := c.buf.sample left right
  let (sleft, c) ← mixerApplyStateFilters f.left sample.1 s.pos c
  -- the filter for the left side may have moved `state_snd->pos`
  let s ← c.buf.stateSnd? t
  let (sright, c) ← mixerApplyStateFilters f.right sample.2 (s.pos + 1) c
  some ((sleft, sright), c)

/-- The body of the loop over the state channels. -/
def mixStateChannel (f : Fractions) (c : StateChannel) :
    Option (List StereoSample × StateChannel) :=
  if c.buf.vol = 0 then some ([], c)
  else match c.buf.mixerGetStateSndPtr with
    | none => some ([], c)
    | some t => do
      let s ← c.buf.stateSnd? t
      let snd ← deref? s.sndBuf s.sndNo
      match snd with
      | none => some ([], c)
      | some snd => do
        let (sample, c) ← c.produce f t s snd
        let c ← c.advance t f.atEnd
        some ([sample], c)

namespace Mixer

/-- The body of the loop over the state channels, in the mixer. -/
def mixState (fractions : Fin k → Fractions) (j : Fin k) (m : Mixer n k) :
    Option (List StereoSample × Mixer n k) := do
  let (samples, c) ← mixStateChannel (fractions j) (m.states j)
  some (samples, { m with states := Function.update m.states j c })

/-- A loop over channels, which collects what they add to the output. -/
def mixChannels {ι : Type} (body : ι → Mixer n k → Option (List StereoSample × Mixer n k)) :
    List ι → Mixer n k → Option (List StereoSample × Mixer n k)
  | [], m => some ([], m)
  | j :: js, m => do
    let (samples, m) ← body j m
    let (rest, m) ← mixChannels body js m
    some (samples ++ rest, m)

end Mixer

/-- What the channels add to the two output samples of one iteration, in the order in which they
do. -/
structure Frame where
  /-- The event channels. -/
  events : List StereoSample
  /-- The state channels. -/
  states : List StereoSample

/-- What is added to `output[i]`. -/
def Frame.left (f : Frame) : List Int16 := (f.events ++ f.states).map Prod.fst

/-- What is added to `output[i + 1]`. -/
def Frame.right (f : Frame) : List Int16 := (f.events ++ f.states).map Prod.snd

/-- `output[i]` and `output[i + 1]`, which begin at `0` and wrap. -/
def Frame.output (f : Frame) : StereoSample :=
  (f.left.foldl (· + ·) 0, f.right.foldl (· + ·) 0)

namespace Mixer

/-- One iteration of the loop in `mixer`. -/
def mixerFrame (input : FrameInput n k) (m : Mixer n k) : Option (Frame × Mixer n k) := do
  let (events, m) ← mixChannels (mixEvent input.old) (List.finRange n) m
  let (states, m) ← mixChannels (mixState input.fractions) (List.finRange k) m
  some (⟨events, states⟩, m)

/-- `mixer`: `chunk_size / STEREO` iterations. -/
def mixer : List (FrameInput n k) → Mixer n k → Option (List Frame × Mixer n k)
  | [], m => some ([], m)
  | input :: inputs, m => do
    let (frame, m) ← m.mixerFrame input
    let (frames, m) ← m.mixer inputs
    some (frame :: frames, m)

end Mixer

/-! ## Fades -/

/-- **What `mixerFadeEffect` does** with a sample: nothing outside a fade, nothing where a fade
starts, and a mix of two samples within one. -/
theorem mixerFadeEffect_cases {r : ℚ} {data x : Int16} {pos : ℕ} {c c' : StateChannel}
    (h : mixerFadeEffect r data pos c = some (x, c')) :
    (c.buf.mixerGetStateSndPtr = none ∧ x = 0 ∧ c' = c) ∨
      ∃ t s remainder, c.buf.mixerGetStateSndPtr = some t ∧ c.buf.stateSnd? t = some s ∧
        c.remainder t pos = some remainder ∧
        ((c.fade.fadePt ≤ remainder ∧ x = data ∧ c'.buf = c.buf) ∨
          (remainder < c.fade.fadePt ∧ c.fadeOn t s = some c' ∧ ∃ new, c.incoming? = some new ∧
            x = toShort (data.toInt * ((remainder : ℚ) / c.fade.fadePt)
              + new.toInt * c.newWeight s * (1 - (remainder : ℚ) / c.fade.fadePt)))) := by
  rw [mixerFadeEffect] at h
  cases ht : c.buf.mixerGetStateSndPtr with
  | none =>
    simp only [ht, Option.some.injEq, Prod.mk.injEq] at h
    exact .inl ⟨rfl, h.1.symm, h.2.symm⟩
  | some t =>
    simp only [ht, Option.bind_eq_bind, Option.bind_eq_some_iff] at h
    obtain ⟨s, hs, remainder, hrem, h⟩ := h
    refine .inr ⟨t, s, remainder, rfl, hs, hrem, ?_⟩
    split_ifs at h with hlt heq
    · obtain ⟨rfl, rfl⟩ := Prod.mk.inj (Option.some.inj h)
      exact .inl ⟨hlt.le, rfl, rfl⟩
    · obtain ⟨old, -, h⟩ := Option.bind_eq_some_iff.mp h
      obtain ⟨rfl, rfl⟩ := Prod.mk.inj (Option.some.inj h)
      exact .inl ⟨heq.ge, rfl, rfl⟩
    · obtain ⟨new, hnew, h⟩ := Option.bind_eq_some_iff.mp h
      obtain ⟨c'', hon, h⟩ := Option.bind_eq_some_iff.mp h
      obtain ⟨rfl, rfl⟩ := Prod.mk.inj (Option.some.inj h)
      exact .inr ⟨lt_of_le_of_ne (not_lt.mp hlt) heq, hon, new, hnew, rfl⟩

/-- What the engine sets of a state channel. -/
def StateBuf.settings (b : StateBuf) : ℚ × ℚ × Int32 := (b.vol, b.stereoPos, b.filterFlag)

@[simp] theorem StateBuf.settings_setStateSnd (b : StateBuf) (t : ℕ) (s : StateSnd) :
    (b.setStateSnd t s).settings = b.settings := rfl

theorem StateChannel.fadeOn_settings {c c' : StateChannel} {t : ℕ} {s : StateSnd}
    (h : c.fadeOn t s = some c') : c'.buf.settings = c.buf.settings := by
  obtain ⟨len, -, h⟩ := Option.bind_eq_some_iff.mp h
  split_ifs at h <;> obtain rfl := Option.some.inj h
  · exact StateBuf.settings_setStateSnd ..
  · rfl

/-- A filter leaves the settings alone. -/
theorem mixerApplyStateFilters_settings {r : ℚ} {data x : Int16} {pos : ℕ} {c c' : StateChannel}
    (h : mixerApplyStateFilters r data pos c = some (x, c')) :
    c'.buf.settings = c.buf.settings := by
  rw [mixerApplyStateFilters] at h
  split_ifs at h
  · obtain ⟨-, -, rfl⟩ | ⟨t, s, remainder, -, -, -, ⟨-, -, hbuf⟩ | ⟨-, hon, -⟩⟩ :=
      mixerFadeEffect_cases h
    · rfl
    · rw [hbuf]
    · exact c.fadeOn_settings hon
  · obtain ⟨-, rfl⟩ := Prod.mk.inj (Option.some.inj h)
    rfl

/-- The fade moves on in the same way for every sample. -/
theorem mixerApplyStateFilters_snd (r : ℚ) (data data' : Int16) (pos : ℕ) (c : StateChannel) :
    (mixerApplyStateFilters r data pos c).map Prod.snd
      = (mixerApplyStateFilters r data' pos c).map Prod.snd := by
  simp only [mixerApplyStateFilters]
  split_ifs
  · simp only [mixerFadeEffect]
    cases c.buf.mixerGetStateSndPtr with
    | none => rfl
    | some t =>
      simp only [Option.bind_eq_bind, Option.map_bind]
      congr 1
      funext s
      simp only [Function.comp_apply, Option.map_bind]
      congr 1
      funext remainder
      split_ifs
      · rfl
      · simp [Option.map_bind]
      · simp [Option.map_bind]
  · rfl

/-- **The two samples of a state channel**: those of the segment, each after the filter for its
side. -/
theorem StateChannel.produce_eq_some {f : Fractions} {c c' : StateChannel} {t : ℕ} {s : StateSnd}
    {snd : Sound} {sample : StereoSample} : c.produce f t s snd = some (sample, c') ↔
      ∃ left right c₁ s₁, snd[s.pos]? = some left ∧ snd[s.pos + 1]? = some right ∧
        mixerApplyStateFilters f.left (c.buf.sample left right).1 s.pos c = some (sample.1, c₁) ∧
        c₁.buf.stateSnd? t = some s₁ ∧
        mixerApplyStateFilters f.right (c.buf.sample left right).2 (s₁.pos + 1) c₁
          = some (sample.2, c') := by
  simp only [produce, Option.bind_eq_bind, Option.bind_eq_some_iff, Prod.exists,
    Option.some.injEq, Prod.mk.injEq]
  constructor
  · rintro ⟨left, hl, right, hr, x, c₁, h₁, s₁, hs, y, c₂, h₂, rfl, rfl⟩
    exact ⟨left, right, c₁, s₁, hl, hr, h₁, hs, h₂⟩
  · rintro ⟨left, right, c₁, s₁, hl, hr, h₁, hs, h₂⟩
    exact ⟨left, hl, right, hr, sample.1, c₁, h₁, s₁, hs, sample.2, c', h₂, rfl, rfl⟩

theorem StateChannel.produce_settings {f : Fractions} {c c' : StateChannel} {t : ℕ} {s : StateSnd}
    {snd : Sound} {sample : StereoSample} (h : c.produce f t s snd = some (sample, c')) :
    c'.buf.settings = c.buf.settings := by
  obtain ⟨left, right, c₁, s₁, -, -, h₁, -, h₂⟩ := produce_eq_some.mp h
  exact (mixerApplyStateFilters_settings h₂).trans (mixerApplyStateFilters_settings h₁)

theorem StateChannel.advance_settings {c c' : StateChannel} {t : ℕ} {r : ℚ}
    (h : c.advance t r = some c') : c'.buf.settings = c.buf.settings := by
  obtain ⟨s, -, h⟩ := Option.bind_eq_some_iff.mp h
  obtain ⟨len, -, h⟩ := Option.bind_eq_some_iff.mp h
  dsimp only at h
  split_ifs at h <;> obtain rfl := Option.some.inj h <;> exact StateBuf.settings_setStateSnd ..

/-- **A turn of a state channel**: nothing for one that is skipped, and otherwise one sample. -/
theorem mixStateChannel_cases {f : Fractions} {c c' : StateChannel} {samples : List StereoSample}
    (h : mixStateChannel f c = some (samples, c')) :
    (samples = [] ∧ c' = c) ∨ ∃ t s snd sample c₁, c.buf.vol ≠ 0 ∧
      c.buf.mixerGetStateSndPtr = some t ∧ c.buf.stateSnd? t = some s ∧
      deref? s.sndBuf s.sndNo = some (some snd) ∧ c.produce f t s snd = some (sample, c₁) ∧
      c₁.advance t f.atEnd = some c' ∧ samples = [sample] := by
  rw [mixStateChannel] at h
  split_ifs at h with hvol
  · obtain ⟨rfl, rfl⟩ := Prod.mk.inj (Option.some.inj h)
    exact .inl ⟨rfl, rfl⟩
  cases ht : c.buf.mixerGetStateSndPtr with
  | none =>
    simp only [ht, Option.some.injEq, Prod.mk.injEq] at h
    exact .inl ⟨h.1.symm, h.2.symm⟩
  | some t =>
    simp only [ht, Option.bind_eq_bind, Option.bind_eq_some_iff] at h
    obtain ⟨s, hs, snd, hsnd, h⟩ := h
    cases snd with
    | none =>
      simp only [Option.some.injEq, Prod.mk.injEq] at h
      exact .inl ⟨h.1.symm, h.2.symm⟩
    | some snd =>
      simp only [Option.bind_eq_some_iff, Prod.exists, Option.some.injEq, Prod.mk.injEq] at h
      obtain ⟨x, y, c₁, hprod, c₂, hadv, rfl, rfl⟩ := h
      exact .inr ⟨t, s, snd, (x, y), c₁, hvol, rfl, hs, hsnd, hprod, hadv, rfl⟩

theorem mixStateChannel_settings {f : Fractions} {c c' : StateChannel}
    {samples : List StereoSample} (h : mixStateChannel f c = some (samples, c')) :
    c'.buf.settings = c.buf.settings := by
  obtain ⟨-, rfl⟩ | ⟨t, s, snd, sample, c₁, -, -, -, -, hprod, hadv, -⟩ := mixStateChannel_cases h
  · rfl
  · exact (StateChannel.advance_settings hadv).trans (StateChannel.produce_settings hprod)

namespace Mixer

/-! ## The loops over channels -/

section Loops

variable {ι : Type} {body : ι → Mixer n k → Option (List StereoSample × Mixer n k)} {js : List ι}
  {m m' : Mixer n k} {samples : List StereoSample}

theorem mixChannels_cons_eq_some {j : ι} : mixChannels body (j :: js) m = some (samples, m') ↔
    ∃ s m₁ rest, body j m = some (s, m₁) ∧ mixChannels body js m₁ = some (rest, m') ∧
      s ++ rest = samples := by
  simp only [mixChannels, Option.bind_eq_bind, Option.bind_eq_some_iff, Prod.exists,
    Option.some.injEq, Prod.mk.injEq]
  constructor
  · rintro ⟨s, m₁, h, rest, m₂, h', rfl, rfl⟩
    exact ⟨s, m₁, rest, h, h', rfl⟩
  · rintro ⟨s, m₁, rest, h, h', rfl⟩
    exact ⟨s, m₁, h, rest, m', h', rfl, rfl⟩

/-- What the body preserves for every channel, the loop preserves. -/
theorem mixChannels_invariant {I : Mixer n k → Prop}
    (hI : ∀ j m s m', I m → body j m = some (s, m') → I m') (hm : I m)
    (h : mixChannels body js m = some (samples, m')) : I m' := by
  induction js generalizing m samples with
  | nil =>
    obtain ⟨-, rfl⟩ : [] = samples ∧ m = m' := by simpa [mixChannels] using h
    exact hm
  | cons j js ih =>
    obtain ⟨s, m₁, rest, hbody, hrest, -⟩ := mixChannels_cons_eq_some.mp h
    exact ih (hI j m s m₁ hm hbody) hrest

/-- **The loop, channel by channel.** If `R i` says something of channel `i` that the body for
another channel leaves alone, and if it gives `Q i` of the samples of channel `i`, then the loop's
samples are made of parts, one for each channel, that satisfy `Q`. -/
theorem mixChannels_local {R : ι → Mixer n k → Prop} {Q : ι → List StereoSample → Prop}
    (hQ : ∀ j m s m', R j m → body j m = some (s, m') → Q j s)
    (hR : ∀ i j m s m', i ≠ j → R i m → body j m = some (s, m') → R i m') (hnd : js.Nodup)
    (hm : ∀ j ∈ js, R j m) (h : mixChannels body js m = some (samples, m')) :
    ∃ parts : List (List StereoSample), samples = parts.flatten ∧ List.Forall₂ Q js parts := by
  induction js generalizing m samples with
  | nil =>
    obtain ⟨rfl, -⟩ : [] = samples ∧ m = m' := by simpa [mixChannels] using h
    exact ⟨[], rfl, .nil⟩
  | cons j js ih =>
    obtain ⟨s, m₁, rest, hbody, hrest, rfl⟩ := mixChannels_cons_eq_some.mp h
    obtain ⟨hj, hnd⟩ := List.nodup_cons.mp hnd
    have hm₁ : ∀ i ∈ js, R i m₁ := fun i hi =>
      hR i j m s m₁ (by rintro rfl; exact hj hi) (hm i (List.mem_cons_of_mem _ hi)) hbody
    obtain ⟨parts, rfl, hparts⟩ := ih hnd hm₁ hrest
    exact ⟨s :: parts, rfl, .cons (hQ j m s m₁ (hm j List.mem_cons_self) hbody) hparts⟩

end Loops

/-! ## One channel's turn -/

variable {m m' : Mixer n k} {samples : List StereoSample} {j : Fin n}

/-- **A turn of an event channel**: nothing for an idle one, and otherwise one sample of the sound,
after which the position moves on or the sound is done. -/
theorem mixEvent_cases {old : Fin n → Option EventArgs}
    (h : mixEvent old j m = some (samples, m')) :
    ((m.ebuffs j).sndBuf = none ∧ samples = [] ∧ m' = m) ∨
      ∃ snd left right, (m.ebuffs j).sndBuf = some snd ∧ snd[(m.ebuffs j).pos]? = some left ∧
        snd[(m.ebuffs j).pos + 1]? = some right ∧
        samples = [(m.ebuffs j).sample (m.dynMul j) left right] ∧
        (m' = m.advance j ∨ m' = (m.advance j).finish (old j) j) := by
  rw [mixEvent] at h
  cases hsnd : (m.ebuffs j).sndBuf with
  | none =>
    simp only [hsnd, Option.some.injEq, Prod.mk.injEq] at h
    exact .inl ⟨rfl, h.1.symm, h.2.symm⟩
  | some snd =>
    simp only [hsnd, Option.bind_eq_bind, Option.bind_eq_some_iff] at h
    obtain ⟨left, hleft, right, hright, h⟩ := h
    refine .inr ⟨snd, left, right, rfl, hleft, hright, ?_⟩
    split_ifs at h <;> obtain ⟨rfl, rfl⟩ := Prod.mk.inj (Option.some.inj h)
    · exact ⟨rfl, .inr rfl⟩
    · exact ⟨rfl, .inl rfl⟩

/-- A turn of one event channel leaves the others as they are. -/
theorem mixEvent_of_ne {old : Fin n → Option EventArgs} {i : Fin n} (hij : i ≠ j)
    (h : mixEvent old j m = some (samples, m')) :
    m'.ebuffs i = m.ebuffs i ∧ m'.dynMul i = m.dynMul i := by
  obtain ⟨-, -, rfl⟩ | ⟨snd, left, right, -, -, -, -, rfl | rfl⟩ := mixEvent_cases h
  · exact ⟨rfl, rfl⟩
  · simp [advance, hij]
  · cases old j with
    | none => simp [finish, mixerRemoveEvent, advance, hij]
    | some args =>
      simp only [finish, mixerAddEvent]
      split_ifs <;> simp [start, occupy, mixerRemoveEvent, advance, hij]

/-- A turn of an event channel leaves the state channels as they are. -/
theorem mixEvent_states {old : Fin n → Option EventArgs}
    (h : mixEvent old j m = some (samples, m')) : m'.states = m.states := by
  obtain ⟨-, -, rfl⟩ | ⟨snd, left, right, -, -, -, -, rfl | rfl⟩ := mixEvent_cases h
  · rfl
  · rfl
  · cases old j with
    | none => rfl
    | some args =>
      simp only [finish, mixerAddEvent]
      split_ifs <;> rfl

/-- A turn of a state channel is a turn of that channel alone. -/
theorem mixState_eq_some {fractions : Fin k → Fractions} {i : Fin k} :
    mixState fractions i m = some (samples, m') ↔ ∃ c,
      mixStateChannel (fractions i) (m.states i) = some (samples, c) ∧
        m' = { m with states := Function.update m.states i c } := by
  simp only [mixState, Option.bind_eq_bind, Option.bind_eq_some_iff, Prod.exists,
    Option.some.injEq, Prod.mk.injEq]
  constructor
  · rintro ⟨s, c, h, rfl, rfl⟩
    exact ⟨c, h, rfl⟩
  · rintro ⟨c, h, rfl⟩
    exact ⟨samples, c, h, rfl, rfl⟩

/-- A turn of a state channel leaves the event channels as they are. -/
theorem mixState_events {fractions : Fin k → Fractions} {i : Fin k}
    (h : mixState fractions i m = some (samples, m')) :
    m'.ebuffs = m.ebuffs ∧ m'.dynMul = m.dynMul ∧ m'.dynBufCnt = m.dynBufCnt := by
  obtain ⟨c, -, rfl⟩ := mixState_eq_some.mp h
  exact ⟨rfl, rfl, rfl⟩

/-- One iteration is the loop over the event channels and then that over the state channels. -/
theorem mixerFrame_eq_some {input : FrameInput n k} {frame : Frame} :
    m.mixerFrame input = some (frame, m') ↔ ∃ m₁,
      mixChannels (mixEvent input.old) (List.finRange n) m = some (frame.events, m₁) ∧
      mixChannels (mixState input.fractions) (List.finRange k) m₁ = some (frame.states, m') := by
  simp only [mixerFrame, Option.bind_eq_bind, Option.bind_eq_some_iff, Prod.exists,
    Option.some.injEq, Prod.mk.injEq]
  constructor
  · rintro ⟨events, m₁, he, states, m₂, hs, rfl, rfl⟩
    exact ⟨m₁, he, hs⟩
  · rintro ⟨m₁, he, hs⟩
    exact ⟨frame.events, m₁, he, frame.states, m', hs, rfl, rfl⟩

end Mixer

end Peep
