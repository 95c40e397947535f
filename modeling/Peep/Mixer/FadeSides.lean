import Peep.Mixer.Indices

/-!
# The sides of a fade

A segment has the samples for the left side at the even offsets and those for the right side at the
odd ones. Within a fade `mixerFadeEffect` is called for the left and for the right sample of an
iteration, and each call takes the next sample of the incoming segment. The weight of that sample
is `stereo_pos` or `1 - stereo_pos`, as `state_snd->pos` is even or odd; but `state_snd->pos` is the
same for both calls.

Where the fade begins, the call for the left side only prepares it, so the call for the right side
takes the first sample of the incoming segment, and the sides are exchanged from there. Where it
ends, the call for the left side makes the incoming segment the current one, at the position behind
the sample it took.

## Main results

* `apply_of_mixes`, `apply_of_not_mixes` — what an output sample is formed from
* `aligned_iff_sidesKept` — the iterations that keep the sides apart
* `along_aligned_iff` — the runs that do
-/

namespace Peep

open Pcm StepSystem

variable {c c₁ c₂ c' : StateChannel} {t p q len : ℕ} {s s₁ : StateSnd} {f : Fractions} {r : ℚ}
  {data x : Int16}

/-! ## Sides -/

/-- A side of the output. -/
inductive Side
  /-- The left side. -/
  | left
  /-- The right side. -/
  | right

/-- The offsets of its samples are even or odd. -/
def Side.parity : Side → ℕ
  | .left => 0
  | .right => 1

/-- The weight of its samples. -/
def Side.weight (b : StateBuf) : Side → ℚ
  | .left => b.stereoPos
  | .right => 1 - b.stereoPos

namespace StateChannel

/-- `stereo` in `mixerFadeEffect`. -/
def stereo (c : StateChannel) (s : StateSnd) : ℚ :=
  if s.pos % 2 = 0 then c.buf.stereoPos else 1 - c.buf.stereoPos

/-- The filter for the sample at the position `q` mixes in a sample of the incoming segment. -/
def Mixes (c : StateChannel) (t q : ℕ) : Prop :=
  c.buf.Fades ∧ ∃ remainder ∈ c.remainder t q, remainder < c.fade.fadePt

/-- The filter makes the incoming segment the current one. -/
def FadeOver (c : StateChannel) (t : ℕ) (s : StateSnd) (q : ℕ) : Prop :=
  c.Mixes t q ∧ ∃ len ∈ s.len[s.sndNo]?, len ≤ s.pos + STEREO

/-- A sample is mixed from samples of one side: the sample of the outgoing segment at `offset`,
which has the weight of the side, and a sample of the incoming segment with the same weight. -/
def OnSide (c : StateChannel) (side : Side) (s : StateSnd) (offset : ℕ) : Prop :=
  offset % 2 = side.parity ∧ c.fade.pos % 2 = side.parity ∧ c.stereo s = side.weight c.buf

/-- **An iteration of a channel that is heard**: from `c` the filter for the left side leads to
`c₁`, that for the right side to `c₂`, and the end of the loop body to `c'`. -/
structure Iteration (f : Fractions) (c c₁ c₂ c' : StateChannel) (t : ℕ) (s s₁ : StateSnd) :
    Prop where
  /-- The volume is not zero. -/
  heard : c.buf.vol ≠ 0
  /-- The threshold that is played. -/
  ptr : c.buf.mixerGetStateSndPtr = some t
  /-- Its segments. -/
  current : c.buf.stateSnd? t = some s
  /-- The two samples of the current segment. -/
  sound : ∃ snd left right, deref? s.sndBuf s.sndNo = some (some snd) ∧ snd[s.pos]? = some left ∧
    snd[s.pos + 1]? = some right ∧
    (∃ x, mixerApplyStateFilters f.left (c.buf.sample left right).1 s.pos c = some (x, c₁)) ∧
    ∃ y, mixerApplyStateFilters f.right (c.buf.sample left right).2 (s₁.pos + 1) c₁ = some (y, c₂)
  /-- The filter for the left side may have moved the position. -/
  between : c₁.buf.stateSnd? t = some s₁
  /-- The end of the loop body. -/
  next : c₂.advance t f.atEnd = some c'

/-- What an iteration mixes is mixed from samples of one side, and a fade that ends leaves the
channel at an even offset. -/
def Apart (c c₁ c' : StateChannel) (t : ℕ) (s s₁ : StateSnd) : Prop :=
  (c.Mixes t s.pos → c.OnSide .left s s.pos) ∧
    (c₁.Mixes t (s₁.pos + 1) → c₁.OnSide .right s₁ (s.pos + 1)) ∧
    (c.FadeOver t s s.pos ∨ c₁.FadeOver t s₁ (s₁.pos + 1) →
      ∀ s' ∈ c'.buf.stateSnd? t, s'.pos % 2 = 0)

/-- The sides are kept apart in a step. -/
def Aligned (c : StateChannel) : ChannelAct → Prop
  | .mixer f _ => ∀ c₁ c₂ c' t s s₁, Iteration f c c₁ c₂ c' t s s₁ → Apart c c₁ c' t s s₁
  | _ => True

/-- The position in the current segment, of which there are `len` samples, is before the fade; or
the fade does not begin here, the sides are not exchanged, and either both have the same weight or
the incoming segment ends with the fade. -/
def SidesKept (c : StateChannel) (s : StateSnd) (len : ℕ) : Prop :=
  c.fade.fadePt < (len : ℤ) - s.pos ∨
    ((len : ℤ) - s.pos < c.fade.fadePt ∧ s.pos % 2 = 0 ∧ c.fade.pos % 2 = 0 ∧
      if s.pos + STEREO < len then c.buf.stereoPos = 1 / 2
      else ∀ len' ∈ s.len[c.fade.snd]?, len' ≤ c.fade.pos + 3)

/-- An iteration that is in range, of a channel that is heard and has its effect flag set, meets
`SidesKept`. -/
def Keeps (c : StateChannel) : ChannelAct → Prop
  | .mixer f hf => c.InBounds (.mixer f hf) → c.buf.vol ≠ 0 → c.buf.Fades →
      ∀ t ∈ c.buf.mixerGetStateSndPtr, ∀ s ∈ c.buf.stateSnd? t,
        ∀ snd ∈ deref? s.sndBuf s.sndNo, snd.isSome → ∀ len ∈ s.len[s.sndNo]?, c.SidesKept s len
  | _ => True

instance : Decidable (c.SidesKept s len) := inferInstanceAs (Decidable (_ ∨ _))

instance : DecidablePred (Keeps c)
  | .mixer .. => inferInstanceAs (Decidable (_ → _ → _ → ∀ _ ∈ _, ∀ _ ∈ _, ∀ _ ∈ _, _ → ∀ _ ∈ _, _))
  | .mixerSetStateSnd .. => .isTrue trivial
  | .mixerSetFadeTime .. => .isTrue trivial

end StateChannel

open StateChannel

/-! ## What a sample is formed from -/

theorem stereo_of_even (h : s.pos % 2 = 0) : c.stereo s = c.buf.stereoPos := if_pos h

theorem stereo_of_odd (h : s.pos % 2 = 1) : c.stereo s = 1 - c.buf.stereoPos :=
  if_neg (by omega)

theorem onSide_left_iff : c.OnSide .left s q ↔
    q % 2 = 0 ∧ c.fade.pos % 2 = 0 ∧ c.stereo s = c.buf.stereoPos := Iff.rfl

theorem onSide_right_iff : c.OnSide .right s q ↔
    q % 2 = 1 ∧ c.fade.pos % 2 = 1 ∧ c.stereo s = 1 - c.buf.stereoPos := Iff.rfl

/-- **A sample within a fade** is formed from the outgoing sample and the sample of the incoming
segment at the position of the fade. -/
theorem apply_of_mixes (hptr : c.buf.mixerGetStateSndPtr = some t)
    (hs : c.buf.stateSnd? t = some s) (hmixes : c.Mixes t q)
    (h : mixerApplyStateFilters r data q c = some (x, c')) :
    ∃ mul : ℚ, ∃ new, c.incoming? = some new ∧ x = toShort (data.toInt * mul
      + new.toInt * (c.stereo s * c.buf.vol * STATE_MULT) * (1 - mul)) := by
  obtain ⟨hfades, remainder, hrem, hlt⟩ := hmixes
  rw [mixerApplyStateFilters, if_pos (show c.buf.filterFlag &&& _ ≠ 0 from hfades)] at h
  obtain ⟨hnone, -⟩ | ⟨t', s', remainder', hptr', hs', hrem', ⟨hle, -⟩ | ⟨-, -, new, hnew, rfl⟩⟩ :=
    mixerFadeEffect_cases h
  · exact absurd (hptr.symm.trans hnone) (Option.some_ne_none t)
  · obtain rfl := Option.some.inj (hptr.symm.trans hptr')
    obtain rfl := Option.some.inj (hrem.symm.trans hrem')
    exact absurd hlt (not_lt.mpr hle)
  · obtain rfl := Option.some.inj (hptr.symm.trans hptr')
    obtain rfl := Option.some.inj (hs.symm.trans hs')
    exact ⟨_, new, hnew, rfl⟩

/-- Outside a fade it is the outgoing sample. -/
theorem apply_of_not_mixes (hptr : c.buf.mixerGetStateSndPtr = some t) (hmixes : ¬ c.Mixes t q)
    (h : mixerApplyStateFilters r data q c = some (x, c')) : x = data := by
  by_cases hfades : c.buf.Fades
  · rw [mixerApplyStateFilters, if_pos (show c.buf.filterFlag &&& _ ≠ 0 from hfades)] at h
    obtain ⟨hnone, -⟩ | ⟨t', s', remainder, hptr', -, hrem, ⟨-, rfl, -⟩ | ⟨hlt, -⟩⟩ :=
      mixerFadeEffect_cases h
    · exact absurd (hptr.symm.trans hnone) (Option.some_ne_none t)
    · rfl
    · obtain rfl := Option.some.inj (hptr.symm.trans hptr')
      exact absurd ⟨hfades, remainder, hrem, hlt⟩ hmixes
  · rw [mixerApplyStateFilters, if_neg (show ¬ c.buf.filterFlag &&& _ ≠ 0 from hfades)] at h
    exact (Prod.mk.inj (Option.some.inj h)).1.symm

/-! ## What a filter leaves -/

/-- The segment that is played is the last one that the volume is in. -/
theorem mixerGetStateSndPtr_eq_bind (b : StateBuf) : b.mixerGetStateSndPtr
    = (b.stateSnd? b.lastThreshIndex).bind fun s =>
        if s.sndBuf.isSome then some b.lastThreshIndex else none := by
  rw [StateBuf.mixerGetStateSndPtr, StateBuf.stateSnd?, Option.bind_map]
  rfl

theorem lastThreshIndex_setStateSnd (b : StateBuf) (t : ℕ) (s : StateSnd) :
    (b.setStateSnd t s).lastThreshIndex = b.lastThreshIndex := by
  rw [lastThreshIndex_eq, lastThreshIndex_eq, bounds_setStateSnd]
  rfl

/-- Moving through a segment does not change which threshold is played. -/
theorem mixerGetStateSndPtr_setStateSnd {b : StateBuf} (hs : b.stateSnd? t = some s)
    (hbuf : s₁.sndBuf = s.sndBuf) :
    (b.setStateSnd t s₁).mixerGetStateSndPtr = b.mixerGetStateSndPtr := by
  rw [mixerGetStateSndPtr_eq_bind, mixerGetStateSndPtr_eq_bind, lastThreshIndex_setStateSnd,
    stateSnd?_setStateSnd]
  split_ifs with ht
  · rw [← ht, hs, Option.map_some, Option.bind_some, Option.bind_some, hbuf]
  · rfl

theorem stateSnd?_setStateSnd_self {b : StateBuf} (hs : b.stateSnd? t = some s) (s₁ : StateSnd) :
    (b.setStateSnd t s₁).stateSnd? t = some s₁ := by
  rw [stateSnd?_setStateSnd, if_pos rfl, hs, Option.map_some]

theorem remainder_eq (hs : c.buf.stateSnd? t = some s) (hlen : s.len[s.sndNo]? = some len) :
    c.remainder t q = some ((len : ℤ) - q) := by
  rw [StateChannel.remainder, hs, Option.bind_eq_bind, Option.bind_some, hlen]
  rfl

/-- A sample is mixed if it is behind the point where the fade begins. -/
theorem mixes_iff (hs : c.buf.stateSnd? t = some s) (hlen : s.len[s.sndNo]? = some len)
    (hfades : c.buf.Fades) : c.Mixes t q ↔ (len : ℤ) - q < c.fade.fadePt := by
  rw [Mixes, remainder_eq hs hlen]
  simp [hfades]

/-- The fade is over with the current segment. -/
theorem fadeOver_iff (hs : c.buf.stateSnd? t = some s) (hlen : s.len[s.sndNo]? = some len)
    (hfades : c.buf.Fades) :
    c.FadeOver t s q ↔ (len : ℤ) - q < c.fade.fadePt ∧ len ≤ s.pos + 2 := by
  rw [FadeOver, mixes_iff hs hlen hfades, hlen]
  simp [STEREO]

/-- The record of a fade from which one more sample has been read. -/
def FadeRec.next (fade : FadeRec) : FadeRec := { fade with pos := fade.pos + 1 }

/-- The channel in which the incoming segment has become the current one. -/
def StateChannel.taken (c : StateChannel) (t : ℕ) (s : StateSnd) : StateChannel :=
  ⟨c.buf.setStateSnd t { s with sndNo := c.fade.snd, pos := c.fade.pos + 1 }, c.fade.next⟩

theorem fadeOn_eq (hlen : s.len[s.sndNo]? = some len) : c.fadeOn t s
    = some (if len ≤ s.pos + 2 then c.taken t s else ⟨c.buf, c.fade.next⟩) := by
  rw [StateChannel.fadeOn, hlen]
  show (if len ≤ s.pos + 2 then some _ else some _) = _
  split_ifs <;> rfl

/-- **What a filter leaves of the channel**, before the fade, where it begins, and within it. -/
theorem apply_channel (hfades : c.buf.Fades) (hptr : c.buf.mixerGetStateSndPtr = some t)
    (hs : c.buf.stateSnd? t = some s) (hlen : s.len[s.sndNo]? = some len)
    (h : mixerApplyStateFilters r data q c = some (x, c')) :
    (c.fade.fadePt < (len : ℤ) - q ∧ c' = c) ∨
      ((len : ℤ) - q = c.fade.fadePt ∧ ∃ fade, c' = ⟨c.buf, fade⟩ ∧ fade.fadePt = c.fade.fadePt ∧
        fade.pos = s.pos % 2) ∨
      ((len : ℤ) - q < c.fade.fadePt ∧
        c' = if len ≤ s.pos + 2 then c.taken t s else ⟨c.buf, c.fade.next⟩) := by
  rw [mixerApplyStateFilters, if_pos (show c.buf.filterFlag &&& _ ≠ 0 from hfades), mixerFadeEffect,
    hptr] at h
  simp only [hs, remainder_eq hs hlen, Option.bind_eq_bind, Option.bind_some] at h
  split_ifs at h with hbefore hbegin
  · exact .inl ⟨hbefore, (Prod.mk.inj (Option.some.inj h)).2.symm⟩
  · obtain ⟨o, -, h⟩ := Option.bind_eq_some_iff.mp h
    obtain ⟨-, rfl⟩ := Prod.mk.inj (Option.some.inj h)
    exact .inr (.inl ⟨hbegin, _, rfl, rfl, rfl⟩)
  · obtain ⟨new, -, h⟩ := Option.bind_eq_some_iff.mp h
    obtain ⟨c'', hon, h⟩ := Option.bind_eq_some_iff.mp h
    obtain ⟨-, rfl⟩ := Prod.mk.inj (Option.some.inj h)
    refine .inr (.inr ⟨lt_of_le_of_ne (not_lt.mp hbefore) hbegin, ?_⟩)
    exact Option.some.inj (hon.symm.trans (fadeOn_eq hlen))

/-- A filter that returns has read a length. -/
theorem exists_len_of_apply (hfades : c.buf.Fades) (hptr : c.buf.mixerGetStateSndPtr = some t)
    (hs : c.buf.stateSnd? t = some s) (h : mixerApplyStateFilters r data q c = some (x, c')) :
    ∃ len, s.len[s.sndNo]? = some len := by
  rw [mixerApplyStateFilters, if_pos (show c.buf.filterFlag &&& _ ≠ 0 from hfades), mixerFadeEffect,
    hptr] at h
  simp only [hs, StateChannel.remainder, Option.bind_eq_bind, Option.bind_some] at h
  obtain ⟨remainder, hrem, -⟩ := Option.bind_eq_some_iff.mp h
  obtain ⟨len, hlen, -⟩ := Option.bind_eq_some_iff.mp hrem
  exact ⟨len, hlen⟩

/-- The position after the end of the loop body. -/
theorem pos_of_advance (h : c.advance t r = some c') (hs : c.buf.stateSnd? t = some s)
    (hlen : s.len[s.sndNo]? = some len) : ∃ s', c'.buf.stateSnd? t = some s' ∧
      s'.pos = if len ≤ s.pos + 2 then 0 else s.pos + 2 := by
  rw [StateChannel.advance, hs, Option.bind_eq_bind, Option.bind_some, hlen] at h
  change (if len ≤ s.pos + 2 then _ else _) = _ at h
  split_ifs at h ⊢ <;> obtain rfl := Option.some.inj h
  · exact ⟨_, stateSnd?_setStateSnd_self hs _, rfl⟩
  · exact ⟨_, stateSnd?_setStateSnd_self hs _, rfl⟩

/-! ## Iterations -/

namespace StateChannel.Iteration

variable (h : Iteration f c c₁ c₂ c' t s s₁) (hfades : c.buf.Fades)
  (hlen : s.len[s.sndNo]? = some len)

include h hfades hlen

/-- What the filter for the left side leaves. -/
theorem left_channel : (c.fade.fadePt < (len : ℤ) - s.pos ∧ c₁ = c) ∨
    ((len : ℤ) - s.pos = c.fade.fadePt ∧ ∃ fade, c₁ = ⟨c.buf, fade⟩ ∧
      fade.fadePt = c.fade.fadePt ∧ fade.pos = s.pos % 2) ∨
    ((len : ℤ) - s.pos < c.fade.fadePt ∧
      c₁ = if len ≤ s.pos + 2 then c.taken t s else ⟨c.buf, c.fade.next⟩) := by
  obtain ⟨snd, left, right, -, -, -, ⟨x, hleft⟩, -⟩ := h.sound
  exact apply_channel hfades h.ptr h.current hlen hleft

/-- Before the fade nothing is mixed. -/
theorem apart_of_before (hbefore : c.fade.fadePt < (len : ℤ) - s.pos) : Apart c c₁ c' t s s₁ := by
  obtain ⟨-, rfl⟩ | ⟨hbegin, -⟩ | ⟨hwithin, -⟩ := h.left_channel hfades hlen
  · obtain rfl : s = s₁ := Option.some.inj (h.current.symm.trans h.between)
    rw [Apart, mixes_iff h.current hlen hfades, mixes_iff h.current hlen hfades,
      fadeOver_iff h.current hlen hfades, fadeOver_iff h.current hlen hfades]
    exact ⟨by omega, by omega, by omega⟩
  · omega
  · omega

/-- **Where a fade begins**, the right side is mixed with the first sample of the segment. -/
theorem not_apart_of_begin (hbegin : (len : ℤ) - s.pos = c.fade.fadePt) :
    ¬ Apart c c₁ c' t s s₁ := by
  rintro ⟨-, hright, -⟩
  obtain ⟨hbefore, -⟩ | ⟨-, fade, rfl, hpt, hpos⟩ | ⟨hwithin, -⟩ := h.left_channel hfades hlen
  · omega
  · obtain rfl : s = s₁ := Option.some.inj (h.current.symm.trans h.between)
    have hmixes : StateChannel.Mixes ⟨c.buf, fade⟩ t (s.pos + 1) := by
      refine (mixes_iff h.between hlen hfades).mpr ?_
      show (len : ℤ) - (s.pos + 1 : ℕ) < fade.fadePt
      omega
    obtain ⟨hodd, hodd', -⟩ := onSide_right_iff.mp (hright hmixes)
    change fade.pos % 2 = 1 at hodd'
    omega
  · omega

/-- **Within a fade**, the two sides have the same weight. -/
theorem apart_iff_of_within (hwithin : (len : ℤ) - s.pos < c.fade.fadePt)
    (hon : s.pos + 2 < len) : Apart c c₁ c' t s s₁ ↔
      s.pos % 2 = 0 ∧ c.fade.pos % 2 = 0 ∧ c.buf.stereoPos = 1 / 2 := by
  obtain ⟨hbefore, -⟩ | ⟨hbegin, -⟩ | ⟨-, hc₁⟩ := h.left_channel hfades hlen
  · omega
  · omega
  rw [if_neg (not_le.mpr hon)] at hc₁
  subst hc₁
  obtain rfl : s = s₁ := Option.some.inj (h.current.symm.trans h.between)
  have hpt : c.fade.next.fadePt = c.fade.fadePt := rfl
  rw [Apart, mixes_iff h.current hlen hfades, mixes_iff h.between hlen hfades,
    fadeOver_iff h.current hlen hfades, fadeOver_iff h.between hlen hfades, hpt]
  constructor
  · rintro ⟨hleft, hright, -⟩
    obtain ⟨heven, heven', -⟩ := onSide_left_iff.mp (hleft hwithin)
    obtain ⟨-, -, hweight⟩ := onSide_right_iff.mp (hright (by push_cast; omega))
    rw [stereo_of_even heven] at hweight
    change c.buf.stereoPos = 1 - c.buf.stereoPos at hweight
    exact ⟨heven, heven', by linarith⟩
  · rintro ⟨heven, heven', hhalf⟩
    refine ⟨fun _ => onSide_left_iff.mpr ⟨heven, heven', stereo_of_even heven⟩,
      fun _ => onSide_right_iff.mpr ⟨by omega, ?_, ?_⟩, by omega⟩
    · show (c.fade.pos + 1) % 2 = 1
      omega
    · rw [stereo_of_even heven]
      show c.buf.stereoPos = 1 - c.buf.stereoPos
      linarith

/-- Where a fade ends, playback continues behind the second sample from there, or with another
segment. -/
theorem pos_of_over (hlt : s.pos + 1 < len) (hwithin : (len : ℤ) - s.pos < c.fade.fadePt)
    (hover : len ≤ s.pos + 2) : c₁ = c.taken t s ∧ ∃ len' s', s.len[c.fade.snd]? = some len' ∧
      c'.buf.stateSnd? t = some s' ∧
        s'.pos = if len' ≤ c.fade.pos + 3 then 0 else c.fade.pos + 3 := by
  obtain ⟨hbefore, -⟩ | ⟨hbegin, -⟩ | ⟨-, hc₁⟩ := h.left_channel hfades hlen
  · omega
  · omega
  rw [if_pos hover] at hc₁
  subst hc₁
  refine ⟨rfl, ?_⟩
  -- the filter for the right side finds the incoming segment
  have hcurrent : (c.taken t s).buf.stateSnd? t
      = some { s with sndNo := c.fade.snd, pos := c.fade.pos + 1 } :=
    stateSnd?_setStateSnd_self h.current _
  obtain rfl := Option.some.inj (hcurrent.symm.trans h.between)
  have hptr : (c.taken t s).buf.mixerGetStateSndPtr = some t := by
    rw [StateChannel.taken, mixerGetStateSndPtr_setStateSnd h.current]
    · exact h.ptr
    · rfl
  have hfades' : (c.taken t s).buf.Fades := hfades
  obtain ⟨snd, left, right, -, -, -, -, y, hright⟩ := h.sound
  obtain ⟨len', hlen'⟩ := exists_len_of_apply hfades' hptr hcurrent hright
  change s.len[c.fade.snd]? = some len' at hlen'
  have hpt : (c.taken t s).fade.fadePt = c.fade.fadePt := rfl
  refine ⟨len', ?_⟩
  obtain ⟨hbefore, hc₂⟩ | ⟨hbegin, fade, hc₂, -⟩ | ⟨-, hc₂⟩ :=
    apply_channel hfades' hptr hcurrent hlen' hright
  · subst hc₂
    obtain ⟨s', hs', hpos⟩ := pos_of_advance h.next hcurrent hlen'
    rw [hpt] at hbefore
    exact ⟨s', hlen', hs', hpos⟩
  · subst hc₂
    obtain ⟨s', hs', hpos⟩ := pos_of_advance h.next hcurrent hlen'
    exact ⟨s', hlen', hs', hpos⟩
  · split_ifs at hc₂ with hagain
    · subst hc₂
      obtain ⟨s', hs', hpos⟩ :=
        pos_of_advance h.next (stateSnd?_setStateSnd_self hcurrent _) hlen'
      change len' ≤ c.fade.pos + 1 + 2 at hagain
      change s'.pos = if len' ≤ c.fade.pos + 1 + 1 + 2 then 0 else c.fade.pos + 1 + 1 + 2 at hpos
      rw [if_pos (by omega)] at hpos
      exact ⟨s', hlen', hs', by rw [hpos, if_pos (by omega)]⟩
    · subst hc₂
      obtain ⟨s', hs', hpos⟩ := pos_of_advance h.next hcurrent hlen'
      exact ⟨s', hlen', hs', hpos⟩

/-- **Where a fade ends**, the incoming segment has to end as well. -/
theorem apart_iff_of_over (hlt : s.pos + 1 < len) (hwithin : (len : ℤ) - s.pos < c.fade.fadePt)
    (hover : len ≤ s.pos + 2) : Apart c c₁ c' t s s₁ ↔
      s.pos % 2 = 0 ∧ c.fade.pos % 2 = 0 ∧ ∀ len' ∈ s.len[c.fade.snd]?, len' ≤ c.fade.pos + 3 := by
  obtain ⟨hc₁, len', s', hlen', hs', hpos⟩ := h.pos_of_over hfades hlen hlt hwithin hover
  have hs₁ : s₁ = { s with sndNo := c.fade.snd, pos := c.fade.pos + 1 } := by
    have hbetween := h.between
    rw [hc₁, StateChannel.taken, stateSnd?_setStateSnd_self h.current] at hbetween
    exact (Option.some.inj hbetween).symm
  have hends : c.FadeOver t s s.pos :=
    (fadeOver_iff h.current hlen hfades).mpr ⟨hwithin, hover⟩
  rw [Apart, mixes_iff h.current hlen hfades, hlen', hs']
  simp only [Option.mem_def, Option.some.injEq, forall_eq']
  constructor
  · rintro ⟨hleft, -, heven⟩
    obtain ⟨heven₁, heven₂, -⟩ := onSide_left_iff.mp (hleft hwithin)
    refine ⟨heven₁, heven₂, ?_⟩
    have heven := heven (.inl hends)
    split_ifs at hpos with hle
    · exact hle
    · omega
  · rintro ⟨heven₁, heven₂, hle⟩
    refine ⟨fun _ => onSide_left_iff.mpr ⟨heven₁, heven₂, stereo_of_even heven₁⟩,
      fun _ => onSide_right_iff.mpr ⟨by omega, ?_, ?_⟩, fun _ => ?_⟩
    · rw [hc₁]
      show (c.fade.pos + 1) % 2 = 1
      omega
    · refine stereo_of_odd ?_
      rw [hs₁]
      show (c.fade.pos + 1) % 2 = 1
      omega
    · rw [hpos, if_pos hle]

/-- **An iteration keeps the sides apart** exactly if it meets `SidesKept`. -/
theorem apart_iff (hlt : s.pos + 1 < len) : Apart c c₁ c' t s s₁ ↔ c.SidesKept s len := by
  rw [SidesKept, STEREO]
  rcases lt_trichotomy c.fade.fadePt ((len : ℤ) - s.pos) with hbefore | hbegin | hwithin
  · exact iff_of_true (h.apart_of_before hfades hlen hbefore) (.inl hbefore)
  · refine iff_of_false (h.not_apart_of_begin hfades hlen hbegin.symm) ?_
    rintro (hbefore | ⟨hwithin, -⟩)
    · omega
    · omega
  · have hnot : ¬ c.fade.fadePt < (len : ℤ) - s.pos := hwithin.not_gt
    simp only [hnot, hwithin, false_or, true_and]
    rcases lt_or_ge (s.pos + 2) len with hon | hover
    · rw [if_pos hon]
      exact h.apart_iff_of_within hfades hlen hwithin hon
    · rw [if_neg (not_lt.mpr hover)]
      exact h.apart_iff_of_over hfades hlen hlt hwithin hover

end StateChannel.Iteration

/-- An iteration that is in range goes through the two filters. -/
theorem exists_iteration {samples : List StereoSample} {snd : Sound} (hvol : c.buf.vol ≠ 0)
    (hptr : c.buf.mixerGetStateSndPtr = some t) (hs : c.buf.stateSnd? t = some s)
    (hsnd : deref? s.sndBuf s.sndNo = some (some snd))
    (h : mixStateChannel f c = some (samples, c')) :
    ∃ c₁ c₂ s₁, Iteration f c c₁ c₂ c' t s s₁ := by
  rw [mixStateChannel, if_neg hvol, hptr] at h
  simp only [hs, hsnd, Option.bind_eq_bind, Option.bind_some, Option.bind_eq_some_iff,
    Prod.exists, Option.some.injEq, Prod.mk.injEq] at h
  obtain ⟨x, y, c₂, hproduce, c'', hnext, -, rfl⟩ := h
  obtain ⟨left, right, c₁, s₁, hleft, hright, hx, hs₁, hy⟩ := produce_eq_some.mp hproduce
  exact ⟨c₁, c₂, s₁, hvol, hptr, hs, ⟨snd, left, right, hsnd, hleft, hright, ⟨x, hx⟩, y, hy⟩, hs₁,
    hnext⟩

/-- And conversely. -/
theorem StateChannel.Iteration.exists_samples (h : Iteration f c c₁ c₂ c' t s s₁) :
    ∃ samples, mixStateChannel f c = some (samples, c') := by
  obtain ⟨snd, left, right, hsnd, hleft, hright, ⟨x, hx⟩, y, hy⟩ := h.sound
  have hproduce : c.produce f t s snd = some ((x, y), c₂) :=
    produce_eq_some.mpr ⟨left, right, c₁, s₁, hleft, hright, hx, h.between, hy⟩
  refine ⟨[(x, y)], ?_⟩
  rw [mixStateChannel, if_neg h.heard, h.ptr]
  simp only [h.current, hsnd, hproduce, h.next, Option.bind_eq_bind, Option.bind_some]

/-! ## The sounds of a channel -/

/-- The segments of a threshold with their lengths. -/
def StateBuf.sounds (b : StateBuf) (t : ℕ) : Option (Option (Array (Option Sound)) × Array ℕ) :=
  (b.stateSnd? t).map fun s => (s.sndBuf, s.len)

/-- Each segment has its length beside it, as whoever calls `mixerAddState` sees to. -/
def StateBuf.Sized (b : StateBuf) : Prop :=
  ∀ t bufs lens, b.sounds t = some (bufs, lens) → ∀ i snd, deref? bufs i = some (some snd) →
    lens[i]? = some snd.size

theorem sounds_setStateSnd {b : StateBuf} (hs : b.stateSnd? t = some s)
    (hbuf : s₁.sndBuf = s.sndBuf) (hlen : s₁.len = s.len) :
    (b.setStateSnd t s₁).sounds = b.sounds := by
  funext u
  rw [StateBuf.sounds, StateBuf.sounds, stateSnd?_setStateSnd]
  split_ifs with ht
  · subst ht
    rw [hs, Option.map_some, Option.map_some, Option.map_some, hbuf, hlen]
  · rfl

/-- A filter leaves the sounds alone. -/
theorem mixerApplyStateFilters_sounds (h : mixerApplyStateFilters r data q c = some (x, c')) :
    c'.buf.sounds = c.buf.sounds := by
  rw [mixerApplyStateFilters] at h
  split_ifs at h
  · obtain ⟨-, -, rfl⟩ | ⟨t, s, remainder, -, hs, -, ⟨-, -, hbuf⟩ | ⟨-, hon, -⟩⟩ :=
      mixerFadeEffect_cases h
    · rfl
    · rw [hbuf]
    · obtain ⟨len, -, hon⟩ := Option.bind_eq_some_iff.mp hon
      split_ifs at hon <;> obtain rfl := Option.some.inj hon
      · exact sounds_setStateSnd hs rfl rfl
      · rfl
  · obtain ⟨-, rfl⟩ := Prod.mk.inj (Option.some.inj h)
    rfl

/-- So does an iteration. -/
theorem mixStateChannel_sounds {samples : List StereoSample}
    (h : mixStateChannel f c = some (samples, c')) : c'.buf.sounds = c.buf.sounds := by
  obtain ⟨-, rfl⟩ | ⟨t, s, snd, sample, c₂, -, -, -, -, hproduce, hadvance, -⟩ :=
    mixStateChannel_cases h
  · rfl
  obtain ⟨left, right, c₁, s₁, -, -, hx, -, hy⟩ := produce_eq_some.mp hproduce
  have hfilters := (mixerApplyStateFilters_sounds hy).trans (mixerApplyStateFilters_sounds hx)
  rw [← hfilters]
  obtain ⟨s₂, hs₂, hadvance⟩ := Option.bind_eq_some_iff.mp hadvance
  obtain ⟨len, -, hadvance⟩ := Option.bind_eq_some_iff.mp hadvance
  dsimp only at hadvance
  split_ifs at hadvance <;> obtain rfl := Option.some.inj hadvance
  · exact sounds_setStateSnd hs₂ rfl rfl
  · exact sounds_setStateSnd hs₂ rfl rfl

/-! ## Runs -/

/-- **A step keeps the sides apart** exactly if it meets the condition. -/
theorem aligned_iff_keeps (hsized : c.buf.Sized) (a : ChannelAct) : c.Aligned a ↔ c.Keeps a := by
  cases a with
  | mixerSetStateSnd vol stereo flags => exact Iff.rfl
  | mixerSetFadeTime time => exact Iff.rfl
  | mixer f hf =>
    have hlt : ∀ {t s snd x len}, c.buf.stateSnd? t = some s →
        deref? s.sndBuf s.sndNo = some (some snd) → snd[s.pos + 1]? = some x →
        s.len[s.sndNo]? = some len → s.pos + 1 < len := by
      intro t s snd x len hs hsnd hx hlen
      have hsize := hsized t s.sndBuf s.len (by rw [StateBuf.sounds, hs]; rfl) _ _ hsnd
      rw [hlen, Option.some.injEq] at hsize
      rw [hsize]
      exact (Array.getElem?_eq_some_iff.mp hx).1
    constructor
    · intro haligned hrange hvol hfades t hptr s hs snd? hsnd hsome len hlen
      obtain ⟨snd, rfl⟩ := Option.isSome_iff_exists.mp hsome
      rw [StateChannel.InBounds, StateChannel.act, Option.isSome_map,
        Option.isSome_iff_exists] at hrange
      obtain ⟨⟨samples, c'⟩, hmix⟩ := hrange
      obtain ⟨c₁, c₂, s₁, h⟩ := exists_iteration hvol hptr hs hsnd hmix
      obtain ⟨snd', -, right, hsnd', -, hright, -⟩ := h.sound
      exact (h.apart_iff hfades hlen (hlt hs hsnd' hright hlen)).mp (haligned _ _ _ _ _ _ h)
    · intro hkeeps c₁ c₂ c' t s s₁ h
      obtain ⟨snd, left, right, hsnd, -, hright, ⟨x, hx⟩, -⟩ := h.sound
      by_cases hfades : c.buf.Fades
      · obtain ⟨len, hlen⟩ := exists_len_of_apply hfades h.ptr h.current hx
        obtain ⟨samples, hmix⟩ := h.exists_samples
        refine (h.apart_iff hfades hlen (hlt h.current hsnd hright hlen)).mpr ?_
        refine hkeeps ?_ h.heard hfades t h.ptr s h.current _ hsnd rfl len hlen
        rw [StateChannel.InBounds, StateChannel.act, hmix]
        rfl
      · have hfades₁ : ¬ c₁.buf.Fades := by
          have hflags := congrArg (fun x => x.2.2) (mixerApplyStateFilters_settings hx)
          rw [StateBuf.Fades, show c₁.buf.filterFlag = c.buf.filterFlag from hflags]
          exact hfades
        exact ⟨fun hmixes => absurd hmixes.1 hfades, fun hmixes => absurd hmixes.1 hfades₁,
          fun hends => hends.elim (fun hleft => absurd hleft.1.1 hfades)
            fun hright => absurd hright.1.1 hfades₁⟩

/-- A step leaves the sounds alone. -/
theorem sounds_act {a : ChannelAct} (h : c.act a = some c') : c'.buf.sounds = c.buf.sounds := by
  cases a with
  | mixer f hf =>
    obtain ⟨⟨samples, c''⟩, hmix, rfl⟩ := Option.map_eq_some_iff.mp h
    exact mixStateChannel_sounds hmix
  | mixerSetStateSnd vol stereo flags =>
    obtain rfl := Option.some.inj h
    rfl
  | mixerSetFadeTime time =>
    obtain rfl := Option.some.inj h
    rfl

/-- What is equivalent for every channel with its lengths is equivalent along a run. -/
theorem along_iff_of_sized {P Q : StateChannel → ChannelAct → Prop}
    (hPQ : ∀ c : StateChannel, c.buf.Sized → ∀ a, P c a ↔ Q c a) (hsized : c.buf.Sized)
    (acts : List ChannelAct) :
    Along StateChannel.act P c acts ↔ Along StateChannel.act Q c acts := by
  refine along_iff_of_invariant (I := fun c => c.buf.Sized) ?_ (fun c a hc => hPQ c hc a) hsized
  intro c a c' hc _ hact
  rw [StateBuf.Sized, sounds_act hact]
  exact hc

/-- A loaded channel has its lengths. -/
theorem StateBuf.Loaded.sized {b : StateBuf} (h : b.Loaded) : b.Sized := by
  intro t bufs lens hsounds i snd hsnd
  obtain ⟨s, hs, heq⟩ := Option.map_eq_some_iff.mp hsounds
  obtain ⟨rfl, rfl⟩ := Prod.mk.inj heq
  obtain ⟨bufs, hbufs, hsize, hall⟩ := (h.stateSnd t s hs).sounds
  obtain ⟨ys, hys, hi⟩ := deref?_eq_some_iff.mp hsnd
  obtain rfl : bufs = ys := Option.some.inj (hbufs.symm.trans hys)
  have hlt : i < s.sndCnt := hsize ▸ (Array.getElem?_eq_some_iff.mp hi).1
  obtain ⟨snd', hsnd', hlen, -⟩ := hall i hlt
  obtain rfl : snd = snd' := Option.some.inj (Option.some.inj (hi.symm.trans hsnd'))
  rw [Array.getElem?_eq_getElem hlt, hlen]

theorem full_mem_Icc : (1 : ℚ) ∈ Set.Icc (0 : ℚ) 1 := ⟨zero_le_one, le_rfl⟩

theorem half_mem_Icc : (1 / 2 : ℚ) ∈ Set.Icc (0 : ℚ) 1 := ⟨by norm_num, by norm_num⟩

/-- A channel is heard on both sides alike. -/
def centred (flags : Int32) : ChannelAct :=
  .mixerSetStateSnd ⟨1, full_mem_Icc⟩ ⟨1 / 2, half_mem_Icc⟩ flags

/-- An iteration that picks the second of two segments if one is over. -/
def picking : ChannelAct :=
  .mixer ⟨0, 0, 1 / 2⟩ ⟨⟨le_rfl, zero_lt_one⟩, ⟨le_rfl, zero_lt_one⟩, ⟨by norm_num, by norm_num⟩⟩

end Peep
