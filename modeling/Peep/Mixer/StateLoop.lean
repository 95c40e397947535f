import Peep.Mixer.FadeSides
import Peep.Mixer.LoadCalls

/-!
# The loop over the state channels, step by step

The loop of `mixer` over the state channels has assertions about the segment that is played and the
position in it, at the beginning of each iteration. In the middle of one they may not hold: the
filter that ends a fade leaves its segment and its position with the threshold, and only the end of
the iteration compares them with the length. So an iteration that is interrupted by a change of the
volume may end with another threshold than it began with.

This module takes an iteration apart, into `begin`, the filters for the two sides and `advance`.

## Main results

* `mixStateChannel_eq` — the parts are those of an iteration
* `StateChannel.Selecting.left`, `StateChannel.Selecting.right` — the filters move within the
  threshold of the iteration
* `StateChannel.Selecting.advance` — the end of the iteration puts it in order
* `Mixer.Fresh.mixerAddState` and others — what loading comes to
-/

namespace Peep

open Pcm

variable {n k : ℕ} {c c' : StateChannel} {t : ℕ} {s : StateSnd} {r : ℚ} {x : Int16}

/-! ## The parts of an iteration -/

namespace StateChannel

/-- The beginning of an iteration, up to the test of the flag: the threshold and the two samples, or
nothing if the channel is passed over. -/
def begin (c : StateChannel) : Option (Option (ℕ × StereoSample)) :=
  if c.buf.vol = 0 then some none
  else match c.buf.mixerGetStateSndPtr with
    | none => some none
    | some t => do
      let s ← c.buf.stateSnd? t
      let snd ← deref? s.sndBuf s.sndNo
      match snd with
      | none => some none
      | some snd => do
        let left ← snd[s.pos]?
        let right ← snd[s.pos + 1]?
        some (some (t, c.buf.sample left right))

/-- `mixerApplyStateFilters (sleft, state_snd->pos, j)`. -/
def filterLeft (r : ℚ) (t : ℕ) (sleft : Int16) (c : StateChannel) :
    Option (Int16 × StateChannel) := do
  let s ← c.buf.stateSnd? t
  mixerApplyStateFilters r sleft s.pos c

/-- `mixerApplyStateFilters (sright, state_snd->pos + 1, j)`. -/
def filterRight (r : ℚ) (t : ℕ) (sright : Int16) (c : StateChannel) :
    Option (Int16 × StateChannel) := do
  let s ← c.buf.stateSnd? t
  mixerApplyStateFilters r sright (s.pos + 1) c

end StateChannel

open StateChannel

/-- **An iteration** is its parts, one after the other. -/
theorem mixStateChannel_eq (f : Fractions) (c : StateChannel) : mixStateChannel f c =
    c.begin.bind fun begun => begun.elim (some ([], c)) fun p =>
      (filterLeft f.left p.1 p.2.1 c).bind fun l =>
        (filterRight f.right p.1 p.2.2 l.2).bind fun r =>
          (r.2.advance p.1 f.atEnd).bind fun c => some ([(l.1, r.1)], c) := by
  rw [mixStateChannel, StateChannel.begin]
  split_ifs
  · rfl
  · cases c.buf.mixerGetStateSndPtr with
    | none => rfl
    | some t =>
      rcases hs : c.buf.stateSnd? t with - | s
      · simp [hs]
      · rcases hsnd : deref? s.sndBuf s.sndNo with - | - | snd
        · simp [hs, hsnd]
        · simp [hs, hsnd]
        · simp only [hs, hsnd, Option.bind_eq_bind, Option.bind_some, produce, filterLeft,
            filterRight, Option.bind_assoc, Option.elim]

/-- Without a flag the filters do nothing, and the loop does not call them. -/
theorem mixerApplyStateFilters_of_flag (hflag : c.buf.filterFlag = 0) (r : ℚ) (data : Int16)
    (q : ℕ) : mixerApplyStateFilters r data q c = some (data, c) := by
  rw [mixerApplyStateFilters, if_neg (by rw [hflag]; decide)]

/-! ## Segments and positions -/

/-- A threshold as it is loaded. -/
structure StateSnd.Fresh (s : StateSnd) : Prop where
  /-- There is a length for each segment. -/
  size : ∀ bufs, s.sndBuf = some bufs → bufs.size = s.sndCnt
  /-- The first segment is to be played. -/
  sndNo : s.sndNo = 0
  /-- From its beginning. -/
  pos : s.pos = 0

/-- A threshold between two iterations. -/
structure StateSnd.Placed (s : StateSnd) : Prop where
  /-- The segment is one of those of the threshold. -/
  sndNo : 0 < s.sndCnt → s.sndNo < s.sndCnt
  /-- The position is below its length. -/
  pos : ∀ len, s.len[s.sndNo]? = some len → len = 0 ∨ s.pos < len

/-- The three assertions at the beginning of an iteration. -/
structure StateSnd.Asserted (s : StateSnd) : Prop where
  /-- `snd_no >= 0 && snd_no <= snd_cnt`. -/
  sndNo : 0 ≤ s.sndNo ∧ s.sndNo ≤ s.sndCnt
  /-- `pos >= 0 && (len[snd_no] == 0 || pos < len[snd_no])`. -/
  pos : 0 ≤ s.pos ∧ ∃ len, s.len[s.sndNo]? = some len ∧ (len = 0 ∨ s.pos < len)
  /-- `snd_buf != NULL && snd_buf[snd_no] != NULL`. -/
  sndBuf : s.sndBuf.isSome ∧ ∃ snd, deref? s.sndBuf s.sndNo = some (some snd)

/-- They are made if the channel is heard and its segment is not `NULL`. A threshold without
segments leaves its array before. -/
def StateChannel.LoopAsserts (c : StateChannel) : Prop :=
  c.buf.vol ≠ 0 → ∀ t s, c.buf.mixerGetStateSndPtr = some t → c.buf.stateSnd? t = some s →
    0 < s.sndCnt → deref? s.sndBuf s.sndNo ≠ some none → s.Asserted

/-- The thresholds of a channel of which an iteration has begun with the threshold `cur`. -/
structure StateBuf.Ordered (b : StateBuf) (cur : Option ℕ) : Prop where
  /-- There is a length for each segment. -/
  size : ∀ t s, b.stateSnd? t = some s → ∀ bufs, s.sndBuf = some bufs → bufs.size = s.sndCnt
  /-- The other thresholds are between two iterations. -/
  placed : ∀ t s, b.stateSnd? t = some s → some t ≠ cur → s.Placed

/-- An iteration has begun with the threshold that the volume selects. -/
structure StateChannel.Selecting (c : StateChannel) (t : ℕ) : Prop where
  /-- The other thresholds are between two iterations. -/
  ordered : c.buf.Ordered (some t)
  /-- The threshold is selected. -/
  ptr : c.buf.mixerGetStateSndPtr = some t

theorem StateSnd.Fresh.placed (h : s.Fresh) : s.Placed where
  sndNo hpos := by rwa [h.sndNo]
  pos len _ := by
    rw [h.pos]
    exact Nat.eq_zero_or_pos len

theorem StateBuf.Ordered.mono {b : StateBuf} (h : b.Ordered none) (cur : Option ℕ) :
    b.Ordered cur :=
  ⟨h.size, fun t s hs _ => h.placed t s hs (Option.some_ne_none t)⟩

/-- **The assertions hold** between two iterations. -/
theorem StateBuf.Ordered.loopAsserts (h : c.buf.Ordered none) : c.LoopAsserts := by
  intro _ t s hptr hs hpos hsnd
  obtain ⟨hsndNo, hwithin⟩ := h.placed t s hs (Option.some_ne_none t)
  have hlt := hsndNo hpos
  obtain ⟨bufs, hbufs⟩ : ∃ bufs, s.sndBuf = some bufs := by
    rw [mixerGetStateSndPtr_eq_bind] at hptr
    obtain ⟨s', hs', hif⟩ := Option.bind_eq_some_iff.mp hptr
    split_ifs at hif with hsome
    obtain rfl := Option.some.inj hif
    obtain rfl := Option.some.inj (hs.symm.trans hs')
    exact Option.isSome_iff_exists.mp hsome
  have hsize := h.size t s hs bufs hbufs
  refine ⟨⟨Nat.zero_le _, hlt.le⟩, ⟨Nat.zero_le _, s.len[s.sndNo], ?_, ?_⟩, ?_, ?_⟩
  · exact Array.getElem?_eq_getElem hlt
  · exact hwithin _ (Array.getElem?_eq_getElem hlt)
  · rw [hbufs]
    rfl
  · have hi : s.sndNo < bufs.size := by omega
    rw [deref?, hbufs, Option.bind_eq_bind, Option.bind_some, Array.getElem?_eq_getElem hi]
      at hsnd ⊢
    rcases hx : bufs[s.sndNo] with - | snd
    · exact absurd (congrArg some hx) hsnd
    · exact ⟨snd, rfl⟩

/-! ## What the parts do -/

variable {i p : ℕ}

/-- The thresholds after a move within one of them. -/
theorem StateBuf.Ordered.move {b : StateBuf} {cur cur' : Option ℕ} (h : b.Ordered cur)
    (hs : b.stateSnd? t = some s) (hcur : ∀ t' ≠ t, some t' ≠ cur' → some t' ≠ cur)
    (hplaced : some t ≠ cur' → { s with sndNo := i, pos := p : StateSnd}.Placed) :
    (b.setStateSnd t { s with sndNo := i, pos := p }).Ordered cur' := by
  refine ⟨fun t' s' hs' => ?_, fun t' s' hs' hne => ?_⟩
  · rcases stateSnd?_setStateSnd_cases hs' with ⟨-, rfl⟩ | ⟨-, hs'⟩
    · exact h.size t s hs
    · exact h.size t' s' hs'
  · rcases stateSnd?_setStateSnd_cases hs' with ⟨rfl, rfl⟩ | ⟨ht, hs'⟩
    · exact hplaced hne
    · exact h.placed t' s' hs' (hcur t' ht hne)

/-- **A filter** moves within the threshold of the iteration. -/
theorem StateChannel.Selecting.filter {data : Int16} {q : ℕ} (h : c.Selecting t)
    (hfilter : mixerApplyStateFilters r data q c = some (x, c')) : c'.Selecting t := by
  have hmove (hbuf : c'.buf = c.buf) : c'.Selecting t := ⟨hbuf ▸ h.ordered, hbuf ▸ h.ptr⟩
  rw [mixerApplyStateFilters] at hfilter
  split_ifs at hfilter
  · obtain ⟨-, -, rfl⟩ | ⟨t', s, remainder, hptr, hs, -, ⟨-, -, hbuf⟩ | ⟨-, hon, -⟩⟩ :=
      mixerFadeEffect_cases hfilter
    · exact h
    · exact hmove hbuf
    · obtain rfl := Option.some.inj (h.ptr.symm.trans hptr)
      obtain ⟨len, -, hon⟩ := Option.bind_eq_some_iff.mp hon
      split_ifs at hon <;> obtain rfl := Option.some.inj hon
      · refine ⟨h.ordered.move hs (fun _ _ hne => hne) fun hne => absurd rfl hne, ?_⟩
        refine Eq.trans ?_ h.ptr
        exact mixerGetStateSndPtr_setStateSnd hs rfl
      · exact hmove rfl
  · obtain ⟨-, rfl⟩ := Prod.mk.inj (Option.some.inj hfilter)
    exact h

theorem StateChannel.Selecting.left {data : Int16} (h : c.Selecting t)
    (hfilter : filterLeft r t data c = some (x, c')) : c'.Selecting t := by
  obtain ⟨s, -, hfilter⟩ := Option.bind_eq_some_iff.mp hfilter
  exact h.filter hfilter

theorem StateChannel.Selecting.right {data : Int16} (h : c.Selecting t)
    (hfilter : filterRight r t data c = some (x, c')) : c'.Selecting t := by
  obtain ⟨s, -, hfilter⟩ := Option.bind_eq_some_iff.mp hfilter
  exact h.filter hfilter

/-- The segment that is picked is one of the threshold that the volume selects. -/
theorem mixerPickRndStateSnd_lt_sndCnt {b : StateBuf} (hptr : b.mixerGetStateSndPtr = some t)
    (hs : b.stateSnd? t = some s) (hpos : 0 < s.sndCnt) (hr : r ∈ Set.Ico 0 1) :
    mixerPickRndStateSnd b r < s.sndCnt := by
  rw [mixerPickRndStateSnd, hptr, Option.bind_some, hs]
  exact toNat_truncate_mul_lt hpos hr.1 hr.2

/-- **The end of an iteration** puts the threshold in order. -/
theorem StateChannel.Selecting.advance (h : c.Selecting t) (hr : r ∈ Set.Ico 0 1)
    (hadvance : c.advance t r = some c') : c'.buf.Ordered none := by
  obtain ⟨s, hs, hadvance⟩ := Option.bind_eq_some_iff.mp hadvance
  obtain ⟨len, hlen, hadvance⟩ := Option.bind_eq_some_iff.mp hadvance
  have hcur (t' : ℕ) (ht : t' ≠ t) (_ : some t' ≠ none) : some t' ≠ some t :=
    fun heq => ht (Option.some.inj heq)
  dsimp only at hadvance
  split_ifs at hadvance with hle <;> obtain rfl := Option.some.inj hadvance
  · refine h.ordered.move hs hcur fun _ => ⟨fun hpos => ?_, fun len' _ => ?_⟩
    · show mixerPickRndStateSnd c.buf r < s.sndCnt
      exact mixerPickRndStateSnd_lt_sndCnt h.ptr hs hpos hr
    · exact Nat.eq_zero_or_pos len'
  · refine h.ordered.move hs hcur fun _ => ⟨fun hpos => ?_, fun len' hlen' => .inr ?_⟩
    · exact (Array.getElem?_eq_some_iff.mp hlen).1
    · obtain rfl := Option.some.inj (hlen.symm.trans hlen')
      exact not_le.mp hle

/-- **The beginning of an iteration.** -/
theorem selecting_of_begin {sample : StereoSample} (h : c.buf.Ordered none)
    (hbegin : c.begin = some (some (t, sample))) : c.Selecting t := by
  refine ⟨h.mono _, ?_⟩
  rw [StateChannel.begin] at hbegin
  split_ifs at hbegin
  · cases Option.some.inj hbegin
  · rcases hptr : c.buf.mixerGetStateSndPtr with - | t'
    · rw [hptr] at hbegin
      cases Option.some.inj hbegin
    · rw [hptr] at hbegin
      obtain ⟨s, -, hbegin⟩ := Option.bind_eq_some_iff.mp hbegin
      obtain ⟨snd, -, hbegin⟩ := Option.bind_eq_some_iff.mp hbegin
      cases snd with
      | none => cases Option.some.inj hbegin
      | some snd =>
        obtain ⟨left, -, hbegin⟩ := Option.bind_eq_some_iff.mp hbegin
        obtain ⟨right, -, hbegin⟩ := Option.bind_eq_some_iff.mp hbegin
        obtain ⟨rfl, -⟩ := Prod.mk.inj (Option.some.inj (Option.some.inj hbegin))
        rfl

theorem StateBuf.Ordered.of_thresh {b b' : StateBuf} {cur : Option ℕ} (h : b.Ordered cur)
    (hthresh : b'.thresh = b.thresh) : b'.Ordered cur := by
  have hstateSnd : b'.stateSnd? = b.stateSnd? := by
    funext t
    rw [StateBuf.stateSnd?, StateBuf.stateSnd?, hthresh]
  exact ⟨hstateSnd ▸ h.size, hstateSnd ▸ h.placed⟩

/-! ## Loading -/

/-- The thresholds of a channel as they are loaded. -/
def StateBuf.Fresh (b : StateBuf) : Prop := ∀ t s, b.stateSnd? t = some s → s.Fresh

theorem StateBuf.Fresh.ordered {b : StateBuf} (h : b.Fresh) : b.Ordered none :=
  ⟨fun t s hs => (h t s hs).size, fun t s hs _ => (h t s hs).placed⟩

/-- Loading keeps it. -/
theorem kept_fresh : StateSnd.Kept StateSnd.Fresh where
  blank := ⟨fun _ hbufs => (by cases hbufs), rfl, rfl⟩
  alloc cnt := by
    refine ⟨fun bufs hbufs => ?_, rfl, rfl⟩
    obtain rfl := Option.some.inj hbufs
    rw [StateSnd.sndCnt, Array.size_replicate, Array.size_replicate]
  put s snds i sound len hs hmodify := by
    refine ⟨fun bufs' hbufs' => ?_, hs.sndNo, hs.pos⟩
    obtain rfl := Option.some.inj hbufs'
    obtain ⟨bufs, hbufs, hmodify⟩ := Option.bind_eq_some_iff.mp hmodify
    split_ifs at hmodify
    obtain rfl := Option.some.inj hmodify
    rw [StateSnd.sndCnt, Array.size_modify, Array.size_setIfInBounds]
    exact hs.size bufs hbufs

namespace Mixer

/-- The state channels as they are loaded. -/
def Fresh (m : Mixer n k) : Prop := ∀ j, (m.states j).buf.Fresh

variable {m m' : Mixer n k} {state threshIndex : ℕ} {status : MixerStatus}

theorem fresh_mixerInit (n k : ℕ) : (mixerInit n k).Fresh := by
  intro j t s hs
  cases hs

theorem Fresh.mixerAllocNewState {threshCnt : ℕ} (h : m.Fresh)
    (hcall : m.mixerAllocNewState state threshCnt = some (status, m')) : m'.Fresh :=
  ForallSnd.mixerAllocNewState kept_fresh h hcall

theorem Fresh.mixerAddStateThreshold {lBound hBound : ℚ} {sndCnt : ℕ} (h : m.Fresh)
    (hcall : m.mixerAddStateThreshold state threshIndex lBound hBound sndCnt
      = some (status, m')) : m'.Fresh :=
  ForallSnd.mixerAddStateThreshold kept_fresh h hcall

theorem Fresh.mixerAddState {noSnd len : ℕ} {sound : Option Sound} (h : m.Fresh)
    (hcall : m.mixerAddState state threshIndex noSnd sound len = some (status, m')) :
    m'.Fresh :=
  ForallSnd.mixerAddState kept_fresh h hcall

end Mixer

end Peep
