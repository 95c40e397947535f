import Peep.Mixer.Loop

/-!
# The segments of a state channel

What a loaded state channel looks like, and how an iteration of the mixer's loop moves through it.
The thresholds and the lengths of their segments stay as they are; what changes is the segment and
the position of the current threshold, and the record of the fade. So every part of an iteration is
described by a segment, a position and a fade (`StateChannel.put`), and the questions whether an
access is in range are questions about lengths (`StateBuf.len`).

## Main results

* `StateBuf.Loaded.exists_sound` — an index below a length is in range
* `apply_idle`, `apply_begin`, `apply_mix` — what the filter does outside a fade, where one begins,
  and within one
* `mixStateChannel_put` — an iteration, part by part
-/

namespace Peep

open Double
open Pcm

/-! ## Loaded channels -/

/-- A positive number of segments, each a nonempty array with its length beside it. -/
structure StateSnd.Loaded (s : StateSnd) : Prop where
  /-- There is a segment. -/
  pos : 0 < s.sndCnt
  /-- There is a sound for each length, and none is empty. -/
  sounds : ∃ bufs, s.sndBuf = some bufs ∧ bufs.size = s.sndCnt ∧ ∀ i (hi : i < s.len.size),
    ∃ snd : Sound, bufs[i]? = some (some snd) ∧ snd.size = s.len[i] ∧ 0 < s.len[i]

/-- The thresholds are contiguous and cover the volumes from `0` to `1`. -/
structure Adjoining (ts : Array Threshold) : Prop where
  /-- There is a threshold. -/
  pos : 0 < ts.size
  /-- The first begins at `0`. -/
  first : ts[0].lBound ≤ 0
  /-- The last ends at `1`. -/
  last : ∀ t (ht : t < ts.size), t + 1 = ts.size → 1 ≤ ts[t].hBound
  /-- Each begins where the one before ends. -/
  next : ∀ t (ht : t + 1 < ts.size), ts[t + 1].lBound = ts[t].hBound

/-- Contiguous thresholds, each with its segments. -/
structure StateBuf.Loaded (b : StateBuf) : Prop where
  /-- The thresholds. -/
  thresh : ∃ ts, b.thresh = some ts ∧ Adjoining ts
  /-- The segments. -/
  stateSnd : ∀ t s, b.stateSnd? t = some s → s.Loaded

/-- The length of the segment `i` of the threshold `t`; `0` if there is none. -/
def StateBuf.len (b : StateBuf) (t i : ℕ) : ℕ := ((b.stateSnd? t).bind fun s => s.len[i]?).getD 0

variable {b : StateBuf} {c : StateChannel} {t t' i j o p q : ℕ} {s s' : StateSnd} {fade : FadeRec}
  {r vol : ℚ} {data : Int16} {ts : Array Threshold}

/-- A volume is in the first threshold that does not end below it. -/
theorem Adjoining.exists_mem {ts : Array Threshold} (h : Adjoining ts) (hpos : 0 ≤ vol)
    (hle : vol ≤ 1) : ∃ t, ∃ ht : t < ts.size, ts[t].lBound ≤ vol ∧ vol ≤ ts[t].hBound := by
  have hsize := h.pos
  have hend : ∃ t, ∃ ht : t < ts.size, vol ≤ ts[t].hBound :=
    ⟨ts.size - 1, by omega, hle.trans (h.last _ _ (by omega))⟩
  obtain ⟨t, ⟨ht, hbound⟩, hmin⟩ : ∃ t, (∃ ht : t < ts.size, vol ≤ ts[t].hBound) ∧
      ∀ k < t, ¬ ∃ hk : k < ts.size, vol ≤ ts[k].hBound :=
    ⟨Nat.find hend, Nat.find_spec hend, fun k => Nat.find_min hend⟩
  refine ⟨t, ht, ?_, hbound⟩
  rcases t with - | t
  · exact h.first.trans hpos
  · rw [h.next t ht]
    by_contra hnot
    exact hmin t (Nat.lt_succ_self t) ⟨by omega, (not_le.mp hnot).le⟩

/-- Only the bounds matter. -/
theorem Adjoining.modify (h : Adjoining ts) :
    Adjoining (ts.modify t fun th => { th with stateSnd := s }) := by
  have hbounds : ∀ u (hu : u < ts.size)
      (hu' : u < (ts.modify t fun th => { th with stateSnd := s }).size),
      (ts.modify t fun th => { th with stateSnd := s })[u].lBound = ts[u].lBound ∧
        (ts.modify t fun th => { th with stateSnd := s })[u].hBound = ts[u].hBound := by
    intro u hu hu'
    rw [Array.getElem_modify]
    split_ifs <;> exact ⟨rfl, rfl⟩
  have hsize : (ts.modify t fun th => { th with stateSnd := s }).size = ts.size :=
    Array.size_modify
  have hpos := h.pos
  refine ⟨by rwa [hsize], ?_, fun u hu hlast => ?_, fun u hu => ?_⟩
  · rw [(hbounds 0 hpos _).1]
    exact h.first
  · rw [hsize] at hlast
    rw [(hbounds u (by omega) hu).2]
    exact h.last u _ hlast
  · have hu' : u + 1 < ts.size := by rwa [← hsize]
    rw [(hbounds (u + 1) hu' hu).1, (hbounds u (by omega) _).2]
    exact h.next u hu'

theorem deref?_eq_some_iff {α : Type} {xs : Option (Array α)} {x : α} :
    deref? xs i = some x ↔ ∃ ys, xs = some ys ∧ ys[i]? = some x := by
  rw [deref?, Option.bind_eq_bind, Option.bind_eq_some_iff]

/-- **An index below a length is in range.** -/
theorem StateBuf.Loaded.exists_sound (h : b.Loaded) (hp : p < b.len t i) :
    ∃ s snd x, b.stateSnd? t = some s ∧ deref? s.sndBuf i = some (some snd) ∧
      s.len[i]? = some (b.len t i) ∧ snd[p]? = some x := by
  rcases hs : b.stateSnd? t with - | s
  · rw [StateBuf.len, hs] at hp
    exact absurd hp (Nat.not_lt_zero p)
  rcases hlen : s.len[i]? with - | n
  · rw [StateBuf.len, hs, Option.bind_some, hlen] at hp
    exact absurd hp (Nat.not_lt_zero p)
  have heq : b.len t i = n := by rw [StateBuf.len, hs, Option.bind_some, hlen, Option.getD_some]
  obtain ⟨hi, hn⟩ := Array.getElem?_eq_some_iff.mp hlen
  obtain ⟨bufs, hbufs, -, hsounds⟩ := (h.stateSnd t s hs).sounds
  obtain ⟨snd, hsnd, hsize, -⟩ := hsounds i hi
  have hp' : p < snd.size := by omega
  exact ⟨s, snd, snd[p], rfl, deref?_eq_some_iff.mpr ⟨bufs, hbufs, hsnd⟩, by rw [heq, hlen],
    Array.getElem?_eq_getElem hp'⟩

/-- A sound that is read is as long as its length says. -/
theorem StateBuf.Loaded.lt_len (h : b.Loaded) {snd : Sound} {x : Int16}
    (hs : b.stateSnd? t = some s) (hsnd : deref? s.sndBuf i = some (some snd))
    (hx : snd[p]? = some x) : i < s.sndCnt ∧ p < b.len t i := by
  obtain ⟨bufs, hbufs, hsize, hsounds⟩ := (h.stateSnd t s hs).sounds
  obtain ⟨ys, hys, hi⟩ := deref?_eq_some_iff.mp hsnd
  obtain rfl : bufs = ys := Option.some.inj (hbufs.symm.trans hys)
  have hlt : i < s.sndCnt := hsize ▸ (Array.getElem?_eq_some_iff.mp hi).1
  obtain ⟨snd', hsnd', hlen, -⟩ := hsounds i hlt
  obtain rfl : snd = snd' := Option.some.inj (Option.some.inj (hi.symm.trans hsnd'))
  refine ⟨hlt, ?_⟩
  rw [StateBuf.len, hs, Option.bind_some, Array.getElem?_eq_getElem hlt, Option.getD_some, ← hlen]
  exact (Array.getElem?_eq_some_iff.mp hx).1

/-- A segment that there is has a sample. -/
theorem StateBuf.Loaded.len_pos (h : b.Loaded) (hs : b.stateSnd? t = some s)
    (hi : i < s.sndCnt) : 0 < b.len t i := by
  obtain ⟨bufs, -, -, hsounds⟩ := (h.stateSnd t s hs).sounds
  obtain ⟨snd, -, -, hpos⟩ := hsounds i hi
  rwa [StateBuf.len, hs, Option.bind_some, Array.getElem?_eq_getElem hi, Option.getD_some]

/-! ## What moving through the segments leaves alone -/

theorem stateSnd?_setStateSnd (b : StateBuf) (t t' : ℕ) (s : StateSnd) :
    (b.setStateSnd t s).stateSnd? t'
      = if t = t' then (b.stateSnd? t').map fun _ => s else b.stateSnd? t' := by
  rcases hts : b.thresh with - | ts
  · simp [StateBuf.stateSnd?, StateBuf.setStateSnd, deref?, hts]
  · simp only [StateBuf.stateSnd?, StateBuf.setStateSnd, deref?, hts, Option.map_some,
      Option.bind_eq_bind, Option.bind_some, Array.getElem?_modify]
    split_ifs
    · rw [Option.map_map, Option.map_map]
      rfl
    · rfl

/-- The bounds of the thresholds. -/
def StateBuf.bounds (b : StateBuf) : List (ℚ × ℚ) :=
  (b.thresh.getD #[]).toList.map fun th => (th.lBound, th.hBound)

theorem bounds_setStateSnd (b : StateBuf) (t : ℕ) (s : StateSnd) :
    (b.setStateSnd t s).bounds = b.bounds := by
  rcases hts : b.thresh with - | ts
  · rw [StateBuf.bounds, StateBuf.bounds, StateBuf.setStateSnd, hts]
    rfl
  · rw [StateBuf.bounds, StateBuf.bounds, StateBuf.setStateSnd, hts]
    refine List.ext_getElem (by simp) fun k hk hk' => ?_
    simp only [Option.map_some, Option.getD_some, List.getElem_map, Array.getElem_toList,
      Array.getElem_modify]
    split_ifs <;> rfl

/-- The volume is between two bounds. -/
def StateBuf.Between (b : StateBuf) (bounds : ℚ × ℚ) : Bool :=
  bounds.1 ≤ b.vol && b.vol ≤ bounds.2

theorem mixerGetStateThreshIndex_eq (b : StateBuf) :
    b.mixerGetStateThreshIndex = b.bounds.findIdx? b.Between := by
  rw [StateBuf.mixerGetStateThreshIndex, StateBuf.bounds, List.findIdx?_map]
  generalize b.thresh.getD #[] = ts
  obtain ⟨l⟩ := ts
  rw [List.findIdx?_toArray]
  rfl

theorem lastThreshIndex_eq (b : StateBuf) : b.lastThreshIndex
    = b.bounds.zipIdx.foldl (fun index p => if b.Between p.1 then p.2 else index) 0 := by
  rw [StateBuf.lastThreshIndex, StateBuf.bounds, List.zipIdx_map, List.foldl_map]
  rfl

theorem bounds_eq (h : b.thresh = some ts) :
    b.bounds = ts.toList.map fun th => (th.lBound, th.hBound) := by
  rw [StateBuf.bounds, h, Option.getD_some]

/-- The threshold that is played is one of those there are. -/
theorem lastThreshIndex_lt (h : b.bounds ≠ []) : b.lastThreshIndex < b.bounds.length := by
  rw [lastThreshIndex_eq]
  refine List.foldlRecOn (motive := fun index => index < b.bounds.length) _ _
    (List.length_pos_iff.mpr h) fun index hindex x hx => ?_
  split_ifs
  · exact (List.mem_zipIdx' hx).1
  · exact hindex

/-- **There is a threshold for every volume.** -/
theorem StateBuf.Loaded.exists_threshIndex (h : b.Loaded) (hpos : 0 ≤ b.vol) (hle : b.vol ≤ 1) :
    ∃ t, b.mixerGetStateThreshIndex = some t := by
  obtain ⟨ts, hts, hadj⟩ := h.thresh
  obtain ⟨t, ht, hlo, hhi⟩ := hadj.exists_mem hpos hle
  rw [mixerGetStateThreshIndex_eq, ← Option.isSome_iff_exists, List.findIdx?_isSome,
    List.any_eq_true, bounds_eq hts]
  refine ⟨(ts[t].lBound, ts[t].hBound), List.mem_map.mpr ⟨ts[t], by simp, rfl⟩, ?_⟩
  rw [StateBuf.Between, Bool.and_eq_true, decide_eq_true_iff, decide_eq_true_iff]
  exact ⟨hlo, hhi⟩

/-- The segments that are played. -/
theorem StateBuf.Loaded.exists_stateSnd (h : b.Loaded) :
    ∃ s, b.stateSnd? b.lastThreshIndex = some s ∧
      b.mixerGetStateSndPtr = some b.lastThreshIndex := by
  obtain ⟨ts, hts, hadj⟩ := h.thresh
  have hlt : b.lastThreshIndex < ts.size := by
    have hlength : b.bounds.length = ts.size := by rw [bounds_eq hts]; simp
    rw [← hlength]
    refine lastThreshIndex_lt fun hnil => ?_
    rw [hnil] at hlength
    exact absurd hadj.pos (by rw [← hlength]; exact lt_irrefl 0)
  have hderef : deref? b.thresh b.lastThreshIndex = some ts[b.lastThreshIndex] :=
    deref?_eq_some_iff.mpr ⟨ts, hts, Array.getElem?_eq_getElem hlt⟩
  have hs : b.stateSnd? b.lastThreshIndex = some ts[b.lastThreshIndex].stateSnd := by
    rw [StateBuf.stateSnd?, hderef, Option.map_some]
  obtain ⟨bufs, hbufs, -⟩ := (h.stateSnd _ _ hs).sounds
  refine ⟨_, hs, ?_⟩
  rw [StateBuf.mixerGetStateSndPtr, hderef]
  show (if ts[b.lastThreshIndex].stateSnd.sndBuf.isSome then _ else _) = _
  rw [hbufs]
  rfl

/-! ## Positions -/

/-- The channel at the position `p` of the segment `i` of the threshold `t`. -/
def StateChannel.put (c : StateChannel) (t i p : ℕ) (fade : FadeRec) : StateChannel where
  buf := (c.buf.stateSnd? t).elim c.buf fun s => c.buf.setStateSnd t { s with sndNo := i, pos := p }
  fade := fade

@[simp] theorem fade_put : (c.put t i p fade).fade = fade := rfl

theorem setStateSnd_setStateSnd (b : StateBuf) (t : ℕ) (s s' : StateSnd) :
    (b.setStateSnd t s).setStateSnd t s' = b.setStateSnd t s' := by
  have hts : ((b.setStateSnd t s).setStateSnd t s').thresh = (b.setStateSnd t s').thresh := by
    rcases hts : b.thresh with - | ts
    · rw [StateBuf.setStateSnd, StateBuf.setStateSnd, StateBuf.setStateSnd, hts]
      rfl
    · simp only [StateBuf.setStateSnd, hts, Option.map_some, Option.some.injEq]
      refine Array.ext (by simp) fun k hk hk' => ?_
      simp only [Array.getElem_modify]
      split_ifs <;> rfl
  calc (b.setStateSnd t s).setStateSnd t s'
      = { b.setStateSnd t s' with thresh := ((b.setStateSnd t s).setStateSnd t s').thresh } := rfl
    _ = b.setStateSnd t s' := by rw [hts]

theorem setStateSnd_self (hs : b.stateSnd? t = some s) : b.setStateSnd t s = b := by
  have hts : (b.setStateSnd t s).thresh = b.thresh := by
    rcases hts : b.thresh with - | ts
    · rw [StateBuf.setStateSnd, hts]
      rfl
    · simp only [StateBuf.setStateSnd, hts, Option.map_some, Option.some.injEq]
      refine Array.ext (by simp) fun k hk hk' => ?_
      rw [Array.getElem_modify]
      split_ifs with hkt
      · subst hkt
        rw [StateBuf.stateSnd?, deref?, hts] at hs
        have hk'' : ts[t]? = some ts[t] := Array.getElem?_eq_getElem hk'
        obtain rfl : ts[t].stateSnd = s := by
          simpa [hk''] using hs
        rfl
      · rfl
  calc b.setStateSnd t s = { b with thresh := (b.setStateSnd t s).thresh } := rfl
    _ = b := by rw [hts]

section Put

variable (hs : c.buf.stateSnd? t = some s)

include hs

theorem buf_put : (c.put t i p fade).buf = c.buf.setStateSnd t { s with sndNo := i, pos := p } := by
  rw [StateChannel.put, hs]
  rfl

theorem stateSnd?_put :
    (c.put t i p fade).buf.stateSnd? t = some { s with sndNo := i, pos := p } := by
  rw [buf_put hs, stateSnd?_setStateSnd, if_pos rfl, hs]
  rfl

/-- Where the channel is. -/
theorem put_self : c.put t s.sndNo s.pos c.fade = c := by
  have hbuf : (c.put t s.sndNo s.pos c.fade).buf = c.buf := by
    rw [buf_put hs]
    exact setStateSnd_self hs
  calc c.put t s.sndNo s.pos c.fade = ⟨(c.put t s.sndNo s.pos c.fade).buf, c.fade⟩ := rfl
    _ = c := by rw [hbuf]

/-- Moving on. -/
theorem setStateSnd_put {fade' : FadeRec} :
    ⟨(c.put t i p fade).buf.setStateSnd t { s with sndNo := j, pos := q }, fade'⟩
      = c.put t j q fade' := by
  have hbuf : (c.put t i p fade).buf.setStateSnd t { s with sndNo := j, pos := q }
      = (c.put t j q fade').buf := by
    rw [buf_put hs, buf_put hs]
    exact setStateSnd_setStateSnd ..
  rw [hbuf]
  rfl

theorem bounds_put : (c.put t i p fade).buf.bounds = c.buf.bounds := by
  rw [buf_put hs, bounds_setStateSnd]

theorem settings_put : (c.put t i p fade).buf.settings = c.buf.settings := by
  rw [buf_put hs, StateBuf.settings_setStateSnd]

theorem vol_put : (c.put t i p fade).buf.vol = c.buf.vol := congrArg Prod.fst (settings_put hs)

theorem between_put : (c.put t i p fade).buf.Between = c.buf.Between := by
  funext bounds
  rw [StateBuf.Between, StateBuf.Between, vol_put hs]

/-- The lengths stay as they are. -/
theorem len_put : (c.put t i p fade).buf.len = c.buf.len := by
  funext u k
  rw [StateBuf.len, StateBuf.len, buf_put hs, stateSnd?_setStateSnd]
  split_ifs with htu
  · subst htu
    rw [hs]
    rfl
  · rfl

/-- The channel stays loaded. -/
theorem loaded_put (h : c.buf.Loaded) : (c.put t i p fade).buf.Loaded := by
  obtain ⟨ts, hts, hadj⟩ := h.thresh
  rw [buf_put hs]
  constructor
  · exact ⟨_, by rw [StateBuf.setStateSnd, hts, Option.map_some], hadj.modify⟩
  · intro u s' hs'
    rw [stateSnd?_setStateSnd] at hs'
    split_ifs at hs' with htu
    · subst htu
      rw [hs] at hs'
      obtain rfl := Option.some.inj hs'
      have hloaded := h.stateSnd t s hs
      exact ⟨hloaded.pos, hloaded.sounds⟩
    · exact h.stateSnd u s' hs'

/-- The threshold that is played stays. -/
theorem lastThreshIndex_put : (c.put t i p fade).buf.lastThreshIndex = c.buf.lastThreshIndex := by
  rw [lastThreshIndex_eq, lastThreshIndex_eq, bounds_put hs, between_put hs]

/-- The threshold that the fade records stays. -/
theorem mixerGetStateThreshIndex_put :
    (c.put t i p fade).buf.mixerGetStateThreshIndex = c.buf.mixerGetStateThreshIndex := by
  rw [mixerGetStateThreshIndex_eq, mixerGetStateThreshIndex_eq, bounds_put hs, between_put hs]

end Put

/-! ## The fade window -/

/-- `fade_pt` as a number of samples. -/
def FadeRec.window (fade : FadeRec) : ℕ := fade.fadePt.toNat

/-- **The fade point is even**, for a fade time that is not negative. -/
theorem fadePt_eq (h : 0 ≤ fade.fadeTime) : fade.fadePt = fade.window ∧ fade.window % 2 = 0 := by
  have hstereo : 0 ≤ toDouble (fade.fadeTime * STEREO) :=
    toDouble_nonneg (mul_nonneg h (Nat.cast_nonneg _))
  have hnonneg : 0 ≤ truncate (toDouble (toDouble (fade.fadeTime * STEREO) * SAMPLE_RATE)) :=
    truncate_nonneg (toDouble_nonneg (mul_nonneg hstereo (Nat.cast_nonneg _)))
  rw [FadeRec.window, FadeRec.fadePt]
  generalize truncate (toDouble (toDouble (fade.fadeTime * STEREO) * SAMPLE_RATE)) = x
    at hnonneg ⊢
  rw [Int.tmod_eq_emod_of_nonneg hnonneg]
  omega

/-- The effect flag is set. -/
def StateBuf.Fades (b : StateBuf) : Prop := b.filterFlag &&& STATE_LINEAR_FADE_FLAG ≠ 0

instance : Decidable b.Fades := inferInstanceAs (Decidable (_ ≠ _))

section Parts

variable (hs : c.buf.stateSnd? t = some s)

include hs

theorem filterFlag_put :
    (c.put t i p fade).buf.filterFlag &&& STATE_LINEAR_FADE_FLAG ≠ 0 ↔ c.buf.Fades := by
  rw [buf_put hs]
  rfl

theorem getElem?_len (hi : 0 < c.buf.len t i) : s.len[i]? = some (c.buf.len t i) := by
  rcases hlen : s.len[i]? with - | n
  · rw [StateBuf.len, hs, Option.bind_some, hlen] at hi
    exact absurd hi (lt_irrefl 0)
  · rw [StateBuf.len, hs, Option.bind_some, hlen, Option.getD_some]

theorem remainder_put (hi : 0 < c.buf.len t i) :
    (c.put t i p fade).remainder t q = some ((c.buf.len t i : ℤ) - q) := by
  rw [StateChannel.remainder, stateSnd?_put hs, Option.bind_eq_bind, Option.bind_some]
  show (s.len[i]?).bind _ = _
  rw [getElem?_len hs hi, Option.bind_some]

theorem fadeOn_put (hi : 0 < c.buf.len t i) :
    (c.put t i p fade).fadeOn t { s with sndNo := i, pos := p }
      = some (if c.buf.len t i ≤ p + 2
          then c.put t fade.snd (fade.pos + 1) { fade with pos := fade.pos + 1 }
          else c.put t i p { fade with pos := fade.pos + 1 }) := by
  show (s.len[i]?).bind _ = _
  rw [getElem?_len hs hi, Option.bind_some]
  show (if c.buf.len t i ≤ p + 2 then some _ else some _) = _
  split_ifs
  · exact congrArg some (setStateSnd_put hs)
  · rfl

theorem incoming?_put (h : c.buf.Loaded) (hnew : fade.pos < c.buf.len fade.oldThresh fade.snd) :
    ∃ new, (c.put t i p fade).incoming? = some new := by
  have hlen : (c.put t i p fade).buf.len = c.buf.len := len_put hs
  rw [← hlen] at hnew
  obtain ⟨s', snd, x, hs', hsnd, -, hx⟩ := (loaded_put hs h).exists_sound hnew
  refine ⟨x, ?_⟩
  rw [StateChannel.incoming?]
  show ((c.put t i p fade).buf.stateSnd? fade.oldThresh).bind _ = _
  rw [hs', Option.bind_some]
  show (deref? s'.sndBuf fade.snd).bind _ = _
  rw [hsnd, Option.bind_some]
  exact hx

end Parts

/-! ## The parts of an iteration -/

section Parts

variable (h : c.buf.Loaded) (ht : c.buf.lastThreshIndex = t) (hs : c.buf.stateSnd? t = some s)

include h ht hs

theorem mixerGetStateSndPtr_put : (c.put t i p fade).buf.mixerGetStateSndPtr = some t := by
  have hput : (c.put t i p fade).buf.Loaded := loaded_put hs h
  obtain ⟨-, -, hptr⟩ := hput.exists_stateSnd
  rw [hptr, lastThreshIndex_put hs, ht]

theorem mixerPickRndStateSnd_eq :
    mixerPickRndStateSnd c.buf r = (truncate (s.sndCnt * r)).toNat := by
  obtain ⟨-, -, hptr⟩ := h.exists_stateSnd
  rw [mixerPickRndStateSnd, hptr, ht, Option.bind_some, hs]

theorem mixerPickRndStateSnd_put :
    mixerPickRndStateSnd (c.put t i p fade).buf r = mixerPickRndStateSnd c.buf r := by
  rw [mixerPickRndStateSnd_eq h ht hs, mixerPickRndStateSnd_eq (loaded_put hs h)
    ((lastThreshIndex_put hs).trans ht) (stateSnd?_put hs)]
  rfl

/-- **A segment that is picked is one of the threshold.** -/
theorem mixerPickRndStateSnd_lt (hr : r ∈ Set.Ico 0 1) :
    mixerPickRndStateSnd c.buf r < s.sndCnt := by
  rw [mixerPickRndStateSnd_eq h ht hs]
  exact toNat_truncate_mul_lt (h.stateSnd t s hs).pos hr.1 hr.2

theorem len_mixerPickRndStateSnd_pos (hr : r ∈ Set.Ico 0 1) :
    0 < c.buf.len t (mixerPickRndStateSnd c.buf r) :=
  h.len_pos hs (mixerPickRndStateSnd_lt h ht hs hr)

/-- The filter, in terms of lengths. -/
theorem mixerApplyStateFilters_put (r : ℚ) (data : Int16) (p q : ℕ) (fade : FadeRec)
    (hi : 0 < c.buf.len t i) (hfades : c.buf.Fades) :
    ∃ f : Int16 → Int16, mixerApplyStateFilters r data q (c.put t i p fade)
      = if fade.fadePt < (c.buf.len t i : ℤ) - q then some (data, c.put t i p fade)
        else if (c.buf.len t i : ℤ) - q = fade.fadePt then
          c.buf.mixerGetStateThreshIndex.bind fun old => some (data, c.put t i p { fade with
            snd := mixerPickRndStateSnd c.buf r, pos := p % 2, oldThresh := old })
        else (c.put t i p fade).incoming?.bind fun new => some (f new,
          if c.buf.len t i ≤ p + 2
            then c.put t fade.snd (fade.pos + 1) { fade with pos := fade.pos + 1 }
            else c.put t i p { fade with pos := fade.pos + 1 }) := by
  refine ⟨fun new => toShort (data.toInt * ((((c.buf.len t i : ℤ) - q : ℤ) : ℚ) / fade.fadePt)
    + new.toInt * (c.put t i p fade).newWeight { s with sndNo := i, pos := p }
      * (1 - (((c.buf.len t i : ℤ) - q : ℤ) : ℚ) / fade.fadePt)), ?_⟩
  rw [mixerApplyStateFilters, if_pos ((filterFlag_put hs).mpr hfades), mixerFadeEffect,
    mixerGetStateSndPtr_put h ht hs]
  simp only [stateSnd?_put hs, remainder_put hs hi, Option.bind_eq_bind, Option.bind_some,
    mixerGetStateThreshIndex_put hs, mixerPickRndStateSnd_put h ht hs, fadeOn_put hs hi, fade_put]
  rfl

/-- The filter outside a fade. -/
theorem apply_idle (hi : 0 < c.buf.len t i)
    (hidle : c.buf.Fades → fade.fadePt + q < c.buf.len t i) :
    ∃ x, mixerApplyStateFilters r data q (c.put t i p fade) = some (x, c.put t i p fade) := by
  by_cases hfades : c.buf.Fades
  · obtain ⟨f, hf⟩ := mixerApplyStateFilters_put h ht hs r data p q fade hi hfades
    have hlt := hidle hfades
    exact ⟨data, by rw [hf, if_pos (by omega)]⟩
  · refine ⟨data, ?_⟩
    rw [mixerApplyStateFilters, if_neg fun hput => hfades ((filterFlag_put hs).mp hput)]

/-- The filter where a fade begins. -/
theorem apply_begin (hi : 0 < c.buf.len t i) (hfades : c.buf.Fades)
    (hq : fade.fadePt + q = c.buf.len t i) (ho : c.buf.mixerGetStateThreshIndex = some o) :
    ∃ x, mixerApplyStateFilters r data q (c.put t i p fade)
      = some (x, c.put t i p { fade with
          snd := mixerPickRndStateSnd c.buf r, pos := p % 2, oldThresh := o }) := by
  obtain ⟨f, hf⟩ := mixerApplyStateFilters_put h ht hs r data p q fade hi hfades
  refine ⟨data, ?_⟩
  rw [hf, if_neg (by omega), if_pos (by omega), ho, Option.bind_some]

/-- The filter within a fade. -/
theorem apply_mix (hi : 0 < c.buf.len t i) (hfades : c.buf.Fades)
    (hq : c.buf.len t i < fade.fadePt + q) (hnew : fade.pos < c.buf.len fade.oldThresh fade.snd) :
    ∃ x, mixerApplyStateFilters r data q (c.put t i p fade)
      = some (x, if c.buf.len t i ≤ p + 2
          then c.put t fade.snd (fade.pos + 1) { fade with pos := fade.pos + 1 }
          else c.put t i p { fade with pos := fade.pos + 1 }) := by
  obtain ⟨f, hf⟩ := mixerApplyStateFilters_put h ht hs r data p q fade hi hfades
  obtain ⟨new, hincoming⟩ := incoming?_put (t := t) (i := i) (p := p) hs h hnew
  refine ⟨f new, ?_⟩
  rw [hf, if_neg (by omega), if_neg (by omega), hincoming, Option.bind_some]

/-- The end of the loop body. -/
theorem advance_put (hi : 0 < c.buf.len t i) : (c.put t i p fade).advance t r
    = some (if c.buf.len t i ≤ p + 2 then c.put t (mixerPickRndStateSnd c.buf r) 0 fade
        else c.put t i (p + 2) fade) := by
  rw [StateChannel.advance, stateSnd?_put hs, Option.bind_eq_bind, Option.bind_some]
  show (s.len[i]?).bind _ = _
  rw [getElem?_len hs hi, Option.bind_some, mixerPickRndStateSnd_put h ht hs]
  show (if c.buf.len t i ≤ p + 2 then some _ else some _) = _
  split_ifs
  · exact congrArg some (setStateSnd_put hs)
  · exact congrArg some (setStateSnd_put hs)

/-- **An iteration, part by part**: the filter for the left side, the filter for the right side,
and the end of the loop body. -/
theorem mixStateChannel_put {f : Fractions} {i₁ p₁ i₂ p₂ : ℕ} {fade₁ fade₂ : FadeRec}
    (hvol : c.buf.vol ≠ 0) (hp : p + 1 < c.buf.len t i) (hi : 0 < c.buf.len t i₂)
    (hleft : ∀ data, ∃ x, mixerApplyStateFilters f.left data p (c.put t i p fade)
      = some (x, c.put t i₁ p₁ fade₁))
    (hright : ∀ data, ∃ x, mixerApplyStateFilters f.right data (p₁ + 1) (c.put t i₁ p₁ fade₁)
      = some (x, c.put t i₂ p₂ fade₂)) :
    ∃ samples, mixStateChannel f (c.put t i p fade) = some (samples,
      if c.buf.len t i₂ ≤ p₂ + 2 then c.put t (mixerPickRndStateSnd c.buf f.atEnd) 0 fade₂
      else c.put t i₂ (p₂ + 2) fade₂) := by
  have hvol' : (c.put t i p fade).buf.vol ≠ 0 := by rwa [vol_put hs]
  obtain ⟨s', snd, right, hs', hsnd, -, hright'⟩ := h.exists_sound hp
  obtain rfl : s = s' := Option.some.inj (hs.symm.trans hs')
  obtain ⟨hlt, -⟩ := Array.getElem?_eq_some_iff.mp hright'
  have hleft' : snd[p]? = some snd[p] := Array.getElem?_eq_getElem (Nat.lt_of_succ_lt hlt)
  obtain ⟨x, hx⟩ := hleft ((c.put t i p fade).buf.sample snd[p] right).1
  obtain ⟨y, hy⟩ := hright ((c.put t i p fade).buf.sample snd[p] right).2
  have hproduce : (c.put t i p fade).produce f t { s with sndNo := i, pos := p } snd
      = some ((x, y), c.put t i₂ p₂ fade₂) :=
    StateChannel.produce_eq_some.mpr ⟨snd[p], right, _, { s with sndNo := i₁, pos := p₁ },
      hleft', hright', hx, stateSnd?_put hs, hy⟩
  refine ⟨[(x, y)], ?_⟩
  rw [mixStateChannel, if_neg hvol', mixerGetStateSndPtr_put h ht hs]
  simp only [stateSnd?_put hs, hsnd, hproduce, advance_put h ht hs hi, Option.bind_eq_bind,
    Option.bind_some]

end Parts

end Peep
