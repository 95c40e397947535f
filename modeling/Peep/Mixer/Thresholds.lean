import Peep.Library.Matches
import Peep.Mixer.Segments

/-!
# Two ways to the threshold of a state

The volume of a state selects one of its thresholds, and with it the segments that are played. Two
functions of `mixer.c` select it. `mixerGetStateThreshIndex` stops at the first threshold that has
the volume between its bounds; `mixerGetStateSndPtr` goes through all of them and keeps the last.
Where a fade begins, the number of the next segment is picked with the second one and the threshold
is recorded with the first one; while it goes on, that number is an index into the segments of the
recorded threshold.

The bounds belong to the thresholds on both sides. So a volume that is the bound between two
adjacent thresholds is in both of them.

## Main results

* `selectSame_iff` — the volumes for which the functions select the same threshold
* `exists_segment_of_selectSame` — and then a segment that is picked is one of the recorded
  threshold
-/

namespace Peep

open Matches

variable {b : StateBuf} {ts : Array Threshold} {t u : ℕ} {r : ℚ}

/-- The two functions select the same threshold. -/
def StateBuf.SelectSame (b : StateBuf) : Prop :=
  ∃ t, b.mixerGetStateThreshIndex = some t ∧ b.mixerGetStateSndPtr = some t

/-- The volume is between the bounds of the threshold `t`. -/
def StateBuf.InThreshold (b : StateBuf) (ts : Array Threshold) (t : ℕ) : Prop :=
  ∃ th, ts[t]? = some th ∧ th.lBound ≤ b.vol ∧ b.vol ≤ th.hBound

/-- No threshold ends below where it begins. -/
def Ascending (ts : Array Threshold) : Prop := ∀ th ∈ ts, th.lBound ≤ th.hBound

/-- Segments have been allocated for each threshold. -/
def Allotted (ts : Array Threshold) : Prop := ∀ th ∈ ts, th.stateSnd.sndBuf.isSome

theorem matchesAt_iff (hts : b.thresh = some ts) :
    MatchesAt b.Between b.bounds t ↔ b.InThreshold ts t := by
  rw [bounds_eq hts]
  simp only [MatchesAt, StateBuf.InThreshold, StateBuf.Between, List.getElem?_map,
    Array.getElem?_toList, Option.map_eq_some_iff, Bool.and_eq_true, decide_eq_true_iff]
  constructor
  · rintro ⟨-, ⟨th, hth, rfl⟩, hbetween⟩
    exact ⟨th, hth, hbetween⟩
  · rintro ⟨th, hth, hbetween⟩
    exact ⟨_, ⟨th, hth, rfl⟩, hbetween⟩

/-- Contiguous thresholds have a place for every volume. -/
theorem exists_inThreshold (hadj : Adjoining ts) (hpos : 0 ≤ b.vol) (hle : b.vol ≤ 1) :
    ∃ t, b.InThreshold ts t := by
  obtain ⟨t, ht, hbounds⟩ := hadj.exists_mem hpos hle
  exact ⟨t, ts[t], Array.getElem?_eq_getElem ht, hbounds⟩

/-- The loop of `mixerGetStateSndPtr` keeps the last match. -/
theorem mixerGetStateSndPtr_eq (hts : b.thresh = some ts) (hsnds : Allotted ts)
    (h : b.InThreshold ts t) :
    b.mixerGetStateSndPtr = some (lastIdx b.Between b.bounds) := by
  have hlast : b.lastThreshIndex = lastIdx b.Between b.bounds := lastThreshIndex_eq b
  obtain ⟨th, hth, -⟩ := (matchesAt_iff hts).mp (matchesAt_lastIdx ((matchesAt_iff hts).mpr h))
  rw [StateBuf.mixerGetStateSndPtr, hlast, deref?_eq_some_iff.mpr ⟨ts, hts, hth⟩]
  exact if_pos (hsnds th (Array.mem_of_getElem? hth))

/-- **The functions select the same threshold** exactly if the volume is in a single one. -/
theorem selectSame_iff_unique (hts : b.thresh = some ts) (hadj : Adjoining ts)
    (hsnds : Allotted ts) (hpos : 0 ≤ b.vol) (hle : b.vol ≤ 1) :
    b.SelectSame ↔ ∀ t u, b.InThreshold ts t → b.InThreshold ts u → t = u := by
  obtain ⟨t, ht⟩ := exists_inThreshold hadj hpos hle
  have hptr := mixerGetStateSndPtr_eq hts hsnds ht
  have hunique := findIdx?_eq_lastIdx_iff ((matchesAt_iff hts).mpr ht)
  simp only [matchesAt_iff hts] at hunique
  rw [← hunique, ← mixerGetStateThreshIndex_eq]
  constructor
  · rintro ⟨t, hindex, hsame⟩
    rw [hindex, ← hptr, hsame]
  · intro hindex
    exact ⟨_, hindex, hptr⟩

/-- A threshold ends before a later one begins. -/
theorem Adjoining.hBound_le (hadj : Adjoining ts) (hasc : Ascending ts) (hlt : t < u)
    (hu : u < ts.size) : ts[t].hBound ≤ ts[u].lBound := by
  induction u, hlt using Nat.le_induction with
  | base => exact (hadj.next t hu).ge
  | succ u hlt ih =>
    calc ts[t].hBound ≤ ts[u].lBound := ih (by omega)
      _ ≤ ts[u].hBound := hasc _ (Array.getElem_mem (by omega))
      _ = ts[u + 1].lBound := (hadj.next u hu).symm

/-- **Only a bound is in two thresholds.** -/
theorem unique_iff (hadj : Adjoining ts) (hasc : Ascending ts) :
    (∀ t u, b.InThreshold ts t → b.InThreshold ts u → t = u) ↔
      ∀ t (ht : t < ts.size), t + 1 < ts.size → b.vol ≠ ts[t].hBound := by
  constructor
  · intro hunique t ht hnext heq
    have hbound := hadj.next t hnext
    have hlower : ts[t].lBound ≤ ts[t].hBound := hasc _ (Array.getElem_mem ht)
    have hupper : ts[t + 1].lBound ≤ ts[t + 1].hBound := hasc _ (Array.getElem_mem hnext)
    have heither := hunique t (t + 1)
      ⟨ts[t], Array.getElem?_eq_getElem ht, heq ▸ hlower, heq.le⟩
      ⟨ts[t + 1], Array.getElem?_eq_getElem hnext, by rw [hbound, heq], by rwa [heq, ← hbound]⟩
    omega
  · intro hne
    have hnot : ∀ t u, t < u → b.InThreshold ts t → ¬ b.InThreshold ts u := by
      rintro t u hlt ⟨th, hth, -, hle⟩ ⟨uh, huh, hge, -⟩
      obtain ⟨ht, rfl⟩ := Array.getElem?_eq_some_iff.mp hth
      obtain ⟨hu, rfl⟩ := Array.getElem?_eq_some_iff.mp huh
      have hbound := hadj.hBound_le hasc hlt hu
      exact hne t ht (by omega) (le_antisymm hle (hbound.trans hge))
    intro t u ht hu
    rcases lt_trichotomy t u with hlt | heq | hgt
    · exact absurd hu (hnot t u hlt ht)
    · exact heq
    · exact absurd ht (hnot u t hgt hu)

/-- **When the functions select the same threshold.** The volume is in a single one; and where none
ends below where it begins, that is: the volume is not the bound between two of them. -/
theorem selectSame_iff (hts : b.thresh = some ts) (hadj : Adjoining ts) (hsnds : Allotted ts)
    (hpos : 0 ≤ b.vol) (hle : b.vol ≤ 1) :
    (b.SelectSame ↔ ∀ t u, b.InThreshold ts t → b.InThreshold ts u → t = u) ∧
      (Ascending ts → (b.SelectSame ↔
        ∀ t (ht : t < ts.size), t + 1 < ts.size → b.vol ≠ ts[t].hBound)) := by
  have hunique := selectSame_iff_unique hts hadj hsnds hpos hle
  exact ⟨hunique, fun hasc => hunique.trans (unique_iff hadj hasc)⟩

/-- Two thresholds with the bound `1 / 5` between them, which is `51 / 255`. -/
def twoThresholds : Array Threshold :=
  #[⟨0, 1 / 5, some #[], #[], 0, 0⟩, ⟨1 / 5, 1, some #[], #[], 0, 0⟩]

/-- A state with these thresholds, at the volume `vol` of an event. -/
def atVolume (vol : ℕ) : StateBuf := ⟨some twoThresholds, 1 / 2, vol / 255, 0⟩

theorem adjoining_twoThresholds : Adjoining twoThresholds where
  pos := Nat.zero_lt_two
  first := le_rfl
  last := by
    intro t ht hlast
    obtain rfl : t = 1 := Nat.succ.inj hlast
    exact le_rfl
  next := by
    intro t ht
    obtain rfl : t = 0 := Nat.lt_one_iff.mp (Nat.lt_of_succ_lt_succ ht)
    rfl

theorem ascending_twoThresholds : Ascending twoThresholds := by
  intro th hth
  simp only [twoThresholds, List.mem_toArray, List.mem_cons, List.not_mem_nil, or_false] at hth
  obtain rfl | rfl := hth <;> norm_num

theorem allotted_twoThresholds : Allotted twoThresholds := by
  intro th hth
  simp only [twoThresholds, List.mem_toArray, List.mem_cons, List.not_mem_nil, or_false] at hth
  obtain rfl | rfl := hth <;> rfl

/-- The volume `50 / 255` is below the bound. -/
theorem selectSame_fifty : (atVolume 50).SelectSame := by
  have hiff := selectSame_iff (b := atVolume 50) rfl adjoining_twoThresholds
    allotted_twoThresholds (by norm_num [atVolume]) (by norm_num [atVolume])
  refine (hiff.2 ascending_twoThresholds).mpr fun t ht hnext => ?_
  obtain rfl : t = 0 := Nat.lt_one_iff.mp (Nat.lt_of_succ_lt_succ hnext)
  norm_num [atVolume, twoThresholds]

/-- **The bound is in both**: the first threshold is recorded, and the second one is played. -/
theorem not_selectSame_fiftyOne : ¬ (atVolume 51).SelectSame := by
  rw [selectSame_iff_unique rfl adjoining_twoThresholds allotted_twoThresholds
    (by norm_num [atVolume]) (by norm_num [atVolume])]
  intro h
  have heq : 0 = 1 := h 0 1 ⟨_, rfl, by norm_num [atVolume, twoThresholds],
      by norm_num [atVolume, twoThresholds]⟩
    ⟨_, rfl, by norm_num [atVolume, twoThresholds], by norm_num [atVolume, twoThresholds]⟩
  exact absurd heq Nat.zero_ne_one

/-! ## Where the segments come from -/

/-- **A segment that is picked** is one of the threshold that a fade records, if the functions
select the same one. -/
theorem exists_segment_of_selectSame (h : b.Loaded) (hsame : b.SelectSame)
    (hr : r ∈ Set.Ico 0 1) : ∃ t s, b.mixerGetStateThreshIndex = some t ∧
      b.stateSnd? t = some s ∧ mixerPickRndStateSnd b r < s.sndCnt := by
  obtain ⟨t, hindex, hptr⟩ := hsame
  obtain ⟨s, hs, hlast⟩ := h.exists_stateSnd
  obtain rfl : b.lastThreshIndex = t := Option.some.inj (hlast.symm.trans hptr)
  refine ⟨_, s, hindex, hs, ?_⟩
  exact mixerPickRndStateSnd_lt (c := ⟨b, 0, 0, 0, 0⟩) h rfl hs hr

/-- A threshold that is added has its segments allocated. -/
theorem isSome_sndBuf_mixerAddStateThreshold {n k : ℕ} {m m' : Mixer n k} {state i sndCnt : ℕ}
    {lBound hBound : ℚ}
    (h : m.mixerAddStateThreshold state i lBound hBound sndCnt = some (.success, m')) :
    ∃ (hstate : state < k) (ts : Array Threshold) (th : Threshold),
      (m'.states ⟨state, hstate⟩).buf.thresh = some ts ∧ ts[i]? = some th ∧
      th.lBound = lBound ∧ th.hBound = hBound ∧ th.stateSnd.sndBuf.isSome := by
  obtain ⟨hstate, c, hc, rfl⟩ := Mixer.onState_eq_some.mp h
  refine ⟨hstate, ?_⟩
  split_ifs at hc
  · cases hc
  · cases hc
  obtain ⟨ts', hts', heq⟩ := Option.map_eq_some_iff.mp hc
  obtain ⟨-, rfl⟩ := Prod.mk.inj heq
  refine ⟨ts', ⟨lBound, hBound, some (Array.replicate sndCnt none), Array.replicate sndCnt 0, 0, 0⟩,
    ?_, ?_, rfl, rfl, rfl⟩
  · show (Function.update m.states ⟨state, hstate⟩ _ ⟨state, hstate⟩).buf.thresh = some ts'
    rw [Function.update_self]
  · obtain ⟨ts, -, hts⟩ := Option.bind_eq_some_iff.mp hts'
    split_ifs at hts with hi
    obtain rfl := Option.some.inj hts
    rw [Array.getElem?_modify, if_pos rfl, Array.getElem?_eq_getElem hi]
    rfl

end Peep
