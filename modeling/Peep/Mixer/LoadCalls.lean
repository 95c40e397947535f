import Peep.Mixer.Segments
import Peep.Library.StepSystem

/-!
# The calls that load the mixer

While a configuration is loaded, `mixerAllocNewState`, `mixerAddStateThreshold`, `mixerAddState` and
`mixerSetFadeTime` fill the tables of the state channels. The numbers of the state, the threshold
and the segment are those of the configuration file. What is out of range should be rejected, and
the tables left as they are.

Most of it is. But `thresh_index > thresh_cnt`, `no_snd > snd_cnt` and `j <= no_sbuffs` let the
first number behind the array pass, and the number of the state is compared with nothing in three of
the four functions.

## Choices

The counts are what the arrays were allocated with, and memory can be allocated.

## Main results

* `ForallSnd.load` — what is kept by each call is kept
* `rejects_iff` — which calls stay in range, or are rejected
* `along_rejects_iff` — the same for every sequence of calls from `mixerInit`
-/

namespace Peep

open StepSystem

/-- A call of one of the functions that load the state channels. -/
inductive LoadCall
  /-- `mixerAllocNewState`. -/
  | allocNewState (state threshCnt : ℕ)
  /-- `mixerAddStateThreshold`. -/
  | addStateThreshold (state threshIndex : ℕ) (lBound hBound : ℚ) (sndCnt : ℕ)
  /-- `mixerAddState`. -/
  | addState (state threshIndex noSnd : ℕ) (sound : Option Sound) (len : ℕ)
  /-- `mixerSetFadeTime`. -/
  | setFadeTime (j : ℕ) (time : ℚ)

variable {n k : ℕ}

namespace Mixer

/-- A call: what it returns, and the tables after it. -/
def load (m : Mixer n k) : LoadCall → Option (MixerStatus × Mixer n k)
  | .allocNewState state threshCnt => m.mixerAllocNewState state threshCnt
  | .addStateThreshold state threshIndex lBound hBound sndCnt =>
    m.mixerAddStateThreshold state threshIndex lBound hBound sndCnt
  | .addState state threshIndex noSnd sound len => m.mixerAddState state threshIndex noSnd sound len
  | .setFadeTime j time => m.mixerSetFadeTime j time

/-- A call in a sequence of calls: the caller goes on whatever is returned. -/
def loadStep (m : Mixer n k) (call : LoadCall) : Option (Mixer n k) := (m.load call).map Prod.snd

/-- A call either succeeds, without an access outside the arrays, or it returns a failure code and
leaves the tables as they are. -/
def Rejects (m : Mixer n k) (call : LoadCall) : Prop :=
  (∃ m', m.load call = some (.success, m')) ∨
    ∃ status ≠ .success, m.load call = some (status, m)

/-- The numbers for which the tests are right: an existing state, and no number that is the first
one behind its array. -/
def Tested (m : Mixer n k) : LoadCall → Prop
  | .allocNewState state _ => state < k
  | .addStateThreshold state threshIndex _ _ _ =>
    ∃ h : state < k, (m.states ⟨state, h⟩).buf.thresh = none ∨
      threshIndex ≠ (m.states ⟨state, h⟩).buf.threshCnt
  | .addState state threshIndex noSnd _ _ =>
    ∃ h : state < k, threshIndex ≠ (m.states ⟨state, h⟩).buf.threshCnt ∧
      ∀ s, (m.states ⟨state, h⟩).buf.stateSnd? threshIndex = some s → noSnd ≠ s.sndCnt
  | .setFadeTime j _ => j ≠ k

end Mixer

/-! ## What the calls keep -/

section Kept

variable {Q : StateSnd → Prop} {b : StateBuf} {t t' : ℕ} {s₁ s' : StateSnd}

/-- The segments after an assignment to those of one threshold. -/
theorem stateSnd?_setStateSnd_cases (h : (b.setStateSnd t s₁).stateSnd? t' = some s') :
    t' = t ∧ s' = s₁ ∨ t' ≠ t ∧ b.stateSnd? t' = some s' := by
  rw [stateSnd?_setStateSnd] at h
  split_ifs at h with ht
  · obtain ⟨-, -, rfl⟩ := Option.map_eq_some_iff.mp h
    exact .inl ⟨ht.symm, rfl⟩
  · exact .inr ⟨Ne.symm ht, h⟩

/-- It holds of the segments as they are allocated, and an assignment to a segment keeps it. -/
structure StateSnd.Kept (Q : StateSnd → Prop) : Prop where
  /-- The segments of a new threshold, before they are allocated. -/
  blank : Q ⟨none, #[], 0, 0⟩
  /-- The segments that `mixerAddStateThreshold` allocates. -/
  alloc : ∀ cnt, Q ⟨some (Array.replicate cnt none), Array.replicate cnt 0, 0, 0⟩
  /-- The assignments of `mixerAddState`. -/
  put : ∀ s snds i sound len, Q s → modify? s.sndBuf i (fun _ => sound) = some snds →
    Q { s with sndBuf := some snds, len := s.len.setIfInBounds i len }

/-- It holds of the segments of every threshold of a channel. -/
def StateBuf.ForallSnd (Q : StateSnd → Prop) (b : StateBuf) : Prop :=
  ∀ t s, b.stateSnd? t = some s → Q s

namespace Mixer

/-- It holds of the segments of every threshold. -/
def ForallSnd (Q : StateSnd → Prop) (m : Mixer n k) : Prop := ∀ j, (m.states j).buf.ForallSnd Q

variable {m m' : Mixer n k} {state threshIndex : ℕ} {status : MixerStatus}

theorem forallSnd_mixerInit (n k : ℕ) : (mixerInit n k).ForallSnd Q := by
  intro j t s hs
  cases hs

/-- A call on a state channel. -/
theorem ForallSnd.onState {f : StateChannel → Option (MixerStatus × StateChannel)}
    (h : m.ForallSnd Q)
    (hf : ∀ c c', c.buf.ForallSnd Q → f c = some (status, c') → c'.buf.ForallSnd Q)
    (hcall : m.onState state f = some (status, m')) : m'.ForallSnd Q := by
  obtain ⟨hlt, c, hc, rfl⟩ := onState_eq_some.mp hcall
  intro j
  show (Function.update m.states ⟨state, hlt⟩ c j).buf.ForallSnd Q
  rcases eq_or_ne j ⟨state, hlt⟩ with rfl | hj
  · rw [Function.update_self]
    exact hf _ c (h _) hc
  · rw [Function.update_of_ne hj]
    exact h j

theorem ForallSnd.mixerAllocNewState {threshCnt : ℕ} (hQ : StateSnd.Kept Q) (h : m.ForallSnd Q)
    (hcall : m.mixerAllocNewState state threshCnt = some (status, m')) : m'.ForallSnd Q := by
  obtain ⟨⟨status', m₁⟩, halloc, hcall⟩ := Option.bind_eq_some_iff.mp hcall
  have h₁ : m₁.ForallSnd Q := by
    refine h.onState (fun c c' hkept hc => ?_) halloc
    split_ifs at hc <;> obtain ⟨-, rfl⟩ := Prod.mk.inj (Option.some.inj hc)
    · exact hkept
    · intro t s hs
      obtain ⟨th, hth, rfl⟩ := Option.map_eq_some_iff.mp hs
      obtain ⟨ts, hts, hth⟩ := deref?_eq_some_iff.mp hth
      obtain rfl := Option.some.inj hts
      rw [Array.getElem?_replicate] at hth
      split_ifs at hth
      obtain rfl := Option.some.inj hth
      exact hQ.blank
  dsimp only at hcall
  split_ifs at hcall <;> obtain ⟨-, rfl⟩ := Prod.mk.inj (Option.some.inj hcall)
  · exact h₁
  · exact h₁

theorem ForallSnd.mixerAddStateThreshold {lBound hBound : ℚ} {sndCnt : ℕ} (hQ : StateSnd.Kept Q)
    (h : m.ForallSnd Q)
    (hcall : m.mixerAddStateThreshold state threshIndex lBound hBound sndCnt
      = some (status, m')) : m'.ForallSnd Q := by
  refine h.onState (fun c c' hkept hc => ?_) hcall
  split_ifs at hc
  · obtain ⟨-, rfl⟩ := Prod.mk.inj (Option.some.inj hc)
    exact hkept
  · obtain ⟨-, rfl⟩ := Prod.mk.inj (Option.some.inj hc)
    exact hkept
  · obtain ⟨ts, hts, hc⟩ := Option.map_eq_some_iff.mp hc
    obtain ⟨-, rfl⟩ := Prod.mk.inj hc
    intro t s hs
    obtain ⟨ts₀, hts₀, hmodify⟩ := Option.bind_eq_some_iff.mp hts
    split_ifs at hmodify
    obtain rfl := Option.some.inj hmodify
    obtain ⟨th, hth, rfl⟩ := Option.map_eq_some_iff.mp hs
    obtain ⟨ts, hts, hth⟩ := deref?_eq_some_iff.mp hth
    obtain rfl := Option.some.inj hts
    rw [Array.getElem?_modify] at hth
    split_ifs at hth
    · obtain ⟨-, -, rfl⟩ := Option.map_eq_some_iff.mp hth
      exact hQ.alloc sndCnt
    · refine hkept t th.stateSnd ?_
      rw [StateBuf.stateSnd?, hts₀, deref?_eq_some_iff.mpr ⟨ts₀, rfl, hth⟩]
      rfl

theorem ForallSnd.mixerAddState {noSnd len : ℕ} {sound : Option Sound} (hQ : StateSnd.Kept Q)
    (h : m.ForallSnd Q)
    (hcall : m.mixerAddState state threshIndex noSnd sound len = some (status, m')) :
    m'.ForallSnd Q := by
  refine h.onState (fun c c' hkept hc => ?_) hcall
  split_ifs at hc
  · obtain ⟨-, rfl⟩ := Prod.mk.inj (Option.some.inj hc)
    exact hkept
  · obtain ⟨s, hs, hc⟩ := Option.bind_eq_some_iff.mp hc
    split_ifs at hc
    · obtain ⟨-, rfl⟩ := Prod.mk.inj (Option.some.inj hc)
      exact hkept
    obtain ⟨there, -, hc⟩ := Option.bind_eq_some_iff.mp hc
    split_ifs at hc
    · obtain ⟨-, rfl⟩ := Prod.mk.inj (Option.some.inj hc)
      exact hkept
    obtain ⟨snds, hsnds, hc⟩ := Option.bind_eq_some_iff.mp hc
    obtain ⟨-, rfl⟩ := Prod.mk.inj (Option.some.inj hc)
    intro t s' hs'
    rcases stateSnd?_setStateSnd_cases hs' with ⟨-, rfl⟩ | ⟨-, hs'⟩
    · exact hQ.put s snds noSnd sound len (hkept threshIndex s hs) hsnds
    · exact hkept t s' hs'

theorem ForallSnd.mixerSetFadeTime {j : ℕ} {time : ℚ} (h : m.ForallSnd Q)
    (hcall : m.mixerSetFadeTime j time = some (status, m')) : m'.ForallSnd Q := by
  rw [Mixer.mixerSetFadeTime] at hcall
  split_ifs at hcall
  · refine h.onState (fun c c' hkept hc => ?_) hcall
    obtain ⟨-, rfl⟩ := Prod.mk.inj (Option.some.inj hc)
    exact hkept
  · obtain ⟨-, rfl⟩ := Prod.mk.inj (Option.some.inj hcall)
    exact h

/-- **What each call keeps** is kept. -/
theorem ForallSnd.load (hQ : StateSnd.Kept Q) (h : m.ForallSnd Q) {call : LoadCall}
    (hcall : m.load call = some (status, m')) : m'.ForallSnd Q := by
  cases call with
  | allocNewState => exact h.mixerAllocNewState hQ hcall
  | addStateThreshold => exact h.mixerAddStateThreshold hQ hcall
  | addState => exact h.mixerAddState hQ hcall
  | setFadeTime => exact h.mixerSetFadeTime hcall

end Mixer

end Kept

/-! ## What is rejected -/

section Arrays

variable {α : Type} {xs : Option (Array α)} {i : ℕ} {f : α → α}

theorem deref?_eq_none_iff : deref? xs i = none ↔ (xs.getD #[]).size ≤ i := by
  cases xs with
  | none => simp [deref?]
  | some xs => exact Array.getElem?_eq_none_iff

theorem modify?_eq_none_iff : modify? xs i f = none ↔ (xs.getD #[]).size ≤ i := by
  cases xs with
  | none => simp [modify?]
  | some xs => simp [modify?]

end Arrays

/-- There is a length for each segment, and none without segments. -/
def StateSnd.Paired (s : StateSnd) : Prop := (s.sndBuf.getD #[]).size = s.sndCnt

theorem kept_paired : StateSnd.Kept StateSnd.Paired where
  blank := rfl
  alloc cnt := by simp [StateSnd.Paired, StateSnd.sndCnt]
  put s snds i sound len hs hmodify := by
    obtain ⟨bufs, hbufs, hmodify⟩ := Option.bind_eq_some_iff.mp hmodify
    split_ifs at hmodify
    obtain rfl := Option.some.inj hmodify
    rw [StateSnd.Paired, hbufs, Option.getD_some] at hs
    rw [StateSnd.Paired, Option.getD_some, Array.size_modify, hs, StateSnd.sndCnt, StateSnd.sndCnt,
      Array.size_setIfInBounds]

namespace StateChannel

/-- A call on a channel succeeds, or returns a failure code and leaves the channel as it is. -/
def Settles (c : StateChannel) (result : Option (MixerStatus × StateChannel)) : Prop :=
  (∃ c', result = some (.success, c')) ∨ ∃ status ≠ .success, result = some (status, c)

variable {c : StateChannel} {status : MixerStatus}

theorem settles_success (c c' : StateChannel) : c.Settles (some (.success, c')) := .inl ⟨c', rfl⟩

theorem settles_failure (h : status ≠ .success) : c.Settles (some (status, c)) :=
  .inr ⟨status, h, rfl⟩

theorem not_settles_none (c : StateChannel) : ¬ c.Settles none := by
  rintro (⟨c', h⟩ | ⟨status, -, h⟩)
  · cases h
  · cases h

end StateChannel

namespace Mixer

variable {m : Mixer n k}

/-- A call on a state channel is rejected as the channel rejects it. -/
theorem rejects_onState_iff {call : LoadCall} {state : ℕ}
    {f : StateChannel → Option (MixerStatus × StateChannel)}
    (hload : m.load call = m.onState state f) :
    m.Rejects call ↔
      ∃ h : state < k, (m.states ⟨state, h⟩).Settles (f (m.states ⟨state, h⟩)) := by
  rw [Rejects, hload]
  constructor
  · rintro (⟨m', hm⟩ | ⟨status, hstatus, hm⟩)
    · obtain ⟨h, c, hc, -⟩ := onState_eq_some.mp hm
      exact ⟨h, .inl ⟨c, hc⟩⟩
    · obtain ⟨h, c, hc, hsame⟩ := onState_eq_some.mp hm
      have hstates : m.states = Function.update m.states ⟨state, h⟩ c :=
        congrArg Mixer.states hsame
      have hcsame : m.states ⟨state, h⟩ = c := by
        rw [congrFun hstates ⟨state, h⟩, Function.update_self]
      exact ⟨h, .inr ⟨status, hstatus, by rw [hc, hcsame]⟩⟩
  · rintro ⟨h, ⟨c, hc⟩ | ⟨status, hstatus, hc⟩⟩
    · exact .inl ⟨_, onState_eq_some.mpr ⟨h, c, hc, rfl⟩⟩
    · refine .inr ⟨status, hstatus, onState_eq_some.mpr ⟨h, _, hc, ?_⟩⟩
      rw [Function.update_eq_self]

theorem rejects_allocNewState_iff {state threshCnt : ℕ} :
    m.Rejects (.allocNewState state threshCnt) ↔ state < k := by
  constructor
  · intro h
    by_contra hstate
    have hnone : m.load (.allocNewState state threshCnt) = none := by
      rw [load, mixerAllocNewState, onState, dif_neg hstate]
      rfl
    rcases h with ⟨m', h⟩ | ⟨status, -, h⟩
    · rw [hnone] at h
      cases h
    · rw [hnone] at h
      cases h
  · intro hstate
    by_cases hthere : (m.states ⟨state, hstate⟩).buf.thresh.isSome
    · refine .inr ⟨.alreadyAlloc, by decide, ?_⟩
      rw [load, mixerAllocNewState, onState, dif_pos hstate, if_pos hthere, Option.map_some,
        Function.update_eq_self]
      rfl
    · rw [Rejects, load, mixerAllocNewState, onState, dif_pos hstate, if_neg hthere]
      exact .inl ⟨_, rfl⟩

theorem rejects_addStateThreshold_iff {state threshIndex sndCnt : ℕ} {lBound hBound : ℚ} :
    m.Rejects (.addStateThreshold state threshIndex lBound hBound sndCnt) ↔
      m.Tested (.addStateThreshold state threshIndex lBound hBound sndCnt) := by
  rw [rejects_onState_iff (by rw [load, mixerAddStateThreshold]), Tested]
  refine exists_congr fun h => ?_
  generalize m.states ⟨state, h⟩ = c
  split_ifs with hbound hnone
  · exact iff_of_true (StateChannel.settles_failure (by decide)) (.inr hbound.ne')
  · exact iff_of_true (StateChannel.settles_failure (by decide))
      (.inl (Option.isNone_iff_eq_none.mp hnone))
  · have hthresh : c.buf.thresh ≠ none := fun hnil => hnone (Option.isNone_iff_eq_none.mpr hnil)
    rcases hmodify : modify? c.buf.thresh threshIndex _ with - | ts
    · refine iff_of_false (StateChannel.not_settles_none _) ?_
      have hle : c.buf.threshCnt ≤ threshIndex := modify?_eq_none_iff.mp hmodify
      rintro (hnil | hne)
      · exact hthresh hnil
      · exact hne (le_antisymm (not_lt.mp hbound) hle)
    · refine iff_of_true (StateChannel.settles_success _ _) (.inr fun heq => ?_)
      have hle : (c.buf.thresh.getD #[]).size ≤ threshIndex := heq.ge
      rw [modify?_eq_none_iff.mpr hle] at hmodify
      cases hmodify

theorem rejects_addState_iff {state threshIndex noSnd len : ℕ} {sound : Option Sound}
    (hpaired : m.ForallSnd StateSnd.Paired) :
    m.Rejects (.addState state threshIndex noSnd sound len) ↔
      m.Tested (.addState state threshIndex noSnd sound len) := by
  rw [rejects_onState_iff (by rw [load, mixerAddState]), Tested]
  refine exists_congr fun h => ?_
  have hbuf := hpaired ⟨state, h⟩ threshIndex
  generalize m.states ⟨state, h⟩ = c at hbuf ⊢
  have hnull : c.buf.stateSnd? threshIndex = none ↔ c.buf.threshCnt ≤ threshIndex := by
    rw [StateBuf.stateSnd?, Option.map_eq_none_iff, deref?_eq_none_iff, StateBuf.threshCnt]
  split_ifs with hbound
  · refine iff_of_true (StateChannel.settles_failure (by decide)) ⟨hbound.ne', fun s hs => ?_⟩
    rw [hnull.mpr hbound.le] at hs
    cases hs
  rcases hs : c.buf.stateSnd? threshIndex with - | s
  · refine iff_of_false (StateChannel.not_settles_none _) fun hne => ?_
    exact hne.1 (le_antisymm (not_lt.mp hbound) (hnull.mp hs))
  · have hne : threshIndex ≠ c.buf.threshCnt := by
      rintro rfl
      rw [hnull.mpr le_rfl] at hs
      cases hs
    have hsize : (s.sndBuf.getD #[]).size = s.sndCnt := hbuf s hs
    simp only [hne, ne_eq, not_false_eq_true, true_and, Option.some.injEq, forall_eq',
      Option.bind_eq_bind, Option.bind_some]
    split_ifs with hcnt
    · exact iff_of_true (StateChannel.settles_failure (by decide)) hcnt.ne'
    rcases hthere : deref? s.sndBuf noSnd with - | there
    · refine iff_of_false (StateChannel.not_settles_none _) fun hnot => hnot ?_
      have hle := deref?_eq_none_iff.mp hthere
      omega
    have hlt : noSnd < s.sndCnt := by
      by_contra hge
      rw [deref?_eq_none_iff.mpr (hsize ▸ not_lt.mp hge)] at hthere
      cases hthere
    refine iff_of_true ?_ hlt.ne
    rw [Option.bind_some]
    split_ifs
    · exact StateChannel.settles_failure (by decide)
    rcases hmodify : modify? s.sndBuf noSnd _ with - | snds
    · have hle := modify?_eq_none_iff.mp hmodify
      omega
    · exact StateChannel.settles_success _ _

theorem rejects_setFadeTime_iff {j : ℕ} {time : ℚ} :
    m.Rejects (.setFadeTime j time) ↔ j ≠ k := by
  by_cases hj : j ≤ k
  · rw [rejects_onState_iff (by rw [load, mixerSetFadeTime, if_pos hj])]
    constructor
    · rintro ⟨h, -⟩
      exact h.ne
    · exact fun hne => ⟨lt_of_le_of_ne hj hne, StateChannel.settles_success _ _⟩
  · refine iff_of_true (.inr ⟨.error, by decide, ?_⟩) (not_le.mp hj).ne'
    rw [load, mixerSetFadeTime, if_neg hj]

/-- **Which calls stay in range or are rejected**: those whose numbers pass the tests rightly. -/
theorem rejects_iff (hpaired : m.ForallSnd StateSnd.Paired) (call : LoadCall) :
    m.Rejects call ↔ m.Tested call := by
  cases call with
  | allocNewState => exact rejects_allocNewState_iff
  | addStateThreshold => exact rejects_addStateThreshold_iff
  | addState => exact rejects_addState_iff hpaired
  | setFadeTime => exact rejects_setFadeTime_iff

end Mixer

open Mixer in
/-- **Loading**: every call of a sequence stays in range or is rejected exactly if every number of
the sequence passes the tests rightly. -/
theorem along_rejects_iff (n k : ℕ) (calls : List LoadCall) :
    Along loadStep Rejects (mixerInit n k) calls ↔
      Along loadStep Tested (mixerInit n k) calls := by
  refine along_iff_of_invariant (I := Mixer.ForallSnd StateSnd.Paired) ?_
    (fun m call hm => rejects_iff hm call) (forallSnd_mixerInit n k)
  intro m call m' hm _ hstep
  obtain ⟨⟨status, m'⟩, hcall, rfl⟩ := Option.map_eq_some_iff.mp hstep
  exact hm.load kept_paired hcall

/-- **The first threshold behind the array**: a state with one threshold, and bounds for the
threshold `1`. -/
theorem not_along_rejects_threshold : ¬ Along Mixer.loadStep Mixer.Rejects (mixerInit 1 1)
    [.allocNewState 0 1, .addStateThreshold 0 1 0 1 1] := by
  intro h
  have hsecond := (h.2 _ rfl).1
  rcases hsecond with ⟨m', hm⟩ | ⟨status, -, hm⟩
  · cases hm
  · cases hm

end Peep
