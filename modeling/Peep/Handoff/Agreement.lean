import Peep.Handoff
import Peep.Library.StepSystem

/-!
# Whether the two tables agree

A channel should be busy in `sched` exactly while it has a sound in `ebuffs`, apart from the moments
in which a thread is about to change the one after the other. Both threads write `ebuffs` first and
`sched` second. What the mixer does to a channel between the two is no concern of the engine, which
leaves channels alone that are busy in `sched`. But the mixer does not look at `sched`: a sound that
the engine has put on a channel can be done before the engine records its start, and then the record
says that an idle channel is busy, for good.

## Main results

* `Handoff.agrees_of_inTime` — the tables agree at rest as long as the engine records the start of a
  sound while it plays
* `Handoff.not_agrees_short_sound` — a sound of two samples that is done too early
-/

namespace Peep

open StepSystem

variable {n k : ℕ}

/-- The channel that the engine thread is at. -/
def EngineAt.channel? : EngineAt n → Option (Fin n)
  | .idle | .scanning _ _ _ | .asking _ | .enqueuing _ => none
  | .chosen _ c | .interrupting _ c | .unmarking _ c | .testing _ c | .adding _ c _
  | .recording _ c => some c

/-- The channel whose start the engine thread is about to record. -/
def EngineAt.recording? : EngineAt n → Option (Fin n)
  | .recording _ c => some c
  | _ => none

namespace MixerAt

/-- How the two tables stand to each other for a channel that the engine is not at. The mixer
changes `sched` after `ebuffs`. -/
def Allows (c : Fin n) (busy marked : Prop) : MixerAt n → Prop
  | .unmarking j => if j = c then ¬ busy else (busy ↔ marked)
  | .adding j _ _ => j ≠ c → (busy ↔ marked)
  | .marking j _ => if j = c then busy else (busy ↔ marked)
  | _ => busy ↔ marked

/-- The engine may record a sound on a channel: it is playing, or the mixer, which has cleared the
channel, is about to free it or to put a queued sound on it. -/
def InTime (c : Fin n) (busy : Prop) : MixerAt n → Prop
  | .unmarking j => if j = c then ¬ busy else busy
  | .adding j _ _ => j ≠ c → busy
  | _ => busy

instance (c : Fin n) (busy : Prop) [Decidable busy] (p : MixerAt n) :
    Decidable (p.InTime c busy) :=
  match p with
  | .unmarking j => inferInstanceAs (Decidable (if j = c then ¬ busy else busy))
  | .adding j _ _ => inferInstanceAs (Decidable (j ≠ c → busy))
  | .scanning _ | .mixing _ | .checking _ | .removing _ | .asking _ | .dequeuing _ | .deciding _ _
  | .testing _ _ | .marking _ _ => inferInstanceAs (Decidable busy)

variable {p : MixerAt n} {c : Fin n} {busy marked : Prop}

theorem InTime.allows (h : p.InTime c busy) (hmarked : marked) : p.Allows c busy marked := by
  cases p with
  | unmarking j =>
    simp only [InTime, Allows] at h ⊢
    split_ifs at h ⊢
    · exact h
    · exact iff_of_true h hmarked
  | adding j e args => exact fun hj => iff_of_true (h hj) hmarked
  | marking j e =>
    simp only [Allows]
    split_ifs
    · exact h
    · exact iff_of_true h hmarked
  | _ => exact iff_of_true h hmarked

end MixerAt

namespace Handoff

/-- The condition on the steps of the engine that record the start of a sound. -/
def RecordsInTime (s : Handoff n k) : HandoffTurn → Prop
  | .engine _ => ∀ c ∈ s.engine.recording?, s.player.InTime c (s.mixer.Busy c)
  | _ => True

instance (s : Handoff n k) (turn : HandoffTurn) : Decidable (s.RecordsInTime turn) :=
  match turn with
  | .engine _ =>
    inferInstanceAs (Decidable (∀ c ∈ s.engine.recording?, s.player.InTime c (s.mixer.Busy c)))
  | .arrive _ | .mixer _ | .tick _ => inferInstanceAs (Decidable True)

/-- What steps in time preserve: the tables agree, as far as the mixer allows, for the channels that
the engine is not at. -/
def Settled (s : Handoff n k) : Prop :=
  ∀ c, s.engine.channel? ≠ some c → s.player.Allows c (s.mixer.Busy c) (s.Marked c)

variable {fuel : ℕ} {table : SoundTable SoundData} {s s' : Handoff n k}

theorem settled_start (size : ℕ) (clock : Now) : (start n k size clock).Settled := by
  intro c _
  exact iff_of_false (by simp [start, mixerInit, Mixer.Busy]) (by simp [start, Marked])

theorem marked_update {c j : Fin n} {entry : EngineSched} :
    (Function.update s.sched j entry c).startt ≠ 0 ↔
      if c = j then entry.startt ≠ 0 else s.Marked c := by
  rcases eq_or_ne c j with rfl | hc
  · simp
  · simp [Marked, hc]

/-- The engine works on one channel and leaves the others as they are. -/
theorem Settled.elsewhere {c₀ : Fin n} (h : s.Settled) (hs : s.engine.channel? = some c₀)
    (hplayer : s'.player = s.player) (hbusy : ∀ c ≠ c₀, s'.mixer.Busy c ↔ s.mixer.Busy c)
    (hmarked : ∀ c ≠ c₀, s'.Marked c ↔ s.Marked c) :
    ∀ c ≠ c₀, s'.player.Allows c (s'.mixer.Busy c) (s'.Marked c) := by
  intro c hc
  rw [hplayer, propext (hbusy c hc), propext (hmarked c hc)]
  refine h c ?_
  rw [hs]
  exact fun he => hc (Option.some.inj he).symm

/-- **The engine's moves** keep the tables settled. -/
theorem Settled.engineMove (h : s.Settled) (hmove : s.EngineMove s')
    (hC : ∀ c ∈ s.engine.recording?, s.player.InTime c (s.mixer.Busy c)) : s'.Settled := by
  -- away from its channel nothing changes, and at the channel nothing is asked
  have hat : ∀ c₀, s'.engine.channel? = some c₀ →
      (∀ c ≠ c₀, s'.player.Allows c (s'.mixer.Busy c) (s'.Marked c)) → s'.Settled :=
    fun c₀ hs' hall c hc => hall c fun he => hc (he ▸ hs')
  cases hmove with
  | look h' | giveUp h' | choose h' | discard h' | wait h' | enqueue h' =>
    intro c _
    refine h c ?_
    rw [h']
    exact (Option.some_ne_none c).symm
  | @taken ev c₀ h' | @untaken ev c₀ h' | @busy ev c₀ h' | @free ev c₀ args h' =>
    refine hat c₀ rfl (h.elsewhere ?_ rfl (fun _ _ => .rfl) fun _ _ => .rfl)
    rw [h']
    rfl
  | @interrupt ev c₀ h' =>
    refine hat c₀ rfl (h.elsewhere (by rw [h']; rfl) rfl ?_ fun _ _ => .rfl)
    intro c hc
    rw [Mixer.busy_mixerRemoveEvent]
    exact and_iff_right hc
  | @unmark ev c₀ h' =>
    refine hat c₀ rfl (h.elsewhere (by rw [h']; rfl) rfl (fun _ _ => .rfl) ?_)
    intro c hc
    exact marked_update.trans (by rw [if_neg hc])
  | @add ev c₀ args h' =>
    refine hat c₀ rfl (h.elsewhere (by rw [h']; rfl) rfl ?_ fun _ _ => .rfl)
    intro c hc
    rw [Mixer.busy_start args.property]
    exact or_iff_right hc
  | @record ev c₀ entry h' hentry =>
    intro c _
    rcases eq_or_ne c c₀ with rfl | hc
    · have hin := hC c (by rw [h']; rfl)
      exact hin.allows (marked_update.mpr (by rwa [if_pos rfl]))
    · have hmarked : ∀ c ≠ c₀, ({ s with
          engine := .idle
          sched := Function.update s.sched c₀ entry } : Handoff n k).Marked c ↔ s.Marked c :=
        fun c hc => marked_update.trans (by rw [if_neg hc])
      have hother := h.elsewhere (by rw [h']; rfl) ?_ ?_ hmarked
      · exact hother c hc
      · rfl
      · exact fun _ _ => .rfl

/-- **The mixer's moves** keep the tables settled. -/
theorem Settled.mixerMove (h : s.Settled) (hmove : s.MixerMove s') : s'.Settled := by
  intro c hc
  cases hmove with
  | skip h' | enter h' | goOn h' | done h' | nothing h' | something h' | dequeue h' | expire h'
  | keep h' =>
    have hsame := h c hc
    rw [h'] at hsame
    exact hsame
  | @mix j h' =>
    have hsame := h c hc
    rw [h'] at hsame
    exact (Mixer.busy_advance c).trans hsame
  | @remove j h' =>
    have hsame := h c hc
    rw [h'] at hsame
    show if j = c then _ else _
    rw [Mixer.busy_mixerRemoveEvent]
    split_ifs with hj
    · exact fun hb => hb.1 hj.symm
    · exact (and_iff_right (Ne.symm hj)).trans hsame
  | @unmark j h' =>
    have hbefore := h c hc
    rw [h', MixerAt.Allows] at hbefore
    refine Iff.trans ?_ marked_update.symm
    split_ifs at hbefore with hj
    · rw [if_pos hj.symm]
      exact iff_of_false hbefore fun h0 => h0 rfl
    · rw [if_neg (Ne.symm hj)]
      exact hbefore
  | @busy j e h' hbusy =>
    have hsame := h c hc
    rw [h'] at hsame
    show if j = c then _ else _
    split_ifs with hj
    · exact hj ▸ hbusy
    · exact hsame
  | @free j e args h' hbusy =>
    have hsame := h c hc
    rw [h'] at hsame
    exact fun _ => hsame
  | @add j e args h' =>
    have hbefore := h c hc
    rw [h'] at hbefore
    show if j = c then _ else _
    rw [Mixer.busy_start args.property]
    split_ifs with hj
    · exact .inl hj.symm
    · exact (or_iff_right (Ne.symm hj)).trans (hbefore hj)
  | @mark j j' e start minendt prior h' hstart =>
    have hbefore := h c hc
    rw [h', MixerAt.Allows] at hbefore
    refine Iff.trans ?_ marked_update.symm
    split_ifs at hbefore with hj
    · rw [if_pos hj.symm]
      exact iff_of_true hbefore hstart
    · rw [if_neg (Ne.symm hj)]
      exact hbefore

/-- **A step in time** keeps the tables settled. -/
theorem Settled.step {turn : HandoffTurn} (h : s.Settled) (hC : s.RecordsInTime turn)
    (hs : s.step fuel table turn = some s') : s'.Settled := by
  cases turn with
  | arrive ev =>
    obtain ⟨h', -, rfl⟩ := arrive_cases hs
    exact fun c _ => h c (by rw [h']; exact (Option.some_ne_none c).symm)
  | engine next => exact h.engineMove (engineMove_of_step hs) hC
  | mixer next => exact h.mixerMove (mixerMove_of_step hs)
  | tick now =>
    obtain rfl := tick_cases hs
    exact h

/-- At rest, settled tables agree. -/
theorem Settled.iff_of_atRest (h : s.Settled) (hrest : s.AtRest) (c : Fin n) :
    s.Marked c ↔ s.mixer.Busy c := by
  have hsame := h c (by rw [hrest.engine]; exact (Option.some_ne_none c).symm)
  have hloop := hrest.2
  cases hp : s.player <;> rw [hp] at hsame hloop <;> first | exact hsame.symm | cases hloop

/-- **When the tables agree.** If every record that the engine makes of the start of a sound is in
time, then at rest the channels that are busy in `sched` are those that play. -/
theorem agrees_of_inTime {size : ℕ} {clock : Now} {turns : List HandoffTurn}
    (hC : Along (step fuel table) RecordsInTime (start n k size clock) turns)
    (hs : exec (step fuel table) (start n k size clock) turns = some s) (hrest : s.AtRest)
    (c : Fin n) : s.Marked c ↔ s.mixer.Busy c :=
  (exec_invariant (I := Settled) (fun _ _ _ hI hC hs => hI.step hC hs) (settled_start size clock)
    hC hs).iff_of_atRest hrest c

/-! ## A short sound -/

/-- The engine finds a channel, puts the sound on it and, at the end, records its start. -/
def putOn : List HandoffTurn :=
  [.arrive playShort, .engine 0, .engine 0, .engine 0, .engine 0]

/-- The mixer plays the sound to its end. -/
def playOff : List HandoffTurn := List.replicate 6 (.mixer 0)

/-- The record comes before the sound is done. -/
theorem agrees_record_in_time :
    ∃ s ∈ exec (step 1 shortSound) (start 2 0 64 oneSecond) (putOn ++ [.engine 0] ++ playOff),
      s.AtRest ∧ ∀ c, s.Marked c ↔ s.mixer.Busy c := by
  obtain ⟨s, hs, hrest⟩ : ∃ s ∈ exec (step 1 shortSound) (start 2 0 64 oneSecond)
      (putOn ++ [.engine 0] ++ playOff), s.AtRest := by decide +kernel
  exact ⟨s, hs, hrest, agrees_of_inTime (by decide +kernel) hs hrest⟩

/-- **The record comes after the sound is done**: the channel is busy in `sched` from then on. -/
theorem not_agrees_short_sound :
    ∃ s ∈ exec (step 1 shortSound) (start 2 0 64 oneSecond) (putOn ++ playOff ++ [.engine 0]),
      s.AtRest ∧ ¬ ∀ c, s.Marked c ↔ s.mixer.Busy c := by
  decide +kernel

end Handoff

end Peep
