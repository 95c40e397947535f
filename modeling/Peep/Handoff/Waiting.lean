import Peep.Handoff
import Peep.Library.StepSystem
import Mathlib.Tactic.Abel

/-!
# What becomes of the events

An event that finds every channel busy waits in the mixer queue. The mixer looks at the queue when a
sound is done, once for each, and at no other time. So an event is left behind when it enters the
queue after the last look: the engine may have found all channels busy, and have become slow before
it enqueues the event, while they became free. It is also left behind when the event taken in its
place had expired, because the mixer does not look for another one. And an event is lost without a
trace when the channel that was free is busy at the time of `mixerAddEvent`, since neither thread
looks at `MIXER_CHAN_BUSY`.

## Main results

* `Handoff.kept_of_attended` — apart from these three, no event waits beside an idle channel, and
  every event is accounted for
* `Handoff.not_kept_late_enqueue` — an event that is enqueued too late
-/

namespace Peep

open Double (toDouble)
open MixerQueue StepSystem

variable {n k : ℕ}

namespace EngineAt

/-- The channel on which the engine thread is about to put a sound. -/
def pending? : EngineAt n → Option (Fin n)
  | .chosen _ c | .interrupting _ c | .unmarking _ c | .testing _ c | .adding _ c _ => some c
  | _ => none

/-- The event in the hands of the engine thread. -/
def inFlight : EngineAt n → Multiset Event
  | .idle | .recording _ _ => 0
  | .scanning ev _ _ | .asking ev | .enqueuing ev | .chosen ev _ | .interrupting ev _
  | .unmarking ev _ | .testing ev _ | .adding ev _ _ => {ev}

end EngineAt

namespace MixerAt

/-- The channel on which the mixer thread is about to put a sound from the queue, if any. -/
def pending? : MixerAt n → Option (Fin n)
  | .removing j | .unmarking j | .asking j | .dequeuing j | .deciding j _ | .testing j _
  | .adding j _ _ => some j
  | _ => none

/-- The event in the hands of the mixer thread. -/
def inFlight : MixerAt n → Multiset Event
  | .deciding _ e | .testing _ e | .adding _ e _ => {e.event}
  | _ => 0

end MixerAt

namespace Handoff

/-- The events that wait in the queue. -/
def waiting (s : Handoff n k) : Multiset Event := s.queue.contents.map EngineEvent.event

/-- A channel has a sound, or one of the threads is about to see to it. -/
def Attended (s : Handoff n k) (c : Fin n) : Prop :=
  s.mixer.Busy c ∨ s.player.pending? = some c ∨ s.engine.pending? = some c

instance (s : Handoff n k) (c : Fin n) : Decidable (s.Attended c) :=
  inferInstanceAs (Decidable (_ ∨ _ ∨ _))

/-- What is asked of the two threads at rest. -/
structure Kept (s : Handoff n k) : Prop where
  /-- No event waits while a channel is idle. -/
  stranded : mixerQueueEmpty s.queue = false → ∀ c, s.mixer.Busy c
  /-- Every event was put on a channel, waits, found the queue full, or had expired. -/
  accounted : s.accepted = s.started + s.waiting + s.discarded + s.expired

/-- The condition on a step of the engine. -/
def EngineAttends (s : Handoff n k) : EngineAt n → Prop
  | .enqueuing _ => ∀ c, s.Attended c
  | .testing _ c => ¬ s.mixer.Busy c
  | _ => True

/-- The condition on a step of the mixer. -/
def MixerAttends (s : Handoff n k) : MixerAt n → Prop
  | .deciding j e => QUEUE_EXPIRED ≤ toDouble (s.clock.val.inFpSecs - e.mixTime.inFpSecs) →
      s.queue.top = 0 ∨ s.mixer.Busy j ∨ s.engine.pending? = some j
  | .testing j _ => ¬ s.mixer.Busy j
  | _ => True

/-- The condition on a step: an event is enqueued only while every channel is attended, an expired
event is dropped only if no other event waits or its channel is attended, and `mixerAddEvent` is
called for a channel without a sound. -/
def Attends (s : Handoff n k) : HandoffTurn → Prop
  | .engine _ => s.EngineAttends s.engine
  | .mixer _ => s.MixerAttends s.player
  | _ => True

instance (s : Handoff n k) (p : EngineAt n) : Decidable (s.EngineAttends p) :=
  match p with
  | .enqueuing _ => inferInstanceAs (Decidable (∀ c, s.Attended c))
  | .testing _ c => inferInstanceAs (Decidable (¬ s.mixer.Busy c))
  | .idle | .scanning _ _ _ | .asking _ | .chosen _ _ | .interrupting _ _ | .unmarking _ _
  | .adding _ _ _ | .recording _ _ => inferInstanceAs (Decidable True)

instance (s : Handoff n k) (p : MixerAt n) : Decidable (s.MixerAttends p) :=
  match p with
  | .deciding _ _ => inferInstanceAs (Decidable (_ → _ ∨ _ ∨ _))
  | .testing j _ => inferInstanceAs (Decidable (¬ s.mixer.Busy j))
  | .scanning _ | .mixing _ | .checking _ | .removing _ | .unmarking _ | .asking _ | .dequeuing _
  | .adding _ _ _ | .marking _ _ => inferInstanceAs (Decidable True)

instance (s : Handoff n k) (turn : HandoffTurn) : Decidable (s.Attends turn) :=
  match turn with
  | .engine _ => inferInstanceAs (Decidable (s.EngineAttends s.engine))
  | .mixer _ => inferInstanceAs (Decidable (s.MixerAttends s.player))
  | .arrive _ | .tick _ => inferInstanceAs (Decidable True)

/-- What such steps preserve. -/
structure Tended (s : Handoff n k) : Prop where
  /-- The queue holds events. -/
  filled : s.queue.Filled s.queue.top
  /-- While an event waits, every channel is attended. -/
  attended : s.queue.top ≠ 0 → ∀ c, s.Attended c
  /-- No event is lost or duplicated. -/
  conserved : s.accepted = s.started + s.waiting + s.discarded + s.expired + s.engine.inFlight +
    s.player.inFlight

variable {fuel : ℕ} {table : SoundTable SoundData} {s s' : Handoff n k} {q q' : MixerQueue}
  {e : EngineEvent}

theorem tended_start (size : ℕ) (clock : Now) : (start n k size clock).Tended where
  filled := ⟨Nat.zero_le _, fun i hi => absurd hi (Nat.not_lt_zero i)⟩
  attended h := absurd rfl h
  conserved := rfl

/-- The queue after an event has been enqueued. -/
theorem of_mixerEnqueue (h : q.Filled q.top) (hq : mixerEnqueue q e = some q') :
    q'.Filled q'.top ∧ q'.contents = e ::ₘ q.contents := by
  have hfull : mixerQueueFull q = false := by
    rw [mixerEnqueue] at hq
    split_ifs at hq with hlt
    simp only [mixerQueueFull, beq_eq_false_iff_ne]
    omega
  obtain ⟨q'', hq'', -, -, hfilled, hcontents, -⟩ := mixerEnqueue_spec h hfull e
  rw [hq] at hq''
  cases hq''
  exact ⟨hfilled, hcontents⟩

/-- The queue after an event has been dequeued. -/
theorem of_mixerDequeue (h : q.Filled q.top) (hq : mixerDequeue q = some (e, q')) :
    q.top ≠ 0 ∧ q'.Filled q'.top ∧ q.contents = e ::ₘ q'.contents := by
  have hpos : 0 < q.top := by
    rw [mixerDequeue] at hq
    split_ifs at hq with hpos
    exact hpos
  have hempty : mixerQueueEmpty q = false := by
    simp only [mixerQueueEmpty, beq_eq_false_iff_ne]
    omega
  obtain ⟨e', q'', hq'', -, -, -, hfilled, hcontents, -⟩ := mixerDequeue_spec h hempty
  rw [hq] at hq''
  cases hq''
  exact ⟨hpos.ne', hfilled, hcontents.symm⟩

/-! ### Channels stay attended -/

variable {c j : Fin n}

/-- A step of the engine that leaves the sounds alone, from a place where it was not about to see to
a channel or to one where it is still about to. -/
theorem Attended.of_engine {p : EngineAt n} (h : s.Attended c) (h' : s.engine = p)
    (hp : p.pending? = none ∨ p.pending? = s'.engine.pending?) (hmixer : s'.mixer = s.mixer)
    (hplayer : s'.player = s.player) : s'.Attended c := by
  rcases h with hbusy | hpending | hpending
  · exact .inl (hmixer ▸ hbusy)
  · exact .inr (.inl (hplayer ▸ hpending))
  · rw [h'] at hpending
    rcases hp with hnone | hsame
    · rw [hnone] at hpending
      cases hpending
    · exact .inr (.inr (hsame ▸ hpending))

/-- The same for a step of the mixer, which may go on with a sound. -/
theorem Attended.of_player {p : MixerAt n} (h : s.Attended c) (h' : s.player = p)
    (hp : p.pending? = none ∨ p.pending? = s'.player.pending?)
    (hmixer : s.mixer.Busy c → s'.mixer.Busy c) (hengine : s'.engine = s.engine) :
    s'.Attended c := by
  rcases h with hbusy | hpending | hpending
  · exact .inl (hmixer hbusy)
  · rw [h'] at hpending
    rcases hp with hnone | hsame
    · rw [hnone] at hpending
      cases hpending
    · exact .inr (.inl (hsame ▸ hpending))
  · exact .inr (.inr (hengine ▸ hpending))

/-- A channel is cleared by a thread that is about to put a sound on it. -/
theorem Attended.of_remove (h : s.Attended c) (hmixer : s'.mixer = s.mixer.mixerRemoveEvent j)
    (hj : s'.Attended j) (hplayer : s.player.pending? = some c → s'.player.pending? = some c)
    (hengine : s.engine.pending? = some c → s'.engine.pending? = some c) : s'.Attended c := by
  rcases eq_or_ne c j with rfl | hc
  · exact hj
  · refine h.imp ?_ (.imp hplayer hengine)
    intro hbusy
    rw [hmixer, Mixer.busy_mixerRemoveEvent]
    exact ⟨hc, hbusy⟩

/-- A thread puts the sound on its channel. -/
theorem Attended.of_start {args : LoadedArgs} (h : s.Attended c)
    (hmixer : s'.mixer = s.mixer.start args j)
    (hplayer : s.player.pending? = some c → s'.player.pending? = some c ∨ some j = some c)
    (hengine : s.engine.pending? = some c → s'.engine.pending? = some c ∨ some j = some c) :
    s'.Attended c := by
  have hbusy : c = j ∨ s.mixer.Busy c → s'.mixer.Busy c := by
    rw [hmixer]
    exact (Mixer.busy_start args.property c).mpr
  rcases h with hb | hpending | hpending
  · exact .inl (hbusy (.inr hb))
  · rcases hplayer hpending with hsame | hj
    · exact .inr (.inl hsame)
    · exact .inl (hbusy (.inl (Option.some.inj hj).symm))
  · rcases hengine hpending with hsame | hj
    · exact .inr (.inr hsame)
    · exact .inl (hbusy (.inl (Option.some.inj hj).symm))

/-! ### Steps -/

/-- **The engine's moves.** -/
theorem Tended.engineMove (h : s.Tended) (hmove : s.EngineMove s')
    (hC : s.EngineAttends s.engine) : s'.Tended := by
  have hsum := h.conserved
  cases hmove with
  | look h' | giveUp h' | choose h' | wait h' | record h' =>
    rw [h'] at hsum
    exact ⟨h.filled, fun htop c => (h.attended htop c).of_engine h' (.inl rfl) rfl rfl, hsum⟩
  | @discard ev h' =>
    rw [h'] at hsum
    refine ⟨h.filled, fun htop c => (h.attended htop c).of_engine h' (.inl rfl) rfl rfl, ?_⟩
    simp only [EngineAt.inFlight, waiting, ← Multiset.singleton_add] at hsum ⊢
    rw [hsum]
    abel
  | @enqueue ev queue h' hqueue =>
    rw [h'] at hsum hC
    obtain ⟨hfilled, hcontents⟩ := of_mixerEnqueue h.filled hqueue
    refine ⟨hfilled, fun _ c => (hC c).of_engine h' (.inl rfl) rfl rfl, ?_⟩
    have hwaiting : ({ s with engine := .idle, queue := queue } : Handoff n k).waiting
        = {ev} + s.waiting := by
      rw [waiting, hcontents, Multiset.map_cons, Multiset.singleton_add]
      rfl
    simp only [EngineAt.inFlight] at hsum ⊢
    rw [hwaiting, hsum]
    abel
  | taken h' | untaken h' | unmark h' | free h' =>
    rw [h'] at hsum
    exact ⟨h.filled, fun htop c => (h.attended htop c).of_engine h' (.inr rfl) rfl rfl, hsum⟩
  | @interrupt ev c₀ h' =>
    rw [h'] at hsum
    refine ⟨h.filled, ?_, hsum⟩
    intro htop c
    refine (h.attended htop c).of_remove rfl (.inr (.inr rfl)) id ?_
    rw [h']
    exact id
  | busy h' hbusy =>
    rw [h'] at hC
    exact absurd hbusy hC
  | @add ev c₀ args h' =>
    rw [h'] at hsum
    refine ⟨h.filled, ?_, ?_⟩
    · intro htop c
      refine (h.attended htop c).of_start rfl .inl ?_
      rw [h']
      exact .inr
    · simp only [EngineAt.inFlight, waiting, ← Multiset.singleton_add] at hsum ⊢
      rw [hsum]
      abel

/-- **The mixer's moves.** -/
theorem Tended.mixerMove (h : s.Tended) (hmove : s.MixerMove s')
    (hC : s.MixerAttends s.player) : s'.Tended := by
  have hsum := h.conserved
  cases hmove with
  | skip h' | enter h' | goOn h' | done h' | mark h' =>
    rw [h'] at hsum
    exact ⟨h.filled, fun htop c => (h.attended htop c).of_player h' (.inl rfl) id rfl, hsum⟩
  | mix h' =>
    rw [h'] at hsum
    refine ⟨h.filled, ?_, hsum⟩
    intro htop c
    exact (h.attended htop c).of_player h' (.inl rfl) (Mixer.busy_advance c).mpr rfl
  | @remove j h' =>
    rw [h'] at hsum
    refine ⟨h.filled, ?_, hsum⟩
    intro htop c
    refine (h.attended htop c).of_remove rfl (.inr (.inl rfl)) ?_ id
    rw [h']
    exact id
  | unmark h' | something h' | keep h' | free h' =>
    rw [h'] at hsum
    exact ⟨h.filled, fun htop c => (h.attended htop c).of_player h' (.inr rfl) id rfl, hsum⟩
  | nothing h' hempty =>
    rw [h'] at hsum
    exact ⟨h.filled, fun htop => absurd hempty htop, hsum⟩
  | @dequeue j e queue h' hqueue =>
    rw [h'] at hsum
    obtain ⟨htop, hfilled, hcontents⟩ := of_mixerDequeue h.filled hqueue
    refine ⟨hfilled, fun _ c => (h.attended htop c).of_player h' (.inr rfl) id rfl, ?_⟩
    have hwaiting : s.waiting = {e.event} + queue.contents.map EngineEvent.event := by
      rw [waiting, hcontents, Multiset.map_cons, Multiset.singleton_add]
    simp only [MixerAt.inFlight] at hsum ⊢
    rw [hsum, hwaiting, waiting]
    abel
  | @expire j j' e h' hold =>
    rw [h'] at hsum hC
    refine ⟨h.filled, ?_, ?_⟩
    · -- nobody is about to see to channel `j` any more
      intro htop c
      rcases h.attended htop c with hbusy | hplayer | hengine
      · exact .inl hbusy
      · rw [h'] at hplayer
        obtain rfl : j = c := Option.some.inj hplayer
        exact ((hC hold).resolve_left htop).imp_right .inr
      · exact .inr (.inr hengine)
    · simp only [MixerAt.inFlight, waiting, ← Multiset.singleton_add] at hsum ⊢
      rw [hsum]
      abel
  | busy h' hbusy =>
    rw [h'] at hC
    exact absurd hbusy hC
  | @add j e args h' =>
    rw [h'] at hsum
    refine ⟨h.filled, ?_, ?_⟩
    · intro htop c
      refine (h.attended htop c).of_start rfl ?_ .inl
      rw [h']
      exact .inr
    · simp only [MixerAt.inFlight, waiting, ← Multiset.singleton_add] at hsum ⊢
      rw [hsum]
      abel

/-- **A step** that meets the condition. -/
theorem Tended.step {turn : HandoffTurn} (h : s.Tended) (hC : s.Attends turn)
    (hs : s.step fuel table turn = some s') : s'.Tended := by
  cases turn with
  | arrive ev =>
    obtain ⟨h', -, rfl⟩ := arrive_cases hs
    have hsum := h.conserved
    rw [h'] at hsum
    refine ⟨h.filled, fun htop c => (h.attended htop c).of_engine h' (.inl rfl) rfl rfl, ?_⟩
    simp only [EngineAt.inFlight, waiting, ← Multiset.singleton_add] at hsum ⊢
    rw [hsum]
    abel
  | engine next => exact h.engineMove (engineMove_of_step hs) hC
  | mixer next => exact h.mixerMove (mixerMove_of_step hs) hC
  | tick now =>
    obtain rfl := tick_cases hs
    exact ⟨h.filled, h.attended, h.conserved⟩

/-- At rest, no thread is about to do anything. -/
theorem Tended.kept (h : s.Tended) (hrest : s.AtRest) : s.Kept := by
  have hengine := hrest.engine
  have hplayer := hrest.2
  have hsum := h.conserved
  have hnone : s.player.pending? = none ∧ s.player.inFlight = 0 := by
    cases hp : s.player <;> rw [hp] at hplayer <;> first | exact ⟨rfl, rfl⟩ | cases hplayer
  rw [hengine, hnone.2] at hsum
  refine ⟨?_, by simpa [EngineAt.inFlight] using hsum⟩
  intro hempty c
  have htop : s.queue.top ≠ 0 := by simpa [mixerQueueEmpty] using hempty
  rcases h.attended htop c with hbusy | hp | he
  · exact hbusy
  · rw [hnone.1] at hp
    cases hp
  · rw [hengine] at he
    cases he

/-- **When no event is left behind.** If every event is enqueued while all channels are attended,
expired events leave no other event beside an idle channel, and `mixerAddEvent` never finds its
channel busy, then at rest no event waits beside an idle channel, and every event was put on a
channel, waits, found the queue full, or had expired. -/
theorem kept_of_attended {size : ℕ} {clock : Now} {turns : List HandoffTurn}
    (hC : Along (step fuel table) Attends (start n k size clock) turns)
    (hs : exec (step fuel table) (start n k size clock) turns = some s) (hrest : s.AtRest) :
    s.Kept :=
  (exec_invariant (I := Tended) (fun _ _ _ hI hC hs => hI.step hC hs) (tended_start size clock)
    hC hs).kept hrest

/-! ## Three events for two channels -/

/-- Two events are put on the two channels; the third finds both busy and goes for the queue. -/
def threeEvents : List HandoffTurn :=
  [.arrive playShort, .engine 0, .engine 0, .engine 0, .engine 0, .engine 0,
    .arrive playShort, .engine 0, .engine 0, .engine 0, .engine 0, .engine 0,
    .arrive playShort, .engine 0, .engine 0, .engine 0, .engine 0]

/-- The third event is in the queue before the first sound is done, and takes its channel. -/
theorem kept_early_enqueue :
    ∃ s ∈ exec (step 1 shortSound) (start 2 0 64 oneSecond)
      (threeEvents ++ [.engine 0] ++ List.replicate 11 (.mixer 0)), s.AtRest ∧ s.Kept := by
  obtain ⟨s, hs, hrest⟩ : ∃ s ∈ exec (step 1 shortSound) (start 2 0 64 oneSecond)
      (threeEvents ++ [.engine 0] ++ List.replicate 11 (.mixer 0)), s.AtRest := by decide +kernel
  exact ⟨s, hs, hrest, kept_of_attended (by decide +kernel) hs hrest⟩

/-- **The third event is in the queue after the first sound is done**: it waits beside an idle
channel. -/
theorem not_kept_late_enqueue :
    ∃ s ∈ exec (step 1 shortSound) (start 2 0 64 oneSecond)
      (threeEvents ++ List.replicate 6 (.mixer 0) ++ [.engine 0]), s.AtRest ∧ ¬ s.Kept := by
  obtain ⟨s, hs, hrest, hempty, hidle⟩ : ∃ s ∈ exec (step 1 shortSound) (start 2 0 64 oneSecond)
      (threeEvents ++ List.replicate 6 (.mixer 0) ++ [.engine 0]),
      s.AtRest ∧ mixerQueueEmpty s.queue = false ∧ ¬ s.mixer.Busy 0 := by decide +kernel
  exact ⟨s, hs, hrest, fun h => hidle (h.stranded hempty 0)⟩

end Handoff

end Peep
