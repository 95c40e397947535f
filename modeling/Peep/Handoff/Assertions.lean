import Peep.Handoff.Waiting

/-!
# The assertions of the hand-off

`engineIO`, `mixerAddEvent`, `mixerAddOldEvent`, `mixerEnqueue`, `mixerDequeue` and the loop of
`mixer` over the event channels have assertions (`ASSERT` in `debug.h`) about numbers of channels,
priorities and times, and about the queue. All of them hold in every run but one: where
`mixerAddOldEvent` schedules an event from the queue on the channel `j`, it asserts
`(j + 1) < no_ebuffs`, and `j` may be the last channel.

## Choices

`calloc` does not fail, so an event that is enqueued is not `NULL`. An assertion is asked of the
state before the step that it stands in.

## Main results

* `Handoff.Checked.step` — what the steps preserve, if the last channel is spared
* `Handoff.Checked.asserts` — then the assertions hold
-/

namespace Peep

open Double (toDouble)
open MixerQueue

variable {n k : ℕ} {fuel : ℕ} {table : SoundTable SoundData}

/-- `entry != NULL` for the entry of an event. -/
def HasEntry (fuel : ℕ) (table : SoundTable SoundData) (ev : Event) : Prop :=
  (ev.sound.bind (engineSoundTableDataRetrieve fuel table)).join.isSome

instance (ev : Event) : Decidable (HasEntry fuel table ev) := inferInstanceAs (Decidable (_ = true))

theorem hasEntry_of_knownSound {ev : Event} (h : knownSound fuel table ev = true) :
    HasEntry fuel table ev := by
  rw [knownSound] at h
  split at h
  · rename_i hentry
    rw [HasEntry, hentry]
    rfl
  · cases h

/-- The mixer is about to take an event from the queue. -/
def MixerAt.Dequeues : MixerAt n → Bool
  | .dequeuing _ => true
  | _ => false

/-- The channel for which the mixer has found that an event from the queue is not too old. -/
def MixerAt.kept? : MixerAt n → Option (Fin n)
  | .testing j _ | .adding j _ _ | .marking j _ => some j
  | _ => none

namespace Handoff

/-- The assertions in the loop of `engineIO` over the channels. -/
def ScanAsserts (s : Handoff n k) (c : Fin n) (bestc : Option (Fin n)) : Prop :=
  (s.sched c).startt ≠ 0 → ∀ b ∈ bestc, b.val = 0 →
    ((s.sched b).priorit < (s.sched c).priorit →
      0 ≤ (s.sched c).priorit ∧ 0 ≤ (s.sched b).priorit) ∧
    ((s.sched b).priorit = (s.sched c).priorit ∧ (s.sched b).startt > (s.sched c).startt →
      0 ≤ (s.sched c).priorit ∧ 0 ≤ (s.sched b).startt ∧ 0 ≤ (s.sched c).startt)

/-- The assertions in a step of the engine thread. -/
def EngineAsserts (s : Handoff n k) : EngineAt n → Prop
  | .scanning _ ind bestc => ∀ h : ind < n,
      (s.lastc + ind) % n < n ∧ s.ScanAsserts (channel s.lastc ind h) bestc
  | .unmarking _ c | .testing _ c | .recording _ c => (c : ℕ) < n
  | _ => True

/-- The assertions in a step of the mixer thread. -/
def MixerAsserts (fuel : ℕ) (table : SoundTable SoundData) (s : Handoff n k) : MixerAt n → Prop
  -- the condition of the loop comes first
  | .scanning j => j < n → 0 ≤ j ∧ j < n
  | .testing j _ => (j : ℕ) < n
  | .dequeuing _ => 0 < s.queue.top ∧ (s.queue.slot? 0).isSome
  | .deciding _ e => HasEntry fuel table e.event
  | .marking j _ => (j : ℕ) + 1 < n
  | _ => True

/-- **The assertions** in a step. -/
def Asserts (fuel : ℕ) (table : SoundTable SoundData) (s : Handoff n k) : HandoffTurn → Prop
  | .engine _ => s.EngineAsserts s.engine
  | .mixer _ => s.MixerAsserts fuel table s.player
  | _ => True

/-- The condition on a step of the mixer. -/
def MixerSpares (s : Handoff n k) : MixerAt n → Prop
  | .deciding j e => toDouble (s.clock.val.inFpSecs - e.mixTime.inFpSecs) < QUEUE_EXPIRED →
      (j : ℕ) + 1 < n
  | _ => True

/-- The condition on a step: an event that is taken from the queue for the last channel is too
old. -/
def Spares (s : Handoff n k) : HandoffTurn → Prop
  | .mixer _ => s.MixerSpares s.player
  | _ => True

instance (s : Handoff n k) (p : MixerAt n) : Decidable (s.MixerAsserts fuel table p) :=
  match p with
  | .scanning _ => inferInstanceAs (Decidable (_ → _ ∧ _))
  | .testing j _ => inferInstanceAs (Decidable ((j : ℕ) < n))
  | .dequeuing _ => inferInstanceAs (Decidable (_ ∧ _))
  | .deciding _ e => inferInstanceAs (Decidable (HasEntry fuel table e.event))
  | .marking j _ => inferInstanceAs (Decidable ((j : ℕ) + 1 < n))
  | .mixing _ | .checking _ | .removing _ | .unmarking _ | .asking _ | .adding _ _ _ =>
    inferInstanceAs (Decidable True)

instance (s : Handoff n k) (p : MixerAt n) : Decidable (s.MixerSpares p) :=
  match p with
  | .deciding j _ => inferInstanceAs (Decidable (_ → (j : ℕ) + 1 < n))
  | .scanning _ | .mixing _ | .checking _ | .removing _ | .unmarking _ | .asking _ | .dequeuing _
  | .testing _ _ | .adding _ _ _ | .marking _ _ => inferInstanceAs (Decidable True)

instance (s : Handoff n k) (turn : HandoffTurn) : Decidable (s.Spares turn) :=
  match turn with
  | .mixer _ => inferInstanceAs (Decidable (s.MixerSpares s.player))
  | .arrive _ | .engine _ | .tick _ => inferInstanceAs (Decidable True)

/-- What such steps preserve. -/
structure Checked (fuel : ℕ) (table : SoundTable SoundData) (s : Handoff n k) : Prop where
  /-- The queue holds events. -/
  filled : s.queue.Filled s.queue.top
  /-- There is an event if the mixer is about to dequeue one. -/
  waiting : s.player.Dequeues = true → 0 < s.queue.top
  /-- The events in the queue have sounds in the table. -/
  queued : ∀ e ∈ s.queue.contents, knownSound fuel table e.event = true
  /-- So has the event in the hands of the engine thread. -/
  engine : ∀ ev ∈ s.engine.inFlight, knownSound fuel table ev = true
  /-- And that in the hands of the mixer thread. -/
  player : ∀ ev ∈ s.player.inFlight, knownSound fuel table ev = true
  /-- No channel has started before the epoch. -/
  startt : ∀ c, 0 ≤ (s.sched c).startt
  /-- An event from the queue is not for the last channel. -/
  spared : ∀ j, s.player.kept? = some j → (j : ℕ) + 1 < n

variable {s s' : Handoff n k} {next : ℕ} {turn : HandoffTurn}

theorem checked_start (size : ℕ) (clock : Now) : (start n k size clock).Checked fuel table where
  filled := ⟨Nat.zero_le _, fun i hi => absurd hi (Nat.not_lt_zero i)⟩
  waiting h := by cases h
  queued e h := absurd h (Multiset.notMem_zero e)
  engine ev h := absurd h (Multiset.notMem_zero ev)
  player ev h := absurd h (Multiset.notMem_zero ev)
  startt c := le_rfl
  spared j h := by cases h

/-- The channels of the mixer do not matter. -/
theorem Checked.withMixer (h : s.Checked fuel table) (m : Mixer n k) :
    Checked fuel table { s with mixer := m } :=
  ⟨h.filled, h.waiting, h.queued, h.engine, h.player, h.startt, h.spared⟩

/-! ### Steps -/

theorem startt_update {sched : Fin n → EngineSched} (h : ∀ c, 0 ≤ (sched c).startt) (c : Fin n)
    {entry : EngineSched} (hentry : 0 ≤ entry.startt) (c' : Fin n) :
    0 ≤ (Function.update sched c entry c').startt := by
  rcases eq_or_ne c' c with rfl | hc
  · rwa [Function.update_self]
  · rw [Function.update_of_ne hc]
    exact h c'

/-- A queue that an event has been put into is not empty. -/
theorem top_pos_of_contents {q : MixerQueue} {e : EngineEvent} {events : Multiset EngineEvent}
    (h : q.contents = e ::ₘ events) : 0 < q.top := by
  refine Nat.pos_of_ne_zero fun htop => ?_
  change q.entries q.top = _ at h
  rw [htop] at h
  exact Multiset.zero_ne_cons h

/-- **The engine's steps.** -/
theorem Checked.engineStep (h : s.Checked fuel table)
    (hs : s.engineStep fuel table next = some s') : s'.Checked fuel table := by
  have hengine := h.engine
  have hnone (ev : Event) (hev : ev ∈ (0 : Multiset Event)) : knownSound fuel table ev = true :=
    absurd hev (Multiset.notMem_zero ev)
  cases engineMove_of_step hs with
  | look h' | giveUp h' | choose h' | wait h' | taken h' | untaken h' | interrupt h' | free h' =>
    rw [h'] at hengine
    exact ⟨h.filled, h.waiting, h.queued, hengine, h.player, h.startt, h.spared⟩
  | discard h' | busy h' | add h' =>
    exact ⟨h.filled, h.waiting, h.queued, hnone, h.player, h.startt, h.spared⟩
  | @enqueue ev queue h' hqueue =>
    rw [h'] at hengine
    obtain ⟨hfilled, hcontents⟩ := of_mixerEnqueue h.filled hqueue
    refine ⟨hfilled, fun _ => top_pos_of_contents hcontents, fun e he => ?_, hnone, h.player,
      h.startt, h.spared⟩
    rw [hcontents, Multiset.mem_cons] at he
    rcases he with rfl | he
    · exact hengine ev (Multiset.mem_singleton_self ev)
    · exact h.queued e he
  | unmark h' =>
    rw [h'] at hengine
    exact ⟨h.filled, h.waiting, h.queued, hengine, h.player, startt_update h.startt _ le_rfl,
      h.spared⟩
  | record h' =>
    rw [Handoff.engineStep.eq_def, h'] at hs
    have hsched := congrArg Handoff.sched (Option.some.inj hs)
    refine ⟨h.filled, h.waiting, h.queued, hnone, h.player, ?_, h.spared⟩
    rw [← hsched]
    exact startt_update h.startt _ s.clock.property.le

/-- **The mixer's steps.** -/
theorem Checked.mixerStep (h : s.Checked fuel table) (hC : s.MixerSpares s.player)
    (hs : s.mixerStep fuel table next = some s') : s'.Checked fuel table := by
  have hplayer := h.player
  have hspared := h.spared
  have hnone (ev : Event) (hev : ev ∈ (0 : Multiset Event)) : knownSound fuel table ev = true :=
    absurd hev (Multiset.notMem_zero ev)
  have hbusy {top : ℕ} (hdequeues : false = true) : 0 < top := absurd hdequeues Bool.false_ne_true
  have hfree (j : Fin n) (hkept : none = some j) : (j : ℕ) + 1 < n :=
    absurd hkept.symm (Option.some_ne_none j)
  cases mixerMove_of_step hs with
  | skip h' | enter h' | mix h' | goOn h' | done h' | remove h' | nothing h' | expire h' =>
    exact ⟨h.filled, hbusy, h.queued, h.engine, hnone, h.startt,
      hfree⟩
  | unmark h' =>
    exact ⟨h.filled, hbusy, h.queued, h.engine, hnone,
      startt_update h.startt _ le_rfl, hfree⟩
  | something h' hnonempty =>
    exact ⟨h.filled, fun _ => Nat.pos_of_ne_zero hnonempty, h.queued, h.engine, hnone, h.startt,
      hfree⟩
  | @dequeue j e queue h' hqueue =>
    obtain ⟨-, hfilled, hcontents⟩ := of_mixerDequeue h.filled hqueue
    have hqueued (e' : EngineEvent) (he' : e' ∈ e ::ₘ queue.contents) :
        knownSound fuel table e'.event = true := h.queued e' (hcontents ▸ he')
    refine ⟨hfilled, hbusy, fun e' he' => hqueued e' (Multiset.mem_cons_of_mem he'),
      h.engine, fun ev hev => ?_, h.startt, hfree⟩
    obtain rfl := Multiset.mem_singleton.mp hev
    exact hqueued e (Multiset.mem_cons_self e _)
  | @keep j e h' =>
    rw [h'] at hplayer hC
    refine ⟨h.filled, hbusy, h.queued, h.engine, hplayer, h.startt,
      fun j' hj' => ?_⟩
    obtain rfl := Option.some.inj hj'
    rw [Handoff.mixerStep.eq_def, h'] at hs
    dsimp only at hs
    split_ifs at hs with hfresh
    · exact hC hfresh
    · cases congrArg Handoff.player (Option.some.inj hs)
  | busy h' | add h' =>
    rw [h'] at hspared
    exact ⟨h.filled, hbusy, h.queued, h.engine, hnone, h.startt, hspared⟩
  | free h' =>
    rw [h'] at hplayer hspared
    exact ⟨h.filled, hbusy, h.queued, h.engine, hplayer, h.startt, hspared⟩
  | mark h' =>
    rw [Handoff.mixerStep.eq_def, h'] at hs
    have hsched := congrArg Handoff.sched (Option.some.inj hs)
    refine ⟨h.filled, hbusy, h.queued, h.engine, hnone, ?_,
      hfree⟩
    rw [← hsched]
    exact startt_update h.startt _ s.clock.property.le

/-- **What the steps preserve**, if the last channel is spared. -/
theorem Checked.step (h : s.Checked fuel table) (hC : s.Spares turn)
    (hs : s.step fuel table turn = some s') : s'.Checked fuel table := by
  cases turn with
  | arrive ev =>
    obtain ⟨-, hknown, rfl⟩ := arrive_cases hs
    refine ⟨h.filled, h.waiting, h.queued, fun ev' hev' => ?_, h.player, h.startt, h.spared⟩
    obtain rfl := Multiset.mem_singleton.mp hev'
    exact hknown
  | engine next => exact h.engineStep hs
  | mixer next => exact h.mixerStep hC hs
  | tick now =>
    obtain rfl := tick_cases hs
    exact ⟨h.filled, h.waiting, h.queued, h.engine, h.player, h.startt, h.spared⟩

/-- **Then the assertions hold.** -/
theorem Checked.asserts (h : s.Checked fuel table) (turn : HandoffTurn) :
    s.Asserts fuel table turn := by
  cases turn with
  | arrive ev | tick now => trivial
  | engine next =>
    show s.EngineAsserts s.engine
    cases s.engine with
    | scanning ev ind bestc =>
      intro hlt
      refine ⟨(channel s.lastc ind hlt).2, fun _ b _ _ => ⟨fun _ => ?_, fun _ => ?_⟩⟩
      · exact ⟨Nat.zero_le _, Nat.zero_le _⟩
      · exact ⟨Nat.zero_le _, h.startt b, h.startt _⟩
    | unmarking ev c | testing ev c | recording ev c => exact c.2
    | idle | asking ev | enqueuing ev | chosen ev c | interrupting ev c | adding ev c args =>
      trivial
  | mixer next =>
    have hwaiting := h.waiting
    have hplayer := h.player
    have hspared := h.spared
    show s.MixerAsserts fuel table s.player
    cases hp : s.player with
    | scanning j => exact fun hlt => ⟨Nat.zero_le j, hlt⟩
    | testing j e => exact j.2
    | dequeuing j =>
      have hpos := hwaiting (by rw [hp]; rfl)
      exact ⟨hpos, Option.isSome_iff_exists.mpr (h.filled.event 0 hpos)⟩
    | deciding j e =>
      rw [hp] at hplayer
      exact hasEntry_of_knownSound (hplayer e.event (Multiset.mem_singleton_self _))
    | marking j e =>
      rw [hp] at hspared
      exact hspared j rfl
    | mixing j | checking j | removing j | unmarking j | asking j | adding j e args => trivial

end Handoff

end Peep
