import Peep.EngineLoop
import Peep.Mixer.Budget
import Peep.MixerQueue

/-!
# The hand-off between engine and mixer

Two threads share the event channels. The engine thread calls `engineIO` (`engine.c`) for one event
after the other; the mixer thread runs the loop of `mixer` (`mixer.c`). Two tables describe a
channel. `ebuffs` has what it plays, behind `mlock`; `sched`, the table of the engine, has when it
started, behind `tlock`, and `0` for a channel that is free. An event that finds no free channel
goes into the mixer queue, behind `qlock`, and the mixer takes events from there when a sound is
done. No operation holds two of the locks, and tests are made without any.

This module takes both threads apart into steps: the critical sections, and the reads between them.
A run is any interleaving of the steps of the two, of arriving events and of the clock.

## Choices

Events of type `EVENT_T` with a sound in the table arrive; `parserLoadEventSndDir` puts an entry
into the table only when all its sounds are loaded, so a `NULL` among them is not considered. What
comes after the loop over the event channels (state channels, the sound card, the sleep) touches
neither table and is left out: the loop begins anew. A step that follows `NULL`, or leaves an array,
has no successor. The clock is not before the epoch and does not run backwards.

The number of the sound that `rand` picks is part of the label of a step. Four fields keep what has
become of the events, which the code does not: those that arrived, those put on a channel, those
discarded because the queue was full, and those that had expired.

## Main results

* `Handoff.engineMove_of_step`, `Handoff.mixerMove_of_step` — what each step can do
-/

namespace Peep

open Double (toDouble)

/-! ## Data -/

/-- `struct engine_sched`. -/
structure EngineSched where
  /-- Start time of the sound; `0` if the channel is free. -/
  startt : ℚ
  /-- Priority of the sound. -/
  priorit : ℕ
  /-- End time of the sound, unused. -/
  minendt : ℚ

/-- A time of the clock, which is after the epoch. -/
abbrev Now := { t : Timeval // 0 < t.inFpSecs }

/-- Arguments of `mixerAddEvent` with a sound that is not `NULL`. -/
abbrev LoadedArgs := { args : EventArgs // args.snd.isSome }

/-- What the engine thread does next in `engineIO`, with the event it is called for. -/
inductive EngineAt (n : ℕ)
  /-- It is not in `engineIO`. -/
  | idle
  /-- An iteration of the loop over the channels, with the loop's `ind` and `bestc`. -/
  | scanning (ev : Event) (ind : ℕ) (bestc : Option (Fin n))
  /-- `mixerQueueFull ()`. -/
  | asking (ev : Event)
  /-- `mixerEnqueue (engine_event)`. -/
  | enqueuing (ev : Event)
  /-- `sched[bestc].startt != 0`. -/
  | chosen (ev : Event) (c : Fin n)
  /-- `mixerInterrupt (bestc)`: the section of `mixerRemoveEvent`. -/
  | interrupting (ev : Event) (c : Fin n)
  /-- And its call of `engineSchedulerInit`. -/
  | unmarking (ev : Event) (c : Fin n)
  /-- The choice of a sound and the test of `mixerAddEvent`. -/
  | testing (ev : Event) (c : Fin n)
  /-- The section of `mixerAddEvent`. -/
  | adding (ev : Event) (c : Fin n) (args : LoadedArgs)
  /-- The assignments to `sched[bestc]`. -/
  | recording (ev : Event) (c : Fin n)

/-- The engine thread is not in `engineIO`. -/
def EngineAt.Idle {n : ℕ} : EngineAt n → Bool
  | .idle => true
  | _ => false

/-- What the mixer thread does next in its loop over the event channels. -/
inductive MixerAt (n : ℕ)
  /-- `ebuffs[j].snd_buf == NULL`. -/
  | scanning (j : ℕ)
  /-- The two samples, and `ebuffs[j].pos += STEREO`. -/
  | mixing (j : Fin n)
  /-- `ebuffs[j].pos == ebuffs[j].len`. -/
  | checking (j : Fin n)
  /-- The section of `mixerRemoveEvent`. -/
  | removing (j : Fin n)
  /-- And its call of `engineSchedulerInit`. -/
  | unmarking (j : Fin n)
  /-- `mixerQueueEmpty ()`. -/
  | asking (j : Fin n)
  /-- `mixerDequeue ()`. -/
  | dequeuing (j : Fin n)
  /-- The comparison with `QUEUE_EXPIRED`. -/
  | deciding (j : Fin n) (e : EngineEvent)
  /-- The choice of a sound and the test of `mixerAddEvent`. -/
  | testing (j : Fin n) (e : EngineEvent)
  /-- The section of `mixerAddEvent`. -/
  | adding (j : Fin n) (e : EngineEvent) (args : LoadedArgs)
  /-- `engineSchedulerInit (j, tp_conv, old_event->event.prior, tp_conv)`. -/
  | marking (j : Fin n) (e : EngineEvent)

variable {n k : ℕ}

/-- The mixer thread is in the loop, not in one of the functions that it calls when a sound is
done. -/
def MixerAt.InLoop : MixerAt n → Bool
  | .scanning _ | .mixing _ | .checking _ => true
  | _ => false

/-- The tables of the two threads, where the threads are, and what has become of the events. -/
structure Handoff (n k : ℕ) where
  /-- The tables of the mixer. -/
  mixer : Mixer n k
  /-- `sched`. -/
  sched : Fin n → EngineSched
  /-- The mixer queue. -/
  queue : MixerQueue
  /-- `lastc`. -/
  lastc : ℕ
  /-- The clock. -/
  clock : Now
  /-- The engine thread. -/
  engine : EngineAt n
  /-- The mixer thread. -/
  player : MixerAt n
  /-- The events for which `engineIO` was called. -/
  accepted : Multiset Event
  /-- The events that were put on a channel. -/
  started : Multiset Event
  /-- The events that found the queue full. -/
  discarded : Multiset Event
  /-- The events that were too old when they were taken from the queue. -/
  expired : Multiset Event

/-- Who takes a step. -/
inductive HandoffTurn
  /-- `engineIO` is called. -/
  | arrive (ev : Event)
  /-- The engine thread; `next` is `next_snd`, where one is chosen. -/
  | engine (next : ℕ)
  /-- The mixer thread. -/
  | mixer (next : ℕ)
  /-- The clock advances. -/
  | tick (now : Now)

/-- `engineSchedulerInit`. -/
def engineSchedulerInit (sched : Fin n → EngineSched) (index : Fin n) (start : ℚ) (prior : ℕ)
    (minendt : ℚ) : Fin n → EngineSched :=
  Function.update sched index ⟨start, prior, minendt⟩

/-- The sound `next` of an event, as it is passed to `mixerAddEvent`. -/
def eventArgs? (fuel : ℕ) (table : SoundTable SoundData) (ev : Event) (next : ℕ) :
    Option LoadedArgs := do
  let name ← ev.sound
  let data ← engineSoundTableDataRetrieve fuel table name
  match data with
  | some (.event entry) => do
    let snd ← entry.snds[next]?
    let snd ← snd
    let len ← entry.lens[next]?
    some ⟨⟨some snd, len, ev.loc.toNat / 255, ev.flags⟩, rfl⟩
  | _ => none

/-- Whether the sound of an event is one of the table's event sounds. -/
def knownSound (fuel : ℕ) (table : SoundTable SoundData) (ev : Event) : Bool :=
  match ev.sound.bind (engineSoundTableDataRetrieve fuel table) with
  | some (some (.event _)) => true
  | _ => false

namespace Handoff

/-- `engineInit`, with a queue of `size` entries. -/
def start (n k size : ℕ) (clock : Now) : Handoff n k where
  mixer := mixerInit n k
  sched _ := ⟨0, 0, 0⟩
  queue := mixerQueueInit size
  lastc := 0
  clock := clock
  engine := .idle
  player := .scanning 0
  accepted := 0
  started := 0
  discarded := 0
  expired := 0

/-- The rest of an iteration of the loop in `engineIO` when the channel is not free. Before the
loop `bestc` is `-1`, and it is only set to leave the loop. -/
def nextBest (sched : Fin n → EngineSched) (c : Fin n) : Option (Fin n) → Option (Fin n)
  | none => none
  | some b =>
    if b.val = 0 ∧ (sched b).priorit < (sched c).priorit then some c
    else if b.val = 0 ∧ (sched b).priorit = (sched c).priorit ∧
      (sched b).startt > (sched c).startt then some c
    else some b

/-- The channel `(lastc + ind) % no_ebuffs`. -/
def channel (lastc ind : ℕ) (h : ind < n) : Fin n := ⟨(lastc + ind) % n, Nat.mod_lt _ (by omega)⟩

/-- The next step of the engine thread. -/
def engineStep (fuel : ℕ) (table : SoundTable SoundData) (s : Handoff n k) (next : ℕ) :
    Option (Handoff n k) :=
  match s.engine with
  | .idle => none
  | .scanning ev ind bestc =>
    if h : ind < n then
      if (s.sched (channel s.lastc ind h)).startt = 0 then
        some { s with
          engine := .chosen ev (channel s.lastc ind h)
          lastc := (channel s.lastc ind h + 1) % n }
      else some { s with
        engine := .scanning ev (ind + 1) (nextBest s.sched (channel s.lastc ind h) bestc) }
    else
      match bestc with
      | none => some { s with engine := .asking ev }
      | some c => some { s with engine := .chosen ev c, lastc := (c + 1) % n }
  | .asking ev =>
    if mixerQueueFull s.queue then some { s with engine := .idle, discarded := ev ::ₘ s.discarded }
    else some { s with engine := .enqueuing ev }
  | .enqueuing ev => do
    let queue ← mixerEnqueue s.queue ⟨ev, s.clock⟩
    some { s with engine := .idle, queue := queue }
  | .chosen ev c =>
    if (s.sched c).startt ≠ 0 then some { s with engine := .interrupting ev c }
    else some { s with engine := .testing ev c }
  | .interrupting ev c =>
    some { s with engine := .unmarking ev c, mixer := s.mixer.mixerRemoveEvent c }
  | .unmarking ev c =>
    some { s with engine := .testing ev c, sched := engineSchedulerInit s.sched c 0 0 0 }
  | .testing ev c => do
    let args ← eventArgs? fuel table ev next
    -- the engine does not look at `MIXER_CHAN_BUSY`
    if (s.mixer.ebuffs c).sndBuf.isSome then some { s with engine := .recording ev c }
    else some { s with engine := .adding ev c args }
  | .adding ev c args =>
    some { s with
      engine := .recording ev c
      mixer := s.mixer.start args c
      started := ev ::ₘ s.started }
  | .recording ev c =>
    some { s with
      engine := .idle
      sched := Function.update s.sched c
        { s.sched c with startt := s.clock.val.inFpSecs, priorit := ev.prior.toNat } }

/-- The next step of the mixer thread. -/
def mixerStep (fuel : ℕ) (table : SoundTable SoundData) (s : Handoff n k) (next : ℕ) :
    Option (Handoff n k) :=
  match s.player with
  | .scanning j =>
    if h : j < n then
      if (s.mixer.ebuffs ⟨j, h⟩).sndBuf.isNone then some { s with player := .scanning (j + 1) }
      else some { s with player := .mixing ⟨j, h⟩ }
    else some { s with player := .scanning 0 }
  | .mixing j => do
    let snd ← (s.mixer.ebuffs j).sndBuf
    let _ ← snd[(s.mixer.ebuffs j).pos]?
    let _ ← snd[(s.mixer.ebuffs j).pos + 1]?
    some { s with player := .checking j, mixer := s.mixer.advance j }
  | .checking j =>
    if (s.mixer.ebuffs j).pos = (s.mixer.ebuffs j).len then some { s with player := .removing j }
    else some { s with player := .scanning (j + 1) }
  | .removing j => some { s with player := .unmarking j, mixer := s.mixer.mixerRemoveEvent j }
  | .unmarking j =>
    some { s with player := .asking j, sched := engineSchedulerInit s.sched j 0 0 0 }
  | .asking j =>
    if mixerQueueEmpty s.queue then some { s with player := .scanning (j + 1) }
    else some { s with player := .dequeuing j }
  | .dequeuing j => do
    let (e, queue) ← mixerDequeue s.queue
    some { s with player := .deciding j e, queue := queue }
  | .deciding j e =>
    if toDouble (s.clock.val.inFpSecs - e.mixTime.inFpSecs) < QUEUE_EXPIRED then
      some { s with player := .testing j e }
    else some { s with player := .scanning (j + 1), expired := e.event ::ₘ s.expired }
  | .testing j e => do
    let args ← eventArgs? fuel table e.event next
    -- neither does the mixer
    if (s.mixer.ebuffs j).sndBuf.isSome then some { s with player := .marking j e }
    else some { s with player := .adding j e args }
  | .adding j e args =>
    some { s with
      player := .marking j e
      mixer := s.mixer.start args j
      started := e.event ::ₘ s.started }
  | .marking j e =>
    some { s with
      player := .scanning (j + 1)
      sched := engineSchedulerInit s.sched j s.clock.val.inFpSecs e.event.prior.toNat
        s.clock.val.inFpSecs }

/-- `engineIO` is called, if the engine thread is not in it. -/
def arrive (fuel : ℕ) (table : SoundTable SoundData) (s : Handoff n k) (ev : Event) :
    Option (Handoff n k) :=
  match s.engine with
  | .idle =>
    if ev.type = EVENT_T ∧ knownSound fuel table ev then
      some { s with engine := .scanning ev 0 none, accepted := ev ::ₘ s.accepted }
    else none
  | _ => none

/-- One step. -/
def step (fuel : ℕ) (table : SoundTable SoundData) (s : Handoff n k) :
    HandoffTurn → Option (Handoff n k)
  | .arrive ev => s.arrive fuel table ev
  | .engine next => s.engineStep fuel table next
  | .mixer next => s.mixerStep fuel table next
  | .tick now =>
    if s.clock.val.inFpSecs ≤ now.val.inFpSecs then some { s with clock := now } else none

/-! ## The two tables

A channel that has a sound in `ebuffs` is `Busy`. -/

/-- The channel is busy in `sched`. -/
def Marked (s : Handoff n k) (c : Fin n) : Prop := (s.sched c).startt ≠ 0

instance (s : Handoff n k) (c : Fin n) : Decidable (s.Marked c) :=
  inferInstanceAs (Decidable (_ ≠ _))

/-- Neither thread is in the middle of an operation. -/
def AtRest (s : Handoff n k) : Prop := s.engine.Idle = true ∧ s.player.InLoop = true

instance (s : Handoff n k) : Decidable s.AtRest := inferInstanceAs (Decidable (_ ∧ _))

theorem AtRest.engine {s : Handoff n k} (h : s.AtRest) : s.engine = .idle := by
  have hidle := h.1
  cases he : s.engine <;> rw [he] at hidle <;> first | rfl | cases hidle

/-! ## What a step can do -/

/-- What a step of the engine thread does to the tables, the queue and the events. -/
inductive EngineMove (s : Handoff n k) : Handoff n k → Prop
  /-- It looks at the next channel. -/
  | look {ev : Event} {ind ind' : ℕ} {bestc bestc' : Option (Fin n)}
      (h : s.engine = .scanning ev ind bestc) :
      EngineMove s { s with engine := .scanning ev ind' bestc' }
  /-- It has found no channel. -/
  | giveUp {ev : Event} {ind : ℕ} {bestc : Option (Fin n)}
      (h : s.engine = .scanning ev ind bestc) : EngineMove s { s with engine := .asking ev }
  /-- It has found a channel. -/
  | choose {ev : Event} {ind : ℕ} {bestc : Option (Fin n)} {c : Fin n} {lastc : ℕ}
      (h : s.engine = .scanning ev ind bestc) :
      EngineMove s { s with engine := .chosen ev c, lastc := lastc }
  /-- The queue is full. -/
  | discard {ev : Event} (h : s.engine = .asking ev) :
      EngineMove s { s with engine := .idle, discarded := ev ::ₘ s.discarded }
  /-- The queue is not full. -/
  | wait {ev : Event} (h : s.engine = .asking ev) : EngineMove s { s with engine := .enqueuing ev }
  /-- It enqueues the event. -/
  | enqueue {ev : Event} {queue : MixerQueue} (h : s.engine = .enqueuing ev)
      (hqueue : mixerEnqueue s.queue ⟨ev, s.clock⟩ = some queue) :
      EngineMove s { s with engine := .idle, queue := queue }
  /-- The channel has become busy. -/
  | taken {ev : Event} {c : Fin n} (h : s.engine = .chosen ev c) :
      EngineMove s { s with engine := .interrupting ev c }
  /-- The channel is still free. -/
  | untaken {ev : Event} {c : Fin n} (h : s.engine = .chosen ev c) :
      EngineMove s { s with engine := .testing ev c }
  /-- It clears the channel in `ebuffs`. -/
  | interrupt {ev : Event} {c : Fin n} (h : s.engine = .interrupting ev c) :
      EngineMove s { s with engine := .unmarking ev c, mixer := s.mixer.mixerRemoveEvent c }
  /-- It frees the channel in `sched`. -/
  | unmark {ev : Event} {c : Fin n} (h : s.engine = .unmarking ev c) :
      EngineMove s { s with
        engine := .testing ev c, sched := engineSchedulerInit s.sched c 0 0 0 }
  /-- `MIXER_CHAN_BUSY`. -/
  | busy {ev : Event} {c : Fin n} (h : s.engine = .testing ev c) (hbusy : s.mixer.Busy c) :
      EngineMove s { s with engine := .recording ev c }
  /-- The channel has no sound. -/
  | free {ev : Event} {c : Fin n} {args : LoadedArgs} (h : s.engine = .testing ev c)
      (hbusy : ¬ s.mixer.Busy c) : EngineMove s { s with engine := .adding ev c args }
  /-- It puts the sound on the channel. -/
  | add {ev : Event} {c : Fin n} {args : LoadedArgs} (h : s.engine = .adding ev c args) :
      EngineMove s { s with
        engine := .recording ev c, mixer := s.mixer.start args c, started := ev ::ₘ s.started }
  /-- It marks the channel busy in `sched`. -/
  | record {ev : Event} {c : Fin n} {entry : EngineSched} (h : s.engine = .recording ev c)
      (hentry : entry.startt ≠ 0) :
      EngineMove s { s with engine := .idle, sched := Function.update s.sched c entry }

/-- What a step of the mixer thread does to the tables, the queue and the events. -/
inductive MixerMove (s : Handoff n k) : Handoff n k → Prop
  /-- It goes on to a channel. -/
  | skip {j j' : ℕ} (h : s.player = .scanning j) :
      MixerMove s { s with player := .scanning j' }
  /-- The channel has a sound. -/
  | enter {i : ℕ} {j : Fin n} (h : s.player = .scanning i) :
      MixerMove s { s with player := .mixing j }
  /-- It mixes two samples. -/
  | mix {j : Fin n} (h : s.player = .mixing j) :
      MixerMove s { s with player := .checking j, mixer := s.mixer.advance j }
  /-- The sound goes on. -/
  | goOn {j : Fin n} {j' : ℕ} (h : s.player = .checking j) :
      MixerMove s { s with player := .scanning j' }
  /-- The sound is done. -/
  | done {j : Fin n} (h : s.player = .checking j) : MixerMove s { s with player := .removing j }
  /-- It clears the channel in `ebuffs`. -/
  | remove {j : Fin n} (h : s.player = .removing j) :
      MixerMove s { s with player := .unmarking j, mixer := s.mixer.mixerRemoveEvent j }
  /-- It frees the channel in `sched`. -/
  | unmark {j : Fin n} (h : s.player = .unmarking j) :
      MixerMove s { s with player := .asking j, sched := engineSchedulerInit s.sched j 0 0 0 }
  /-- No event waits. -/
  | nothing {j : Fin n} {j' : ℕ} (h : s.player = .asking j) (hempty : s.queue.top = 0) :
      MixerMove s { s with player := .scanning j' }
  /-- An event waits. -/
  | something {j : Fin n} (h : s.player = .asking j) (hnonempty : s.queue.top ≠ 0) :
      MixerMove s { s with player := .dequeuing j }
  /-- It takes an event from the queue. -/
  | dequeue {j : Fin n} {e : EngineEvent} {queue : MixerQueue} (h : s.player = .dequeuing j)
      (hqueue : mixerDequeue s.queue = some (e, queue)) :
      MixerMove s { s with player := .deciding j e, queue := queue }
  /-- The event is too old. -/
  | expire {j : Fin n} {j' : ℕ} {e : EngineEvent} (h : s.player = .deciding j e)
      (hold : QUEUE_EXPIRED ≤ toDouble (s.clock.val.inFpSecs - e.mixTime.inFpSecs)) :
      MixerMove s { s with player := .scanning j', expired := e.event ::ₘ s.expired }
  /-- The event is not too old. -/
  | keep {j : Fin n} {e : EngineEvent} (h : s.player = .deciding j e) :
      MixerMove s { s with player := .testing j e }
  /-- `MIXER_CHAN_BUSY`. -/
  | busy {j : Fin n} {e : EngineEvent} (h : s.player = .testing j e) (hbusy : s.mixer.Busy j) :
      MixerMove s { s with player := .marking j e }
  /-- The channel has no sound. -/
  | free {j : Fin n} {e : EngineEvent} {args : LoadedArgs} (h : s.player = .testing j e)
      (hbusy : ¬ s.mixer.Busy j) : MixerMove s { s with player := .adding j e args }
  /-- It puts the sound on the channel. -/
  | add {j : Fin n} {e : EngineEvent} {args : LoadedArgs} (h : s.player = .adding j e args) :
      MixerMove s { s with
        player := .marking j e, mixer := s.mixer.start args j, started := e.event ::ₘ s.started }
  /-- It marks the channel busy in `sched`. -/
  | mark {j : Fin n} {j' : ℕ} {e : EngineEvent} {start minendt : ℚ} {prior : ℕ}
      (h : s.player = .marking j e) (hstart : start ≠ 0) :
      MixerMove s { s with
        player := .scanning j', sched := engineSchedulerInit s.sched j start prior minendt }

variable {fuel : ℕ} {table : SoundTable SoundData} {s s' : Handoff n k} {next : ℕ}

/-- **The engine's steps** are its moves. -/
theorem engineMove_of_step (hs : s.engineStep fuel table next = some s') : s.EngineMove s' := by
  rw [engineStep.eq_def] at hs
  cases h : s.engine with
  | idle =>
    rw [h] at hs
    cases hs
  | scanning ev ind bestc =>
    simp only [h] at hs
    split_ifs at hs
    · cases hs
      exact .choose h
    · cases hs
      exact .look h
    · cases bestc <;> cases hs
      · exact .giveUp h
      · exact .choose h
  | asking ev =>
    simp only [h] at hs
    split_ifs at hs <;> cases hs
    · exact .discard h
    · exact .wait h
  | enqueuing ev =>
    simp only [h] at hs
    obtain ⟨queue, hqueue, hs⟩ := Option.bind_eq_some_iff.mp hs
    cases hs
    exact .enqueue h hqueue
  | chosen ev c =>
    simp only [h] at hs
    split_ifs at hs <;> cases hs
    · exact .taken h
    · exact .untaken h
  | interrupting ev c =>
    rw [h] at hs
    cases hs
    exact .interrupt h
  | unmarking ev c =>
    rw [h] at hs
    cases hs
    exact .unmark h
  | testing ev c =>
    simp only [h] at hs
    obtain ⟨args, -, hs⟩ := Option.bind_eq_some_iff.mp hs
    split_ifs at hs with hbusy <;> cases hs
    · exact .busy h hbusy
    · exact .free h hbusy
  | adding ev c args =>
    rw [h] at hs
    cases hs
    exact .add h
  | recording ev c =>
    rw [h] at hs
    cases hs
    exact .record h s.clock.property.ne'

/-- **The mixer's steps** are its moves. -/
theorem mixerMove_of_step (hs : s.mixerStep fuel table next = some s') : s.MixerMove s' := by
  rw [mixerStep.eq_def] at hs
  cases h : s.player with
  | scanning j =>
    simp only [h] at hs
    split_ifs at hs <;> cases hs
    · exact .skip h
    · exact .enter h
    · exact .skip h
  | mixing j =>
    simp only [h] at hs
    obtain ⟨snd, -, hs⟩ := Option.bind_eq_some_iff.mp hs
    obtain ⟨left, -, hs⟩ := Option.bind_eq_some_iff.mp hs
    obtain ⟨right, -, hs⟩ := Option.bind_eq_some_iff.mp hs
    cases hs
    exact .mix h
  | checking j =>
    simp only [h] at hs
    split_ifs at hs <;> cases hs
    · exact .done h
    · exact .goOn h
  | removing j =>
    rw [h] at hs
    cases hs
    exact .remove h
  | unmarking j =>
    rw [h] at hs
    cases hs
    exact .unmark h
  | asking j =>
    simp only [h, mixerQueueEmpty, beq_iff_eq] at hs
    split_ifs at hs with hempty <;> cases hs
    · exact .nothing h hempty
    · exact .something h hempty
  | dequeuing j =>
    simp only [h] at hs
    obtain ⟨⟨e, queue⟩, hqueue, hs⟩ := Option.bind_eq_some_iff.mp hs
    cases hs
    exact .dequeue h hqueue
  | deciding j e =>
    simp only [h] at hs
    split_ifs at hs with hold <;> cases hs
    · exact .keep h
    · exact .expire h (not_lt.mp hold)
  | testing j e =>
    simp only [h] at hs
    obtain ⟨args, -, hs⟩ := Option.bind_eq_some_iff.mp hs
    split_ifs at hs with hbusy <;> cases hs
    · exact .busy h hbusy
    · exact .free h hbusy
  | adding j e args =>
    rw [h] at hs
    cases hs
    exact .add h
  | marking j e =>
    rw [h] at hs
    cases hs
    exact .mark h s.clock.property.ne'

/-- **An event arrives** when the engine thread is in no other. -/
theorem arrive_cases {ev : Event} (hs : s.arrive fuel table ev = some s') :
    s.engine = .idle ∧ knownSound fuel table ev = true ∧
      s' = { s with engine := .scanning ev 0 none, accepted := ev ::ₘ s.accepted } := by
  rw [arrive.eq_def] at hs
  cases h : s.engine with
  | idle =>
    simp only [h] at hs
    split_ifs at hs with harrive
    exact ⟨rfl, harrive.2, (Option.some.inj hs).symm⟩
  | scanning ev ind bestc | asking ev | enqueuing ev | chosen ev c | interrupting ev c
  | unmarking ev c | testing ev c | adding ev c args | recording ev c =>
    rw [h] at hs
    cases hs

/-- The clock advances. -/
theorem tick_cases {now : Now} (hs : s.step fuel table (.tick now) = some s') :
    s' = { s with clock := now } := by
  rw [step] at hs
  split_ifs at hs
  exact (Option.some.inj hs).symm

end Handoff

/-! ## A short sound -/

/-- A table with one sound, `a`, of two samples. -/
def shortSound : SoundTable SoundData := fun i =>
  if i.val = 97 then [⟨[97], EVENT_T, .event ⟨#[some #[0, 0]], #[2]⟩⟩] else []

/-- An event for that sound. -/
def playShort : Event := ⟨EVENT_T, 128, 0, 0, 255, 0, 1, some [97]⟩

/-- A second after the epoch. -/
def oneSecond : Now := ⟨⟨1, 0⟩, by decide +kernel⟩

end Peep
