import Peep.EngineQueue
import Peep.Mixer
import Peep.SoundTable
import Mathlib.Data.List.TakeDrop

/-!
# The engine loop

`engineLoop` (`main.c`) takes one event after the other out of the engine queue, looks its sound up,
and hands it to `engineIO` (`engine.c`) if the type is that of the sound. This module has what this
does to the state channels: a state event sets the volume, the stereo position, the flags and, with
a `dither` other than `255`, the fade time of one of them. What `engineIO` does with the other type
of event is about the event channels and is in `Peep.Handoff`.

The last event that is processed for a state decides its volume. So the order in which the engine
queue returns events matters, and with first in, first out the event enqueued last would decide.

## Main results

* `vol_engineLoop` — the volume of a state after an event
* `vol_processAll` — and after a list of them: that of the last one for it
* `EngineQueueRun.fifo_of_alone` — in runs of the queue in which every event is dequeued before
  the next one is enqueued, the event enqueued last decides
-/

namespace Peep

open Double (toDouble)
open StepSystem

/-- `EVENT_ENTRY`. `snd_cnt` is the length of both arrays. -/
structure EventEntry where
  /-- Array of event samples. -/
  snds : Array (Option Sound)
  /-- Length of samples. -/
  lens : Array ℕ

/-- What `data` of a sound entry points to. -/
inductive SoundData
  /-- An `EVENT_ENTRY`. -/
  | event (entry : EventEntry)
  /-- A `STATE_ENTRY`: the index within the internal buffer of the mixer. -/
  | state (mixerIndex : ℕ)

/-- `MAX_FADE_TIME`. -/
def MAX_FADE_TIME : ℚ := 2

variable {n k : ℕ}

/-- `engineSoundTableDataRetrieve`. -/
def engineSoundTableDataRetrieve {β : Type} (fuel : ℕ) (t : SoundTable β) (name : CString) :
    Option (Option β) :=
  (engineSoundTableRetrieve fuel t name).map fun p => p.map SoundEntry.data

/-- The fade time that an event sets; a `dither` of `255` leaves it as it is. -/
def setFade (m : Mixer n k) (mixerIndex : ℕ) (dither : UInt8) : Option (Mixer n k) :=
  if dither ≠ 255 then
    (m.mixerSetFadeTime mixerIndex (toDouble (dither.toNat / (255 / MAX_FADE_TIME)))).map Prod.snd
  else some m

/-- The branch of `engineIO` for `STATE_T`. -/
def engineIOState (fuel : ℕ) (t : SoundTable SoundData) (m : Mixer n k) (e : Event) :
    Option (Mixer n k) := do
  let name ← e.sound
  let entry ← engineSoundTableDataRetrieve fuel t name
  match entry with
  | some (.state mixerIndex) =>
    let _ ← m.mixerGetFadeTime mixerIndex
    let m ← setFade m mixerIndex e.dither
    (m.mixerSetStateSnd mixerIndex (e.vol.toNat / 255) (e.loc.toNat / 255) e.flags).map Prod.snd
  | _ => none

/-- The body of `engineLoop` after the dequeue, as far as it concerns the state channels. -/
def engineLoop (fuel : ℕ) (t : SoundTable SoundData) (m : Mixer n k) (e : Event) :
    Option (Mixer n k) := do
  let name ← e.sound
  let entry ← engineSoundTableRetrieve fuel t name
  match entry with
  | none => some m
  | some entry =>
    if e.type ≠ entry.type then some m
    else if e.type = STATE_T then engineIOState fuel t m e
    else some m

/-- The loop over a list of events. -/
def processAll (fuel : ℕ) (t : SoundTable SoundData) : List Event → Mixer n k → Option (Mixer n k)
  | [], m => some m
  | e :: es, m => (engineLoop fuel t m e).bind (processAll fuel t es)

/-- The state that an event is for: that of its sound, if the event is for a state. -/
def target? (fuel : ℕ) (t : SoundTable SoundData) (e : Event) : Option ℕ := do
  let name ← e.sound
  let entry ← engineSoundTableRetrieve fuel t name
  let entry ← entry
  if e.type = entry.type ∧ e.type = STATE_T then
    match entry.data with
    | .state mixerIndex => some mixerIndex
    | .event _ => none
  else none

variable {fuel : ℕ} {t : SoundTable SoundData} {m m' : Mixer n k} {e : Event}

theorem vol_mixerSetStateSnd {j : ℕ} {vol stereo : ℚ} {flags : Int32} {status : MixerStatus}
    (h : m.mixerSetStateSnd j vol stereo flags = some (status, m')) (i : Fin k) :
    (m'.states i).buf.vol = if (i : ℕ) = j then vol else (m.states i).buf.vol := by
  obtain ⟨hj, c, hc, rfl⟩ := Mixer.onState_eq_some.mp h
  obtain ⟨-, rfl⟩ := Prod.mk.inj (Option.some.inj hc)
  by_cases hi : (i : ℕ) = j
  · subst hi
    simp
  · rw [if_neg hi]
    have hne : i ≠ ⟨j, hj⟩ := fun he => hi (congrArg Fin.val he)
    simp [hne]

theorem vol_mixerSetFadeTime {j : ℕ} {time : ℚ} {status : MixerStatus}
    (h : m.mixerSetFadeTime j time = some (status, m')) (i : Fin k) :
    (m'.states i).buf.vol = (m.states i).buf.vol := by
  rw [Mixer.mixerSetFadeTime] at h
  split_ifs at h
  · obtain ⟨hj, c, hc, rfl⟩ := Mixer.onState_eq_some.mp h
    obtain ⟨-, rfl⟩ := Prod.mk.inj (Option.some.inj hc)
    rcases eq_or_ne i ⟨j, hj⟩ with rfl | hi
    · simp
    · simp [hi]
  · obtain ⟨-, rfl⟩ := Prod.mk.inj (Option.some.inj h)
    rfl

theorem vol_setFade {j : ℕ} {dither : UInt8} (h : setFade m j dither = some m') (i : Fin k) :
    (m'.states i).buf.vol = (m.states i).buf.vol := by
  rw [setFade] at h
  split_ifs at h
  · obtain ⟨⟨status, _⟩, htime, rfl⟩ := Option.map_eq_some_iff.mp h
    exact vol_mixerSetFadeTime htime i
  · obtain rfl := Option.some.inj h
    rfl

/-- The branch for states sets the volume of the sound's state. -/
theorem vol_engineIOState {name : CString} {entry : SoundEntry SoundData}
    (hname : e.sound = some name)
    (hentry : engineSoundTableRetrieve fuel t name = some (some entry))
    (h : engineIOState fuel t m e = some m') : ∃ j, entry.data = .state j ∧ ∀ i : Fin k,
      (m'.states i).buf.vol
        = if (i : ℕ) = j then (e.vol.toNat : ℚ) / 255 else (m.states i).buf.vol := by
  simp only [engineIOState, hname, engineSoundTableDataRetrieve, hentry, Option.map_some,
    Option.bind_eq_bind, Option.bind_some] at h
  cases hdata : entry.data with
  | event ev => simp [hdata] at h
  | state j =>
    simp only [hdata] at h
    obtain ⟨-, -, h⟩ := Option.bind_eq_some_iff.mp h
    obtain ⟨m₁, hfade, h⟩ := Option.bind_eq_some_iff.mp h
    obtain ⟨⟨status, _⟩, hset, rfl⟩ := Option.map_eq_some_iff.mp h
    exact ⟨j, rfl, fun i => by rw [vol_mixerSetStateSnd hset, vol_setFade hfade]⟩

/-- **An event sets the volume of the state it is for**, and of no other. -/
theorem vol_engineLoop (h : engineLoop fuel t m e = some m') (i : Fin k) :
    (m'.states i).buf.vol
      = if target? fuel t e = some (i : ℕ) then (e.vol.toNat : ℚ) / 255
        else (m.states i).buf.vol := by
  obtain ⟨name, hname, h⟩ := Option.bind_eq_some_iff.mp h
  obtain ⟨entry, hentry, h⟩ := Option.bind_eq_some_iff.mp h
  cases entry with
  | none =>
    obtain rfl := Option.some.inj h
    simp [target?, hname, hentry]
  | some entry =>
    have htarget : target? fuel t e = if e.type = entry.type ∧ e.type = STATE_T then
        (match entry.data with | .state mixerIndex => some mixerIndex | .event _ => none)
        else none := by simp [target?, hname, hentry]
    dsimp only at h
    split_ifs at h with htype hstate
    · obtain rfl := Option.some.inj h
      simp [htarget, htype]
    · obtain ⟨j, hdata, hvol⟩ := vol_engineIOState hname hentry h
      have hboth : e.type = entry.type ∧ e.type = STATE_T := ⟨not_not.mp htype, hstate⟩
      rw [hvol, htarget, if_pos hboth, hdata]
      simp only [Option.some.injEq, eq_comm]
    · obtain rfl := Option.some.inj h
      simp [htarget, hstate]

theorem vol_processAll_of_forall {es : List Event} {i : Fin k}
    (h : processAll fuel t es m = some m') (hes : ∀ e ∈ es, target? fuel t e ≠ some (i : ℕ)) :
    (m'.states i).buf.vol = (m.states i).buf.vol := by
  induction es generalizing m with
  | nil =>
    obtain rfl := Option.some.inj h
    rfl
  | cons e es ih =>
    obtain ⟨hne, hes⟩ := List.forall_mem_cons.mp hes
    obtain ⟨m₁, he, h⟩ := Option.bind_eq_some_iff.mp h
    rw [ih h hes, vol_engineLoop he, if_neg hne]

/-- **The last event for a state decides its volume.** -/
theorem vol_processAll {pre post : List Event} {i : Fin k}
    (h : processAll fuel t (pre ++ e :: post) m = some m')
    (he : target? fuel t e = some (i : ℕ)) (hpost : ∀ e' ∈ post, target? fuel t e' ≠ some (i : ℕ)) :
    (m'.states i).buf.vol = (e.vol.toNat : ℚ) / 255 := by
  induction pre generalizing m with
  | nil =>
    obtain ⟨m₁, he₁, h⟩ := Option.bind_eq_some_iff.mp h
    rw [vol_processAll_of_forall h hpost, vol_engineLoop he₁, if_pos he]
  | cons e' pre ih =>
    obtain ⟨m₁, -, h⟩ := Option.bind_eq_some_iff.mp h
    exact ih h

namespace EngineQueueRun

/-- **First in, first out, where it holds.** In a run in which every event is dequeued before the
next one is enqueued, the events come out in the order in which they went in, and of those that have
come out, the one enqueued last for a state decides the volume of that state. -/
theorem fifo_of_alone (calls : List (EngineQueueCall Event))
    (h : Along step Alone (start : EngineQueueRun Event) calls) :
    Along step InOrder (start : EngineQueueRun Event) calls ∧
      ∀ r, exec step start calls = some r → ∀ (n k fuel : ℕ) (t : SoundTable SoundData)
        (m m' : Mixer n k), processAll fuel t r.dequeued m = some m' →
        ∀ (pre post : List Event) (e : Event) (i : Fin k),
          r.enqueued.take r.dequeued.length = pre ++ e :: post →
          target? fuel t e = some (i : ℕ) →
          (∀ e' ∈ post, target? fuel t e' ≠ some (i : ℕ)) →
          (m'.states i).buf.vol = (e.vol.toNat : ℚ) / 255 := by
  refine ⟨inOrder_of_alone h, fun r hr n k fuel t m m' hm pre post e i htake he hpost => ?_⟩
  obtain ⟨as, hfifo⟩ : ∃ as, r.Fifo as :=
    exec_invariant (I := fun r : EngineQueueRun Event => ∃ as, r.Fifo as)
      (fun _ _ _ ⟨_, hI⟩ hC hs => hI.step hC hs) ⟨[], fifo_start⟩ h hr
  rw [hfifo.order, List.take_left] at htake
  rw [htake] at hm
  exact vol_processAll hm he hpost

/-- A state event that sets the volume to `vol`. -/
def setVolume (vol : UInt8) : Event := ⟨STATE_T, 128, 0, vol, 255, 0, 1, some [97]⟩

/-- A table with one state, `a`. -/
def oneState : SoundTable SoundData := fun i =>
  if i.val = 97 then [⟨[97], STATE_T, .state 0⟩] else []

/-- Two events for one state, each of which is dequeued before the next call. They come out in the
order in which they went in, and the volume of the second one remains. -/
theorem fifo_of_alone_two_events :
    let calls := [EngineQueueCall.enqueue (setVolume 10) 0, .dequeue, .enqueue (setVolume 200) 1,
      .dequeue]
    Along step InOrder (start : EngineQueueRun Event) calls ∧
      ∃ r ∈ exec step (start : EngineQueueRun Event) calls,
        r.dequeued = [setVolume 10, setVolume 200] ∧
        ∃ m' ∈ processAll 1 oneState r.dequeued (mixerInit 0 1),
          (m'.states 0).buf.vol = 200 / 255 := by
  intro calls
  have halone : Along step Alone (start : EngineQueueRun Event) calls := by decide
  obtain ⟨horder, hvol⟩ := fifo_of_alone calls halone
  refine ⟨horder, _, rfl, rfl, ?_⟩
  obtain ⟨m', hm⟩ := Option.isSome_iff_exists.mp
    (show (processAll 1 oneState [setVolume 10, setVolume 200] (mixerInit 0 1)).isSome by
      decide)
  exact ⟨m', hm, hvol _ rfl 0 1 1 oneState (mixerInit 0 1) m' hm [setVolume 10] []
    (setVolume 200) 0 rfl (by decide) (fun e he => absurd he List.not_mem_nil)⟩

/-- **Two events come out in reverse.** -/
theorem not_inOrder_two_events : ¬ Along step InOrder (start : EngineQueueRun Event)
    [.enqueue (setVolume 10) 0, .enqueue (setVolume 200) 1, .dequeue] := by
  intro h
  have h := ((along_cons_of_eq rfl).mp ((along_cons_of_eq rfl).mp h).2).2
  obtain ⟨v, q, heq, hpre⟩ := h.1 rfl
  obtain rfl : setVolume 200 = v := congrArg Prod.fst (Option.some.inj heq)
  exact absurd hpre (by decide)

end EngineQueueRun

end Peep
