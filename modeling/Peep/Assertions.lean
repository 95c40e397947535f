import Peep.Handoff.Assertions
import Peep.Mixer.Indices
import Peep.Mixer.StateLoop

/-!
# No assertion fails, but on the last channel

The engine thread calls `engineIO` for one event after the other, for an event sound or for a state.
The mixer thread goes around in `mixer`: over the event channels, with `Handoff`, and then over the
state channels, with the parts of `Peep.Mixer.StateLoop`. A run is any interleaving of the steps of
the two, and the question is whether the condition of an assertion can be false in it.

It can where `mixerAddOldEvent` asserts `(j + 1) < no_ebuffs` for the channel `j`, which may be the
last. It can also be false where an event for a state changes the volume in the middle of an
iteration for that state: the filter then moves within the threshold of the new volume, and the
iteration ends with that of the old one.

## Choices

An event for a state sets the fade time and then the volume; these are the settings that
`eventActs` lists, each a step, taken when the engine thread is in no other event. What the channels
add to the output, and what comes after the loops, is left out.

## Main results

* `Threads.exec_eventActs` — an event for a state is its settings
* `Threads.exec_iteration` — an iteration that nothing interrupts is that of the loop
* `Threads.along_asserts` — every assertion holds, if the last channel is spared and no event
  selects another threshold in the middle of an iteration
* `Threads.not_along_asserts_oneChannel`, `Threads.not_along_asserts_twoLevels` — runs without
  these conditions
-/

namespace Peep

open StepSystem StateChannel

variable {n k : ℕ}

/-! ## The two threads -/

/-- What the mixer thread does next in its loop over the state channels. -/
inductive StateAt (k : ℕ)
  /-- The beginning of an iteration. -/
  | scanning (j : ℕ)
  /-- `sbuffs[j].filter_flag`. -/
  | testing (j : Fin k) (t : ℕ) (sample : StereoSample)
  /-- The filter for the left side. -/
  | left (j : Fin k) (t : ℕ) (sample : StereoSample)
  /-- The filter for the right side. -/
  | right (j : Fin k) (t : ℕ) (sright : Int16)
  /-- The end of an iteration. -/
  | ending (j : Fin k) (t : ℕ)
  deriving DecidableEq

/-- The channel of the iteration that has begun, and the threshold. -/
def StateAt.begun? : StateAt k → Option (Fin k × ℕ)
  | .scanning _ => none
  | .testing j t _ | .left j t _ | .right j t _ | .ending j t => some (j, t)

/-- The tables and the place of both threads. -/
structure Threads (n k : ℕ) where
  /-- The tables, the engine thread, and the mixer thread in its loop over the event channels. -/
  handoff : Handoff n k
  /-- The mixer thread in its loop over the state channels; `none` if it is in the other one. -/
  place : Option (StateAt k)

/-- Who takes a step. -/
inductive ThreadsTurn (k : ℕ)
  /-- A step of `Handoff`. -/
  | handoff (turn : HandoffTurn)
  /-- The mixer thread in its loop over the state channels; `r` is the random fraction. -/
  | states (r : Set.Ico (0 : ℚ) 1)
  /-- The engine thread, for a state. -/
  | setting (j : Fin k) (a : ChannelAct)

/-- It is one of the settings, not an iteration. -/
def ChannelAct.IsSetting : ChannelAct → Bool
  | .mixer _ _ => false
  | _ => true

/-- The mixer thread has come to the end of its loop over the event channels. -/
def MixerAt.Over : MixerAt n → Bool
  | .scanning j => n ≤ j
  | _ => false

namespace Handoff

/-- The tables with another state channel. -/
def setState (s : Handoff n k) (j : Fin k) (c : StateChannel) : Handoff n k :=
  { s with mixer := { s.mixer with states := Function.update s.mixer.states j c } }

end Handoff

namespace Threads

/-- The state channel `j`. -/
def channel (s : Threads n k) (j : Fin k) : StateChannel := s.handoff.mixer.states j

/-- The iteration that has begun. -/
def begun? (s : Threads n k) : Option (Fin k × ℕ) := s.place.bind StateAt.begun?

/-- A step that changes the state channel `j`. -/
def change (s : Threads n k) (j : Fin k) (c : StateChannel) (place : Option (StateAt k)) :
    Threads n k :=
  ⟨s.handoff.setState j c, place⟩

/-- The threads begin with a mixer into which the configuration has been loaded. -/
def start (m : Mixer n k) (size : ℕ) (clock : Now) : Threads n k :=
  ⟨{ Handoff.start n k size clock with mixer := m }, none⟩

/-- The next step of the mixer thread in its loop over the state channels. -/
def stateStep (s : Threads n k) (r : ℚ) : StateAt k → Option (Threads n k)
  | .scanning j =>
    if h : j < k then do
      let begun ← (s.channel ⟨j, h⟩).begin
      match begun with
      | none => some { s with place := some (.scanning (j + 1)) }
      | some (t, sample) => some { s with place := some (.testing ⟨j, h⟩ t sample) }
    else some { s with place := none }
  | .testing j t sample =>
    if (s.channel j).buf.filterFlag = 0 then some { s with place := some (.ending j t) }
    else some { s with place := some (.left j t sample) }
  | .left j t sample => do
    let (_, c) ← (s.channel j).filterLeft r t sample.1
    some (s.change j c (some (.right j t sample.2)))
  | .right j t sright => do
    let (_, c) ← (s.channel j).filterRight r t sright
    some (s.change j c (some (.ending j t)))
  | .ending j t => do
    let c ← (s.channel j).advance t r
    some (s.change j c (some (.scanning (j + 1))))

/-- One step. -/
def step (fuel : ℕ) (table : SoundTable SoundData) (s : Threads n k) :
    ThreadsTurn k → Option (Threads n k)
  | .handoff (.mixer next) =>
    if s.place.isSome then none
    else (s.handoff.step fuel table (.mixer next)).map fun handoff =>
      ⟨handoff, if s.handoff.player.Over then some (.scanning 0) else none⟩
  | .handoff turn =>
    (s.handoff.step fuel table turn).map fun handoff => { s with handoff := handoff }
  | .states r => s.place.bind (s.stateStep r)
  | .setting j a =>
    if s.handoff.engine.Idle ∧ a.IsSetting then
      ((s.channel j).act a).map fun c => s.change j c s.place
    else none

/-- **The assertions** in a step. -/
def Asserts (fuel : ℕ) (table : SoundTable SoundData) (s : Threads n k) : ThreadsTurn k → Prop
  | .handoff turn => s.handoff.Asserts fuel table turn
  | .states _ => ∀ j, s.place = some (.scanning j) → ∀ h : j < k, (s.channel ⟨j, h⟩).LoopAsserts
  | .setting _ _ => True

/-- **The condition on a step**: an event that is taken from the queue for the last channel is too
old, and in the middle of an iteration for a state no event for it selects another threshold. -/
def Spares (s : Threads n k) : ThreadsTurn k → Prop
  | .handoff turn => s.handoff.Spares turn
  | .states _ => True
  | .setting j a => ∀ begun ∈ s.begun?, begun.1 = j →
      ∀ c ∈ (s.channel j).act a, c.buf.mixerGetStateSndPtr = some begun.2

instance (s : Threads n k) (turn : ThreadsTurn k) : Decidable (s.Spares turn) :=
  match turn with
  | .handoff turn => inferInstanceAs (Decidable (s.handoff.Spares turn))
  | .states _ => inferInstanceAs (Decidable True)
  | .setting _ _ => inferInstanceAs (Decidable (∀ _ ∈ _, _ → ∀ _ ∈ _, _))

/-- What such steps preserve. -/
structure Checked (fuel : ℕ) (table : SoundTable SoundData) (s : Threads n k) : Prop where
  /-- The two threads and the queue. -/
  handoff : s.handoff.Checked fuel table
  /-- The channels between two iterations. -/
  between : ∀ j, (∀ t, s.begun? ≠ some (j, t)) → (s.channel j).buf.Ordered none
  /-- The channel of the iteration that has begun. -/
  within : ∀ j t, s.begun? = some (j, t) → (s.channel j).Selecting t

variable {fuel : ℕ} {table : SoundTable SoundData} {s s' : Threads n k} {turn : ThreadsTurn k}
  {i j : Fin k} {t : ℕ} {c : StateChannel} {place : Option (StateAt k)}

theorem checked_start {m : Mixer n k} (hm : m.Fresh) (size : ℕ) (clock : Now) :
    (start m size clock).Checked fuel table where
  handoff := (Handoff.checked_start size clock).withMixer m
  between j _ := (hm j).ordered
  within j t h := by cases h

theorem Checked.asserts (h : s.Checked fuel table) (turn : ThreadsTurn k) :
    s.Asserts fuel table turn := by
  cases turn with
  | handoff turn => exact h.handoff.asserts turn
  | states r =>
    intro j hj hlt
    refine (h.between ⟨j, hlt⟩ fun t ht => ?_).loopAsserts
    rw [begun?, hj] at ht
    cases ht
  | setting j a => trivial

/-! ### Steps -/

theorem channel_change_self : (s.change j c place).channel j = c := Function.update_self ..

theorem channel_change_of_ne (h : i ≠ j) : (s.change j c place).channel i = s.channel i :=
  Function.update_of_ne h ..

/-- A step of the iteration that has begun, on its channel. -/
theorem Checked.change (h : s.Checked fuel table) (hj : s.begun? = some (j, t))
    (hbegun : place.bind StateAt.begun? = some (j, t) ∧ c.Selecting t ∨
      place.bind StateAt.begun? = none ∧ c.buf.Ordered none) :
    (s.change j c place).Checked fuel table := by
  have hothers (i : Fin k) (hi : i ≠ j) : (s.channel i).buf.Ordered none := by
    refine h.between i fun t' ht' => hi ?_
    exact (Prod.mk.inj (Option.some.inj (ht'.symm.trans hj))).1
  refine ⟨h.handoff.withMixer _, fun i hi => ?_, fun i t' ht' => ?_⟩
  · rcases eq_or_ne i j with rfl | hij
    · rw [channel_change_self]
      rcases hbegun with ⟨hplace, -⟩ | ⟨-, hordered⟩
      · exact absurd hplace (hi t)
      · exact hordered
    · rw [channel_change_of_ne hij]
      exact hothers i hij
  · change place.bind StateAt.begun? = some (i, t') at ht'
    rcases hbegun with ⟨hplace, hselecting⟩ | ⟨hplace, -⟩
    · obtain ⟨rfl, rfl⟩ := Prod.mk.inj (Option.some.inj (hplace.symm.trans ht'))
      rwa [channel_change_self]
    · cases hplace.symm.trans ht'

/-- **The mixer's steps** in its loop over the state channels. -/
theorem Checked.stateStep {p : StateAt k} {r : Set.Ico (0 : ℚ) 1} (h : s.Checked fuel table)
    (hp : s.place = some p) (hs : s.stateStep r p = some s') : s'.Checked fuel table := by
  have hbegun : s.begun? = p.begun? := by rw [begun?, hp, Option.bind_some]
  cases p with
  | scanning j =>
    have hbetween (i : Fin k) : (s.channel i).buf.Ordered none :=
      h.between i fun t ht => by cases hbegun.symm.trans ht
    rw [Threads.stateStep] at hs
    split_ifs at hs with hlt
    · obtain ⟨begun, hc, hs⟩ := Option.bind_eq_some_iff.mp hs
      cases begun with
      | none =>
        obtain rfl := Option.some.inj hs
        exact ⟨h.handoff, fun i _ => hbetween i, fun i t ht => by cases ht⟩
      | some sample =>
        obtain rfl := Option.some.inj hs
        refine ⟨h.handoff, fun i _ => hbetween i, fun i t ht => ?_⟩
        obtain ⟨rfl, rfl⟩ := Prod.mk.inj (Option.some.inj ht)
        exact selecting_of_begin (hbetween _) hc
    · obtain rfl := Option.some.inj hs
      exact ⟨h.handoff, fun i _ => hbetween i, fun i t ht => by cases ht⟩
  | testing j t sample =>
    rw [Threads.stateStep] at hs
    split_ifs at hs <;> obtain rfl := Option.some.inj hs
    · exact ⟨h.handoff, fun i hi => h.between i (hbegun ▸ hi),
        fun i t ht => h.within i t (hbegun ▸ ht)⟩
    · exact ⟨h.handoff, fun i hi => h.between i (hbegun ▸ hi),
        fun i t ht => h.within i t (hbegun ▸ ht)⟩
  | left j t sample =>
    obtain ⟨⟨x, c⟩, hc, hs⟩ := Option.bind_eq_some_iff.mp hs
    obtain rfl := Option.some.inj hs
    exact h.change hbegun (.inl ⟨rfl, (h.within j t hbegun).left hc⟩)
  | right j t sright =>
    obtain ⟨⟨x, c⟩, hc, hs⟩ := Option.bind_eq_some_iff.mp hs
    obtain rfl := Option.some.inj hs
    exact h.change hbegun (.inl ⟨rfl, (h.within j t hbegun).right hc⟩)
  | ending j t =>
    obtain ⟨c, hc, hs⟩ := Option.bind_eq_some_iff.mp hs
    obtain rfl := Option.some.inj hs
    exact h.change hbegun (.inr ⟨rfl, (h.within j t hbegun).advance r.2 hc⟩)

/-- The engine thread sets something of a state channel. -/
theorem thresh_of_setting {c' : StateChannel} {a : ChannelAct} (ha : a.IsSetting = true)
    (hact : c.act a = some c') : c'.buf.thresh = c.buf.thresh := by
  cases a with
  | mixer f hf => cases ha
  | mixerSetStateSnd vol stereo flags =>
    obtain rfl := Option.some.inj hact
    rfl
  | mixerSetFadeTime time =>
    obtain rfl := Option.some.inj hact
    rfl

/-- **The settings.** -/
theorem Checked.setting {a : ChannelAct} (h : s.Checked fuel table) (hC : s.Spares (.setting j a))
    (ha : a.IsSetting = true) (hact : (s.channel j).act a = some c) :
    (s.change j c s.place).Checked fuel table := by
  have hthresh := thresh_of_setting ha hact
  refine ⟨h.handoff.withMixer _, fun i hi => ?_, fun i t ht => ?_⟩
  · have hbetween := h.between i hi
    rcases eq_or_ne i j with rfl | hij
    · rw [channel_change_self]
      exact hbetween.of_thresh hthresh
    · rwa [channel_change_of_ne hij]
  · have hwithin := h.within i t ht
    rcases eq_or_ne i j with rfl | hij
    · rw [channel_change_self]
      exact ⟨hwithin.ordered.of_thresh hthresh, hC (i, t) ht rfl c hact⟩
    · rwa [channel_change_of_ne hij]

/-- A step of `Handoff` leaves the state channels alone. -/
theorem states_of_step {h h' : Handoff n k} {turn : HandoffTurn}
    (hs : h.step fuel table turn = some h') : h'.mixer.states = h.mixer.states := by
  cases turn with
  | arrive ev =>
    obtain ⟨-, -, rfl⟩ := Handoff.arrive_cases hs
    rfl
  | engine next => cases Handoff.engineMove_of_step hs <;> rfl
  | mixer next => cases Handoff.mixerMove_of_step hs <;> rfl
  | tick now =>
    obtain rfl := Handoff.tick_cases hs
    rfl

/-- **What the steps preserve.** -/
theorem Checked.step (h : s.Checked fuel table) (hC : s.Spares turn)
    (hs : s.step fuel table turn = some s') : s'.Checked fuel table := by
  have hhandoff {turn : HandoffTurn} {handoff : Handoff n k} {place : Option (StateAt k)}
      (hC : s.Spares (.handoff turn)) (hstep : s.handoff.step fuel table turn = some handoff)
      (hplace : place.bind StateAt.begun? = s.begun?) : Checked fuel table ⟨handoff, place⟩ := by
    have hstates : (⟨handoff, place⟩ : Threads n k).channel = s.channel := states_of_step hstep
    refine ⟨h.handoff.step hC hstep, fun i hi => ?_, fun i t ht => ?_⟩
    · rw [hstates]
      exact h.between i (hplace ▸ hi)
    · rw [hstates]
      exact h.within i t (hplace ▸ ht)
  cases turn with
  | handoff turn =>
    cases turn with
    | mixer next =>
      rw [Threads.step] at hs
      cases hplace : s.place with
      | some p =>
        rw [hplace, Option.isSome_some, if_pos rfl] at hs
        cases hs
      | none =>
        rw [hplace, Option.isSome_none, if_neg Bool.false_ne_true] at hs
        obtain ⟨handoff, hstep, rfl⟩ := Option.map_eq_some_iff.mp hs
        refine hhandoff hC hstep ?_
        rw [begun?, hplace]
        split_ifs <;> rfl
    | arrive ev | engine next | tick now =>
      obtain ⟨handoff, hstep, rfl⟩ := Option.map_eq_some_iff.mp hs
      exact hhandoff hC hstep rfl
  | states r =>
    obtain ⟨p, hp, hs⟩ := Option.bind_eq_some_iff.mp hs
    exact h.stateStep hp hs
  | setting j a =>
    rw [Threads.step] at hs
    split_ifs at hs with hidle
    obtain ⟨c, hact, rfl⟩ := Option.map_eq_some_iff.mp hs
    exact h.setting hC hidle.2 hact

/-- **No assertion fails**, if the last channel is spared and no event selects another threshold in
the middle of an iteration: for any sounds that were loaded, and any order of the steps of the two
threads. -/
theorem along_asserts {m : Mixer n k} (hm : m.Fresh) {size : ℕ} {clock : Now}
    {turns : List (ThreadsTurn k)}
    (hC : Along (step fuel table) Spares (start m size clock) turns) :
    Along (step fuel table) (Asserts fuel table) (start m size clock) turns :=
  along_of_invariant (fun _ _ _ hI hC hs => Checked.step hI hC hs)
    (fun _ turn hI _ => Checked.asserts hI turn) (checked_start hm size clock) hC

/-! ### Events for states -/

theorem change_change (s : Threads n k) (j : Fin k) (c c' : StateChannel)
    (place place' : Option (StateAt k)) :
    (s.change j c place).change j c' place' = s.change j c' place' := by
  simp only [change, Handoff.setState, Function.update_idem]

theorem change_channel (s : Threads n k) (j : Fin k) (place : Option (StateAt k)) :
    s.change j (s.channel j) place = { s with place := place } := by
  rw [change, Handoff.setState, channel, Function.update_eq_self]

/-- **The settings** of a channel, one after the other. -/
theorem exec_settings {acts : List ChannelAct} (hidle : s.handoff.engine.Idle = true)
    (hacts : ∀ a ∈ acts, a.IsSetting = true) :
    exec (step fuel table) s (acts.map (.setting j))
      = (exec StateChannel.act (s.channel j) acts).map fun c => s.change j c s.place := by
  induction acts generalizing s with
  | nil =>
    have hself : s.change j (s.channel j) s.place = s := change_channel s j s.place
    rw [List.map_nil, exec_nil, exec_nil, Option.map_some, hself]
  | cons a acts ih =>
    have ha := hacts a List.mem_cons_self
    rw [List.map_cons, exec_cons, exec_cons, Threads.step, if_pos ⟨hidle, ha⟩, Option.bind_map,
      Option.map_bind]
    refine congrArg _ (funext fun c => ?_)
    have ih := ih (s := s.change j c s.place) hidle fun b hb => hacts b (List.mem_cons_of_mem a hb)
    rw [channel_change_self] at ih
    simp only [Function.comp_apply]
    rw [ih]
    simp only [change_change]
    rfl

theorem isSetting_of_mem_eventActs {e : Event} {a : ChannelAct} (h : a ∈ eventActs e) :
    a.IsSetting = true := by
  rw [eventActs, ditherActs, List.mem_append, List.mem_singleton] at h
  rcases h with h | rfl
  · split_ifs at h
    · obtain rfl := List.mem_singleton.mp h
      rfl
    · cases h
  · rfl

/-- **An event for a state** is its settings, one after the other. -/
theorem exec_eventActs {e : Event} {name : CString} {entry : SoundEntry SoundData}
    {m' : Mixer n k} (hidle : s.handoff.engine.Idle = true) (hname : e.sound = some name)
    (hentry : engineSoundTableRetrieve fuel table name = some (some entry))
    (h : engineIOState fuel table s.handoff.mixer e = some m') : ∃ j s',
      exec (step fuel table) s ((eventActs e).map (.setting j)) = some s' ∧
        s'.handoff.mixer.states = m'.states := by
  obtain ⟨j, -, hexec, hothers⟩ := engineIOState_exec hname hentry h
  refine ⟨j, s.change j (m'.states j) s.place, ?_, ?_⟩
  · rw [exec_settings hidle fun a => isSetting_of_mem_eventActs]
    exact congrArg _ hexec
  · funext i
    rcases eq_or_ne i j with rfl | hij
    · exact channel_change_self
    · exact (channel_change_of_ne hij).trans (hothers i hij).symm

/-! ### Iterations for a state -/

/-- The steps of the mixer thread in its loop over the state channels. -/
theorem exec_states {r : Set.Ico (0 : ℚ) 1} {rs : List (Set.Ico (0 : ℚ) 1)} {p : StateAt k}
    (hplace : s.place = some p) (hstep : s.stateStep r p = some s') :
    exec (step fuel table) s ((r :: rs).map .states)
      = exec (step fuel table) s' (rs.map .states) := by
  rw [List.map_cons, exec_cons, Threads.step, hplace, Option.bind_some, hstep, Option.bind_some]

/-- A filter without a flag. -/
theorem eq_of_filter {r : ℚ} {data x : Int16} {c c' : StateChannel} (hflag : c.buf.filterFlag = 0)
    {q : StateSnd → ℕ}
    (h : ((c.buf.stateSnd? t).bind fun s => mixerApplyStateFilters r data (q s) c) = some (x, c')) :
    c' = c := by
  obtain ⟨s, -, h⟩ := Option.bind_eq_some_iff.mp h
  rw [mixerApplyStateFilters_of_flag hflag] at h
  exact (Prod.mk.inj (Option.some.inj h)).2.symm

/-- The filters of an iteration, from the test of the flag on. -/
theorem exec_filters {j : Fin k} {f : Fractions} {sample : Int16 × Int16} {x y : Int16}
    {c₁ c₂ : StateChannel} (hf : f.Proper) (hplace : s.place = some (.testing j t sample))
    (hleft : filterLeft f.left t sample.1 (s.channel j) = some (x, c₁))
    (hright : filterRight f.right t sample.2 c₁ = some (y, c₂)) :
    ∃ rs : List (Set.Ico (0 : ℚ) 1), exec (step fuel table) s (rs.map .states)
      = some (s.change j c₂ (some (.ending j t))) := by
  by_cases hflag : (s.channel j).buf.filterFlag = 0
  · -- neither filter is called
    obtain rfl : c₁ = s.channel j := eq_of_filter hflag hleft
    obtain rfl : c₂ = s.channel j := eq_of_filter hflag hright
    have htest : s.stateStep f.left (.testing j t sample)
        = some { s with place := some (.ending j t) } := if_pos hflag
    refine ⟨[⟨f.left, hf.left⟩], ?_⟩
    rw [exec_states hplace htest, change_channel]
    rfl
  · have htest : s.stateStep f.left (.testing j t sample)
        = some { s with place := some (.left j t sample) } := if_neg hflag
    have hfilter : stateStep { s with place := some (.left j t sample) } f.left (.left j t sample)
        = some (s.change j c₁ (some (.right j t sample.2))) := by
      rw [stateStep]
      change (filterLeft f.left t sample.1 (s.channel j)).bind _ = _
      rw [hleft]
      rfl
    have hfilter' : (s.change j c₁ (some (.right j t sample.2))).stateStep f.right
        (.right j t sample.2) = some (s.change j c₂ (some (.ending j t))) := by
      rw [stateStep, channel_change_self, hright, ← change_change s j c₁ c₂]
      rfl
    refine ⟨[⟨f.left, hf.left⟩, ⟨f.left, hf.left⟩, ⟨f.right, hf.right⟩], ?_⟩
    rw [exec_states hplace htest, exec_states rfl hfilter, exec_states rfl hfilter']
    rfl

/-- **An iteration that nothing interrupts** is that of the loop. -/
theorem exec_iteration {j : ℕ} {f : Fractions} {samples : List StereoSample} (hf : f.Proper)
    (hj : j < k) (hplace : s.place = some (.scanning j))
    (h : mixStateChannel f (s.channel ⟨j, hj⟩) = some (samples, c)) :
    ∃ rs : List (Set.Ico (0 : ℚ) 1), exec (step fuel table) s (rs.map .states)
      = some (s.change ⟨j, hj⟩ c (some (.scanning (j + 1)))) := by
  rw [mixStateChannel_eq] at h
  obtain ⟨begun, hbegin, h⟩ := Option.bind_eq_some_iff.mp h
  cases begun with
  | none =>
    obtain ⟨-, rfl⟩ := Prod.mk.inj (Option.some.inj h)
    have hstep : s.stateStep f.left (.scanning j)
        = some { s with place := some (.scanning (j + 1)) } := by
      rw [stateStep, dif_pos hj, hbegin]
      rfl
    refine ⟨[⟨f.left, hf.left⟩], ?_⟩
    rw [exec_states hplace hstep, change_channel]
    rfl
  | some p =>
    obtain ⟨t, sample⟩ := p
    obtain ⟨⟨x, c₁⟩, hleft, h⟩ := Option.bind_eq_some_iff.mp h
    obtain ⟨⟨y, c₂⟩, hright, h⟩ := Option.bind_eq_some_iff.mp h
    obtain ⟨c₃, hadvance, h⟩ := Option.bind_eq_some_iff.mp h
    obtain ⟨-, rfl⟩ := Prod.mk.inj (Option.some.inj h)
    have hbegins : s.stateStep f.left (.scanning j)
        = some { s with place := some (.testing ⟨j, hj⟩ t sample) } := by
      rw [stateStep, dif_pos hj, hbegin]
      rfl
    have hends : (s.change ⟨j, hj⟩ c₂ (some (.ending ⟨j, hj⟩ t))).stateStep f.atEnd
        (.ending ⟨j, hj⟩ t) = some (s.change ⟨j, hj⟩ c₃ (some (.scanning (j + 1)))) := by
      rw [stateStep, channel_change_self, hadvance, ← change_change s ⟨j, hj⟩ c₂ c₃]
      rfl
    obtain ⟨rs, hfilters⟩ : ∃ rs : List (Set.Ico (0 : ℚ) 1), exec (step fuel table)
        { s with place := some (.testing ⟨j, hj⟩ t sample) } (rs.map .states)
          = some (s.change ⟨j, hj⟩ c₂ (some (.ending ⟨j, hj⟩ t))) :=
      exec_filters hf rfl hleft hright
    refine ⟨⟨f.left, hf.left⟩ :: (rs ++ [⟨f.atEnd, hf.atEnd⟩]), ?_⟩
    rw [exec_states hplace hbegins, List.map_append]
    exact exec_append_eq_some.mpr ⟨_, hfilters, exec_states rfl hends⟩

/-! ### One channel -/

/-- Three events for two channels; the third is taken from the queue for the first of them. -/
theorem along_asserts_threeEvents : Along (step 1 shortSound) (Asserts 1 shortSound)
    (start (mixerInit 2 1) 64 oneSecond)
      (Handoff.threeEvents.map .handoff ++ .handoff (.engine 0) ::
        List.replicate 18 (.handoff (.mixer 0)) ++ [.states ⟨0, le_rfl, zero_lt_one⟩]) :=
  along_asserts (Mixer.fresh_mixerInit 2 1) (by decide +kernel)

/-- An event plays on the only channel, and another one waits. The mixer plays the first to its
end, and is about to schedule the second. -/
def oneChannel : List HandoffTurn :=
  .arrive playShort :: List.replicate 5 (.engine 0) ++ .arrive playShort ::
    List.replicate 4 (.engine 0) ++ List.replicate 10 (.mixer 0)

/-- **The assertion of `mixerAddOldEvent` fails** on the only channel. -/
theorem not_along_asserts_oneChannel : (mixerInit 1 0).Fresh ∧
    ¬ Along (step 1 shortSound) (Asserts 1 shortSound) (start (mixerInit 1 0) 64 oneSecond)
      (oneChannel.map .handoff ++ [.handoff (.mixer 0)]) := by
  refine ⟨Mixer.fresh_mixerInit 1 0, fun h => ?_⟩
  obtain ⟨s, hs, hfails⟩ : ∃ s ∈ exec (step 1 shortSound) (start (mixerInit 1 0) 64 oneSecond)
      (oneChannel.map .handoff),
      ¬ s.handoff.MixerAsserts 1 shortSound s.handoff.player := by decide +kernel
  exact hfails (h.of_append hs).1

/-! ### Two thresholds -/

theorem fresh_silentSnd (lens : Array ℕ) : (silentSnd lens).Fresh where
  size bufs h := by
    obtain rfl := Option.some.inj h
    exact Array.size_map
  sndNo := rfl
  pos := rfl

/-- A state with two thresholds, of a segment each, and a window of four samples. -/
def twoLevels : Mixer 1 1 :=
  { mixerInit 1 1 with
    states := fun _ =>
      ⟨⟨some #[⟨0, 1 / 2, silentSnd #[8]⟩, ⟨1 / 2, 1, silentSnd #[2]⟩], 1 / 2, 0, 0⟩,
        ⟨4 / 88200, 0, 0, 0⟩⟩ }

theorem fresh_twoLevels : twoLevels.Fresh := by
  intro j t s hs
  obtain ⟨th, hth, rfl⟩ := Option.map_eq_some_iff.mp hs
  obtain ⟨ts, hts, hth⟩ := deref?_eq_some_iff.mp hth
  obtain rfl := Option.some.inj hts
  have hmem := Array.mem_of_getElem? hth
  simp only [List.mem_toArray, List.mem_cons, List.not_mem_nil, or_false] at hmem
  rcases hmem with rfl | rfl <;> exact fresh_silentSnd _

theorem zero_mem_Ico : (0 : ℚ) ∈ Set.Ico 0 1 := ⟨le_rfl, zero_lt_one⟩

theorem zero_mem_Icc : (0 : ℚ) ∈ Set.Icc 0 1 := ⟨le_rfl, zero_le_one⟩

theorem quarter_mem_Icc : (1 / 4 : ℚ) ∈ Set.Icc 0 1 := by norm_num

theorem one_mem_Icc : (1 : ℚ) ∈ Set.Icc 0 1 := ⟨zero_le_one, le_rfl⟩

/-- The volume of the state, with the flag of the fade. -/
def volume (vol : Set.Icc (0 : ℚ) 1) : ThreadsTurn 1 :=
  .setting 0 (.mixerSetStateSnd vol ⟨0, zero_mem_Icc⟩ 1)

/-- The mixer begins an iteration, the volume selects the other threshold, and the mixer goes on
to the beginning of the next iteration. -/
def otherThreshold : List (ThreadsTurn 1) :=
  volume ⟨1 / 4, quarter_mem_Icc⟩ :: List.replicate 2 (.handoff (.mixer 0)) ++
    .states ⟨0, zero_mem_Ico⟩ :: volume ⟨1, one_mem_Icc⟩ ::
    List.replicate 5 (.states ⟨0, zero_mem_Ico⟩) ++ List.replicate 2 (.handoff (.mixer 0))

/-- **The assertion about the position fails** where a fade has ended with another threshold than
the iteration began with. -/
theorem not_along_asserts_twoLevels : twoLevels.Fresh ∧
    ¬ Along (step 1 shortSound) (Asserts 1 shortSound) (start twoLevels 64 oneSecond)
      (otherThreshold ++ [.states ⟨0, zero_mem_Ico⟩]) := by
  refine ⟨fresh_twoLevels, fun h => ?_⟩
  obtain ⟨s, hs, hplace, hvol, hptr, x, hx, hpos, hsnd, hover⟩ :
      ∃ s ∈ exec (step 1 shortSound) (start twoLevels 64 oneSecond) otherThreshold,
        s.place = some (.scanning 0) ∧ (s.channel 0).buf.vol ≠ 0 ∧
        (s.channel 0).buf.mixerGetStateSndPtr = some 1 ∧ ∃ x ∈ (s.channel 0).buf.stateSnd? 1,
          0 < x.sndCnt ∧ deref? x.sndBuf x.sndNo ≠ some none ∧
          ∀ len ∈ x.len[x.sndNo]?, len ≠ 0 ∧ len ≤ x.pos := by decide +kernel
  have hasserts := (h.of_append hs).1 0 hplace Nat.one_pos hvol 1 x hptr hx hpos hsnd
  obtain ⟨-, len, hlen, hlt⟩ := hasserts.pos
  obtain ⟨hne, hle⟩ := hover len hlen
  exact hlt.elim hne hle.not_gt

end Threads

end Peep
