import Peep.Handoff

/-!
# The search for a channel

`engineIO` (`engine.c`) looks for a channel with a loop over the scheduler table: "try to pick a
channel c that's idle, otherwise, interrupt lowest priority snd". It goes around the table from
`lastc` and leaves the loop at the first channel that is idle. To remember the best of the others it
has `bestc`, which is `-1` before the loop; but the two assignments for them are made only under the
condition `bestc == 0`. Where they are reached, `bestc` is still `-1`, and stays so.

The search is for a table that does not change while it goes on. `exec_search` says that it is what
the steps of the engine thread come to when nobody else takes one.

## Main results

* `Handoff.exec_search` — the steps of the engine thread
* `Handoff.selectsBest_iff` — the tables for which the search selects the channel it is meant to
-/

namespace Peep

open StepSystem

variable {n k : ℕ}

namespace Handoff

/-- The channels in the order of the search: once around the table from `lastc`. -/
def channels (n lastc : ℕ) : List (Fin n) := List.ofFn fun ind : Fin n => channel lastc ind ind.2

/-- The loop of `engineIO` over these channels, with `bestc` before and after. -/
def search (sched : Fin n → EngineSched) : List (Fin n) → Option (Fin n) → Option (Fin n)
  | [], bestc => bestc
  | c :: cs, bestc =>
    if (sched c).startt = 0 then some c else search sched cs (nextBest sched c bestc)

/-- `bestc` after the loop; `none` is `-1`. -/
def bestChannel (sched : Fin n → EngineSched) (lastc : ℕ) : Option (Fin n) :=
  search sched (channels n lastc) none

/-- The channel is the first idle one in the order of the search. -/
def FirstIdle (sched : Fin n → EngineSched) (lastc : ℕ) (c : Fin n) : Prop :=
  (sched c).startt = 0 ∧ ∃ ind, ∃ h : ind < n, channel lastc ind h = c ∧
    ∀ before, ∀ hb : before < ind, (sched (channel lastc before (hb.trans h))).startt ≠ 0

/-- No sound has a lower priority than that of the channel, which is a larger number, and of those
with the same priority none has started earlier. -/
def LowestPriority (sched : Fin n → EngineSched) (c : Fin n) : Prop :=
  ∀ c', (sched c').priorit ≤ (sched c).priorit ∧
    ((sched c').priorit = (sched c).priorit → (sched c).startt ≤ (sched c').startt)

/-- What the search is for: the first idle channel if there is one, and otherwise the one whose
sound is to be interrupted. -/
def SelectsBest (sched : Fin n → EngineSched) (lastc : ℕ) : Prop :=
  ((∃ c, (sched c).startt = 0) → ∃ c, bestChannel sched lastc = some c ∧ FirstIdle sched lastc c) ∧
    ((∀ c, (sched c).startt ≠ 0) → ∃ c, bestChannel sched lastc = some c ∧ LowestPriority sched c)

variable {sched : Fin n → EngineSched} {lastc : ℕ} {c : Fin n}

/-! ## The order of the search -/

@[simp] theorem length_channels (n lastc : ℕ) : (channels n lastc).length = n := List.length_ofFn

theorem getElem_channels {ind : ℕ} (h : ind < (channels n lastc).length) :
    (channels n lastc)[ind] = channel lastc ind (by simpa using h) := List.getElem_ofFn h

/-- **The search comes to every channel.** -/
theorem exists_channel_eq (lastc : ℕ) (c : Fin n) :
    ∃ ind, ∃ h : ind < n, channel lastc ind h = c := by
  have hn : 0 < n := c.pos
  refine ⟨(c + (n - lastc % n)) % n, Nat.mod_lt _ hn, Fin.ext ?_⟩
  have hlt := Nat.mod_lt lastc hn
  have hdiv := Nat.div_add_mod lastc n
  show (lastc + (c + (n - lastc % n)) % n) % n = c
  calc (lastc + (c + (n - lastc % n)) % n) % n
      = (lastc + (c + (n - lastc % n))) % n := Nat.add_mod_mod ..
    _ = (c + n * (lastc / n + 1)) % n := by
        congr 1
        rw [Nat.mul_add]
        omega
    _ = c := by rw [Nat.add_mul_mod_self_left, Nat.mod_eq_of_lt c.2]

theorem mem_channels (lastc : ℕ) (c : Fin n) : c ∈ channels n lastc := by
  obtain ⟨ind, h, rfl⟩ := exists_channel_eq lastc c
  have hlength : ind < (channels n lastc).length := by rwa [length_channels]
  rw [← getElem_channels hlength]
  exact List.getElem_mem hlength

/-! ## What the search finds -/

/-- **The search finds idle channels only.** -/
theorem search_none (sched : Fin n → EngineSched) (cs : List (Fin n)) :
    search sched cs none = cs.find? fun c => (sched c).startt = 0 := by
  induction cs with
  | nil => rfl
  | cons c cs ih =>
    rw [search, List.find?_cons]
    split_ifs with hidle
    · rw [decide_eq_true hidle]
    · rw [decide_eq_false hidle]
      exact ih

theorem firstIdle_of_eq_some (h : bestChannel sched lastc = some c) : FirstIdle sched lastc c := by
  rw [bestChannel, search_none, List.find?_eq_some_iff_getElem] at h
  obtain ⟨hidle, ind, hind, hc, hbefore⟩ := h
  rw [getElem_channels] at hc
  have hlt : ind < n := by simpa using hind
  refine ⟨of_decide_eq_true hidle, ind, hlt, hc, fun before hb => ?_⟩
  have hnot := hbefore before hb
  rw [getElem_channels] at hnot
  simpa using hnot

theorem bestChannel_eq_none_iff :
    bestChannel sched lastc = none ↔ ∀ c, (sched c).startt ≠ 0 := by
  rw [bestChannel, search_none, List.find?_eq_none]
  constructor
  · intro h c
    simpa using h c (mem_channels lastc c)
  · intro h c _
    simpa using h c

/-- **When the search selects the channel it is meant to**: if there is an idle channel. A sound is
never selected for its priority. -/
theorem selectsBest_iff : SelectsBest sched lastc ↔ ∃ c, (sched c).startt = 0 := by
  constructor
  · intro h
    by_contra hnone
    have hbusy : ∀ c, (sched c).startt ≠ 0 := not_exists.mp hnone
    obtain ⟨c, hc, -⟩ := h.2 hbusy
    rw [bestChannel_eq_none_iff.mpr hbusy] at hc
    cases hc
  · rintro ⟨c, hc⟩
    refine ⟨fun _ => ?_, fun hbusy => absurd hc (hbusy c)⟩
    cases hbest : bestChannel sched lastc with
    | none => exact absurd hc (bestChannel_eq_none_iff.mp hbest c)
    | some b => exact ⟨b, rfl, firstIdle_of_eq_some hbest⟩

/-- Two channels that are both busy, and whose sounds differ in their priorities. -/
def twoBusy : Fin 2 → EngineSched := fun c => ⟨(c : ℕ) + 1, 255 * c, 0⟩

/-- **No sound is interrupted.** The search ends with `-1`, and the sound of the lowest priority
plays on. -/
theorem not_selectsBest_twoBusy : ¬ SelectsBest twoBusy 0 := by
  intro h
  have hbusy : ∀ c, (twoBusy c).startt ≠ 0 := fun c => Nat.cast_add_one_ne_zero (c : ℕ)
  obtain ⟨c, hc, -⟩ := h.2 hbusy
  rw [bestChannel_eq_none_iff.mpr hbusy] at hc
  cases hc

/-! ## The steps of the engine thread -/

section Steps

variable {fuel : ℕ} {table : SoundTable SoundData} {s : Handoff n k} {ev : Event}

/-- The state behind the loop. -/
def found (s : Handoff n k) (ev : Event) (bestc : Option (Fin n)) : Handoff n k :=
  { s with
    engine := bestc.elim (.asking ev) (.chosen ev)
    lastc := bestc.elim s.lastc fun c => (c + 1) % n }

theorem drop_channels {ind : ℕ} (h : ind < n) : (channels n lastc).drop ind
    = channel lastc ind h :: (channels n lastc).drop (ind + 1) := by
  have hlength : ind < (channels n lastc).length := by rwa [length_channels]
  rw [List.drop_eq_getElem_cons hlength, getElem_channels]

theorem exec_search_drop {ind m : ℕ} {bestc : Option (Fin n)} (hm : ind + m = n)
    (h : s.engine = .scanning ev ind bestc) :
    ∃ steps, exec (step fuel table) s (List.replicate steps (.engine 0))
      = some (s.found ev (search s.sched ((channels n s.lastc).drop ind) bestc)) := by
  induction m generalizing s ind bestc with
  | zero =>
    have hdrop : (channels n s.lastc).drop ind = [] :=
      List.drop_eq_nil_of_le (by rw [length_channels]; omega)
    refine ⟨1, ?_⟩
    rw [hdrop, List.replicate_one, exec_cons]
    have hstep : step fuel table s (.engine 0) = some (s.found ev bestc) := by
      simp only [step, engineStep, h, dif_neg (show ¬ ind < n by omega)]
      cases bestc <;> rfl
    rw [hstep]
    rfl
  | succ m ih =>
    have hlt : ind < n := by omega
    rw [drop_channels hlt, search]
    split_ifs with hidle
    · refine ⟨1, ?_⟩
      have hstep : step fuel table s (.engine 0)
          = some (s.found ev (some (channel s.lastc ind hlt))) := by
        simp only [step, engineStep, h, dif_pos hlt, if_pos hidle]
        rfl
      rw [List.replicate_one, exec_cons, hstep]
      rfl
    · have hstep : step fuel table s (.engine 0) = some { s with
          engine :=
            .scanning ev (ind + 1) (nextBest s.sched (channel s.lastc ind hlt) bestc) } := by
        simp only [step, engineStep, h, dif_pos hlt, if_neg hidle]
      obtain ⟨steps, hsteps⟩ := ih (by omega) (s := { s with
        engine := .scanning ev (ind + 1) (nextBest s.sched (channel s.lastc ind hlt) bestc) }) rfl
      refine ⟨steps + 1, ?_⟩
      rw [List.replicate_succ, exec_cons, hstep]
      exact hsteps

/-- **The engine thread searches** in this way, if it is not interrupted. -/
theorem exec_search (h : s.engine = .scanning ev 0 none) :
    ∃ steps, exec (step fuel table) s (List.replicate steps (.engine 0))
      = some (s.found ev (bestChannel s.sched s.lastc)) :=
  exec_search_drop (Nat.zero_add n) h

end Steps

end Handoff

end Peep
