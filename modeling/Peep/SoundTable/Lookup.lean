import Peep.SoundTable
import Mathlib.Data.List.Nodup

/-!
# Whether a lookup ends

A name comes in with an event from the network, and `engineLoop` (`main.c`) looks it up in the sound
table before anything else. The loop of `engineSoundTableRetrieve` is meant to visit the entries of
one chain, one after the other. Its last part is the expression `p ->next`, whose value is dropped,
so `p` stays at the first entry.

## Choices

What is visited is a place in the chain, so that two visits of one entry are told apart from visits
of two entries that are equal.

## Main results

* `retrieveVisits_of_ne` — a first entry with another name is visited for ever
* `lookupEnds_iff` — the names for which a lookup ends
-/

namespace Peep

open StepSystem

variable {β : Type}

/-- The places of the chain that the loop of `engineSoundTableRetrieve` visits, from `place` on, in
as many rounds as there is fuel for. The place does not change from one round to the next. -/
def retrieveVisits (name : CString) (chain : List (SoundEntry β)) : ℕ → ℕ → List ℕ
  | 0, _ => []
  | fuel + 1, place =>
    match chain[place]? with
    | none => []
    | some p =>
      if strcasecmp p.name name = .eq then [place]
      else place :: retrieveVisits name chain fuel place

/-- What is asked of a lookup: it stays inside `sound_table`, it ends, and it visits each entry of
the chain at most once. -/
def LookupEnds (t : SoundTable β) (name : CString) : Prop :=
  ∃ i fuel r, bucket? (engineSoundHash name) = some i ∧
    engineSoundTableRetrieve fuel t name = some r ∧
    (retrieveVisits name (t i) fuel 0).Nodup

variable {name : CString} {chain : List (SoundEntry β)} {t : SoundTable β}

/-- **A first entry with another name is visited for ever**: however much fuel there is, the loop
neither ends nor gets to another place. -/
theorem retrieveVisits_of_ne {p : SoundEntry β} (hp : chain.head? = some p)
    (hne : strcasecmp p.name name ≠ .eq) (fuel : ℕ) :
    retrieveLoop name fuel chain = none ∧
      retrieveVisits name chain fuel 0 = List.replicate fuel 0 := by
  obtain ⟨rest, rfl⟩ := List.head?_eq_some_iff.mp hp
  induction fuel with
  | zero => exact ⟨rfl, rfl⟩
  | succ fuel ih =>
    constructor
    · rw [retrieveLoop, if_neg hne]
      exact ih.1
    · rw [List.replicate_succ, ← ih.2]
      exact if_neg hne

/-- A loop that ends has made a single visit, or none. -/
theorem nodup_retrieveVisits {fuel : ℕ} {r : Option (SoundEntry β)}
    (h : retrieveLoop name fuel chain = some r) : (retrieveVisits name chain fuel 0).Nodup := by
  obtain ⟨hfuel, -, hhead⟩ := retrieveLoop_eq_some_iff.mp h
  obtain ⟨fuel, rfl⟩ := Nat.exists_eq_succ_of_ne_zero hfuel.ne'
  rcases chain with _ | ⟨p, rest⟩
  · exact List.nodup_nil
  · have hp : strcasecmp p.name name = .eq := strcasecmp_eq.mpr (hhead p rfl)
    have hvisits : retrieveVisits name (p :: rest) (fuel + 1) 0 = [0] := if_pos hp
    rw [hvisits]
    exact List.nodup_singleton 0

/-- **When a lookup ends.** The hash of the name is an index of the table, and the chain there is
empty or begins with an entry of that name. -/
theorem lookupEnds_iff : LookupEnds t name ↔ ∃ i, bucket? (engineSoundHash name) = some i ∧
    ∀ p, (t i).head? = some p → strcasecmp p.name name = .eq := by
  simp only [strcasecmp_eq]
  constructor
  · rintro ⟨i, fuel, r, hi, hr, -⟩
    obtain ⟨j, hj, -, -, hhead⟩ := engineSoundTableRetrieve_eq_some_iff.mp hr
    obtain rfl : i = j := Option.some.inj (hi.symm.trans hj)
    exact ⟨i, hi, hhead⟩
  · rintro ⟨i, hi, hhead⟩
    have hr : engineSoundTableRetrieve 1 t name = some (t i).head? :=
      engineSoundTableRetrieve_eq_some_iff.mpr ⟨i, hi, Nat.one_pos, rfl, hhead⟩
    have hloop : retrieveLoop name 1 (t i) = some (t i).head? :=
      retrieveLoop_eq_some_iff.mpr ⟨Nat.one_pos, rfl, hhead⟩
    exact ⟨i, 1, _, hi, hr, nodup_retrieveVisits hloop⟩

/-- With the sound `a` in the table, a lookup of `01`, which has the same hash, does not end. -/
theorem not_forall_lookupEnds :
    ¬ ∀ (calls : List (SoundTableCall Unit)) (r : SoundTableRun Unit),
      exec SoundTableRun.step SoundTableRun.start calls = some r →
      ∀ name, LookupEnds r.table name := by
  intro h
  obtain ⟨i, fuel, r, hi, hr, -⟩ := h [.insert SoundTableRun.soundA] _ rfl [48, 49]
  obtain ⟨j, hj, -, -, hhead⟩ := engineSoundTableRetrieve_eq_some_iff.mp hr
  obtain rfl : (⟨97, by decide⟩ : Fin HASHES) = j := Option.some.inj (Eq.trans (by decide) hj)
  exact absurd (hhead SoundTableRun.soundA rfl) (by decide)

end Peep
