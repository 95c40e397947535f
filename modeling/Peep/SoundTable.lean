import Peep.Event
import Peep.Library.Chained
import Peep.Library.StepSystem
import Mathlib.Order.Basic

/-!
# The engine's sound table

`engine.c`: a hash table from the names of sounds to their entries. `engineSoundHash` adds up the
characters of a name, and the entries of one hash are chained. Names are compared with
`strcasecmp`, so the table is meant as a finite map keyed by the name up to case.

The code departs from the map in four ways. The sum of the characters, which are signed, may be
negative, and then so is the index. Two names that differ in case only have different hashes.
The loop of `engineSoundTableInsert` stops *at* the last entry of a chain and does not look at its
name. The loop of `engineSoundTableRetrieve` has `p ->next` where it should have `p = p->next`: it
looks at the first entry of a chain for ever.

## Choices

`char` is signed and the sum wraps. What an entry's `data` points to is left to the table's user.
`none` is an access outside `sound_table`, or a loop that did not end within its fuel.

## Main results

* `engineSoundTableRetrieve_eq_some_iff` — the names for which a lookup returns
* `SoundTableRun.refinesMap_iff` — the runs in which the table does what the map does
-/

namespace Peep

open Chained StepSystem

variable {β : Type}

/-- `struct sound_entry`, without the link to the next one. -/
structure SoundEntry (β : Type) where
  /-- Name of the sound to look up. -/
  name : CString
  /-- Type of the event stored: `EVENT_T` or `STATE_T`. -/
  type : UInt8
  /-- What the entry stores. -/
  data : β

/-- `HASHES`. -/
def HASHES : ℕ := 256

/-- `tolower`, in the C locale. -/
def toLower (c : UInt8) : UInt8 := if 65 ≤ c ∧ c ≤ 90 then c + 32 else c

/-- A name up to case. -/
def foldCase (name : CString) : CString := name.map toLower

/-- `strcasecmp`. -/
def strcasecmp (a b : CString) : Ordering := compare (foldCase a) (foldCase b)

@[simp] theorem strcasecmp_eq {a b : CString} : strcasecmp a b = .eq ↔ foldCase a = foldCase b :=
  Std.compare_eq_iff_eq

/-- `engineSoundHash`: `char` is signed, and so is the remainder. -/
def engineSoundHash (name : CString) : Int32 :=
  name.foldl (fun count p => count + p.toInt8.toInt32) 0 % 256

/-- `sound_table`: the entries of each hash, in the order of their links. -/
abbrev SoundTable (β : Type) := Table (Fin HASHES) (SoundEntry β)

/-- The place of `sound_table[index]` in the array. -/
def bucket? (index : Int32) : Option (Fin HASHES) :=
  if h : 0 ≤ index.toInt ∧ index.toInt.toNat < HASHES then some ⟨index.toInt.toNat, h.2⟩ else none

/-- What `engineSoundTableInsert` returns. -/
inductive EngineStatus
  /-- `ENGINE_SUCCESS`. -/
  | success
  /-- `ENGINE_SOUND_EXISTS`. -/
  | soundExists
  deriving DecidableEq

/-- The loop of `engineSoundTableInsert`: it leaves with `ENGINE_SOUND_EXISTS`, or at the entry
that has no `next`. -/
def insertLoop (name : CString) : List (SoundEntry β) → Bool
  | p :: next :: rest => strcasecmp p.name name == .eq || insertLoop name (next :: rest)
  | _ => false

/-- `engineSoundTableInsert`. -/
def engineSoundTableInsert (t : SoundTable β) (entry : SoundEntry β) :
    Option (EngineStatus × SoundTable β) := do
  let index ← bucket? (engineSoundHash entry.name)
  if insertLoop entry.name (t index) then some (.soundExists, t)
  else some (.success, Chained.append t index entry)

/-- The loop of `engineSoundTableRetrieve`, in which `p ->next` leaves `p` as it is. -/
def retrieveLoop (name : CString) : ℕ → List (SoundEntry β) → Option (Option (SoundEntry β))
  | 0, _ => none
  | _ + 1, [] => some none
  | fuel + 1, p :: rest =>
    if strcasecmp p.name name = .eq then some (some p) else retrieveLoop name fuel (p :: rest)

/-- `engineSoundTableRetrieve`; the inner `none` is `NULL`. -/
def engineSoundTableRetrieve (fuel : ℕ) (t : SoundTable β) (name : CString) :
    Option (Option (SoundEntry β)) := do
  let index ← bucket? (engineSoundHash name)
  retrieveLoop name fuel (t index)

/-! ## What the loops do -/

theorem insertLoop_iff {name : CString} : ∀ {chain : List (SoundEntry β)},
    insertLoop name chain = true ↔ ∃ p ∈ chain.dropLast, foldCase p.name = foldCase name
  | [] => by simp [insertLoop]
  | [_] => by simp [insertLoop]
  | p :: next :: rest => by
    rw [insertLoop, Bool.or_eq_true, beq_iff_eq, strcasecmp_eq, insertLoop_iff,
      List.dropLast_cons_cons, List.exists_mem_cons_iff]

/-- The lookup ends where a chain is empty or begins with the name, and nowhere else. -/
theorem retrieveLoop_eq_some_iff {name : CString} {fuel : ℕ} {chain : List (SoundEntry β)}
    {r : Option (SoundEntry β)} : retrieveLoop name fuel chain = some r ↔
      0 < fuel ∧ r = chain.head? ∧ ∀ p, chain.head? = some p → foldCase p.name = foldCase name := by
  induction fuel with
  | zero => simp [retrieveLoop]
  | succ fuel ih =>
    rcases chain with _ | ⟨p, rest⟩
    · simp [retrieveLoop, eq_comm]
    · rw [retrieveLoop]
      by_cases hp : foldCase p.name = foldCase name
      · rw [if_pos (strcasecmp_eq.mpr hp)]
        simp [hp, eq_comm]
      · rw [if_neg (mt strcasecmp_eq.mp hp), ih]
        simp [hp]

/-- **When a lookup returns.** It finds the first entry of the chain or an empty chain. -/
theorem engineSoundTableRetrieve_eq_some_iff {t : SoundTable β} {name : CString} {fuel : ℕ}
    {r : Option (SoundEntry β)} : engineSoundTableRetrieve fuel t name = some r ↔
      ∃ i, bucket? (engineSoundHash name) = some i ∧ 0 < fuel ∧ r = (t i).head? ∧
        ∀ p, (t i).head? = some p → foldCase p.name = foldCase name := by
  simp only [engineSoundTableRetrieve, Option.bind_eq_bind, Option.bind_eq_some_iff,
    retrieveLoop_eq_some_iff]

/-! ## The map

What the table is for: a partial map from names up to case to entries. -/

/-- A finite map from names up to case. -/
abbrev SoundMap (β : Type) := CString → Option (SoundEntry β)

/-- An insert into the map, which refuses a name that it has. -/
def SoundMap.insert (m : SoundMap β) (entry : SoundEntry β) : EngineStatus × SoundMap β :=
  if (m (foldCase entry.name)).isSome then (.soundExists, m)
  else (.success, Function.update m (foldCase entry.name) (some entry))

/-- The table represents the map. -/
def SoundTable.Represents (t : SoundTable β) (m : SoundMap β) : Prop :=
  Chained.Represents (fun e : SoundEntry β => foldCase e.name) t m

/-- A name equal up to case is in the table. -/
def SoundTable.Contains (t : SoundTable β) (name : CString) : Prop :=
  ∃ p, Holds t p ∧ foldCase p.name = foldCase name

theorem SoundTable.Represents.contains_iff {t : SoundTable β} {m : SoundMap β} {name : CString}
    (h : t.Represents m) : t.Contains name ↔ (m (foldCase name)).isSome := by
  rw [Option.isSome_iff_exists]
  exact exists_congr fun p => (h _ p).symm

/-! ## Runs -/

/-- A call of one of the two operations. -/
inductive SoundTableCall (β : Type)
  /-- `engineSoundTableInsert (entry)`. -/
  | insert (entry : SoundEntry β)
  /-- `engineSoundTableRetrieve (name)`. -/
  | retrieve (name : CString)

/-- The table of the code, and the map in its place. -/
structure SoundTableRun (β : Type) where
  /-- `sound_table`. -/
  table : SoundTable β
  /-- The entries inserted, by name. -/
  inserted : SoundMap β

namespace SoundTableRun

/-- A run starts with the table that `engineInitSoundTable` allocates. -/
def start : SoundTableRun β := ⟨Chained.empty, fun _ => none⟩

/-- One call. A lookup changes nothing. -/
def step (r : SoundTableRun β) : SoundTableCall β → Option (SoundTableRun β)
  | .insert entry => (engineSoundTableInsert r.table entry).map fun p =>
      ⟨p.2, (r.inserted.insert entry).2⟩
  | .retrieve _ => some r

/-- What the map law asks of a call. An insert returns what the map returns, leaves the table
alone if the name exists, and represents the map afterwards; a lookup returns what the map has. -/
def RefinesMap (r : SoundTableRun β) : SoundTableCall β → Prop
  | .insert entry => ∃ status t, engineSoundTableInsert r.table entry = some (status, t) ∧
      status = (r.inserted.insert entry).1 ∧ (status = .soundExists → t = r.table) ∧
      t.Represents (r.inserted.insert entry).2
  | .retrieve name =>
      ∃ fuel, engineSoundTableRetrieve fuel r.table name = some (r.inserted (foldCase name))

/-- The condition on the calls. The hash is not negative; a name that is inserted either is not in
the table or stands in its own chain, though not as the last; a name that is looked up either
stands first in its own chain, or it is not in the table and its chain is empty. -/
def WellPlaced (r : SoundTableRun β) : SoundTableCall β → Prop
  | .insert entry => ∃ i, bucket? (engineSoundHash entry.name) = some i ∧
      (¬ r.table.Contains entry.name ∨
        ∃ p ∈ (r.table i).dropLast, strcasecmp p.name entry.name = .eq)
  | .retrieve name => ∃ i, bucket? (engineSoundHash name) = some i ∧
      (r.table i = [] ∧ ¬ r.table.Contains name ∨
        ∃ p, (r.table i).head? = some p ∧ strcasecmp p.name name = .eq)

variable {r r' : SoundTableRun β} {c : SoundTableCall β}

theorem refinesMap_insert_iff (h : r.table.Represents r.inserted) {entry : SoundEntry β} :
    r.RefinesMap (.insert entry) ↔ r.WellPlaced (.insert entry) := by
  have hchain : ∀ {i}, insertLoop entry.name (r.table i) = true → r.table.Contains entry.name := by
    intro i hl
    obtain ⟨p, hp, he⟩ := insertLoop_iff.mp hl
    exact ⟨p, ⟨i, List.dropLast_subset _ hp⟩, he⟩
  simp only [RefinesMap, WellPlaced, strcasecmp_eq, ← insertLoop_iff, h.contains_iff]
  constructor
  · rintro ⟨status, t, heq, hstatus, -, -⟩
    obtain ⟨i, hi, heq⟩ := Option.bind_eq_some_iff.mp heq
    refine ⟨i, hi, ?_⟩
    rw [or_iff_not_imp_left, not_not]
    intro hin
    by_contra hl
    obtain ⟨rfl, rfl⟩ : .success = status ∧ Chained.append r.table i entry = t := by
      simpa [hl] using heq
    rw [SoundMap.insert, if_pos hin] at hstatus
    cases hstatus
  · rintro ⟨i, hi, hcase⟩
    cases hl : insertLoop entry.name (r.table i) with
    | true =>
      have hin := h.contains_iff.mp (hchain hl)
      refine ⟨.soundExists, r.table, ?_, ?_, fun _ => rfl, ?_⟩
      · simp [engineSoundTableInsert, hi, hl]
      · rw [SoundMap.insert, if_pos hin]
      · rwa [SoundMap.insert, if_pos hin]
    | false =>
      have hnot : ¬ (r.inserted (foldCase entry.name)).isSome = true :=
        hcase.resolve_right (by simp [hl])
      refine ⟨.success, Chained.append r.table i entry, ?_, ?_, nofun, ?_⟩
      · simp [engineSoundTableInsert, hi, hl]
      · rw [SoundMap.insert, if_neg hnot]
      · rw [SoundMap.insert, if_neg hnot]
        exact Represents.append h i (by simpa using hnot)

theorem refinesMap_retrieve_iff (h : r.table.Represents r.inserted) {name : CString} :
    r.RefinesMap (.retrieve name) ↔ r.WellPlaced (.retrieve name) := by
  simp only [RefinesMap, WellPlaced, strcasecmp_eq, engineSoundTableRetrieve_eq_some_iff,
    h.contains_iff]
  constructor
  · rintro ⟨fuel, i, hi, -, heq, hhead⟩
    refine ⟨i, hi, ?_⟩
    cases hc : (r.table i).head? with
    | none => exact .inl ⟨List.head?_eq_none_iff.mp hc, by simp [heq, hc]⟩
    | some p => exact .inr ⟨p, rfl, hhead p hc⟩
  · rintro ⟨i, hi, ⟨hnil, hnone⟩ | ⟨p, hp, he⟩⟩
    · exact ⟨1, i, hi, Nat.one_pos, by simpa [hnil] using hnone, by simp [hnil]⟩
    · refine ⟨1, i, hi, Nat.one_pos, ?_, ?_⟩
      · rw [hp, ← he]
        exact h.eq_some ⟨i, List.mem_of_mem_head? hp⟩
      · rintro q hq
        obtain rfl : p = q := Option.some.inj (hp.symm.trans hq)
        exact he

theorem represents_step (h : r.table.Represents r.inserted) (hc : r.WellPlaced c)
    (hr : r.step c = some r') : r'.table.Represents r'.inserted := by
  cases c with
  | insert entry =>
    obtain ⟨status, t, heq, -, -, hrep⟩ := (refinesMap_insert_iff h).mpr hc
    obtain rfl : ⟨t, (r.inserted.insert entry).2⟩ = r' := by simpa [step, heq] using hr
    exact hrep
  | retrieve name =>
    obtain rfl : r = r' := by simpa [step] using hr
    exact h

/-- **When the table is a map.** The table does what the map does in a run of inserts and lookups
exactly if the names are well placed at every call. -/
theorem refinesMap_iff (calls : List (SoundTableCall β)) :
    Along step RefinesMap start calls ↔ Along step WellPlaced start calls := by
  refine along_iff_of_invariant (I := fun r : SoundTableRun β => r.table.Represents r.inserted)
    (fun _ _ _ hI hC hs => represents_step hI hC hs) (fun r c hI => ?_) (represents_empty _)
  cases c with
  | insert entry => exact refinesMap_insert_iff hI
  | retrieve name => exact refinesMap_retrieve_iff hI

/-- An event sound called `a`. -/
def soundA : SoundEntry Unit := ⟨[97], EVENT_T, ()⟩

/-- **The last entry of a chain is not looked at.** A name that is inserted twice is in the table
twice, and the second insert succeeds too. -/
theorem not_refinesMap_insert_twice :
    ¬ Along step RefinesMap start [.insert soundA, .insert soundA] := by
  intro h
  obtain ⟨status, t, heq, hstatus, -, -⟩ := ((along_cons_of_eq rfl).mp h).2.1
  have hsuccess : some EngineStatus.success = some status := congrArg (Option.map Prod.fst) heq
  cases hsuccess
  exact absurd hstatus (by decide)

end SoundTableRun

end Peep
