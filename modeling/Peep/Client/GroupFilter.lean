import Mathlib.Data.List.DropRight
import Mathlib.Data.List.SplitBy
import Peep.Event
import Peep.Library.Decimal

/-!
# The filter for groups

A client is told which groups of events it is to look for, and which ones it is not to look for.
Each of the two options is a string with commas or a list. `getGroups` and `getExcluded` make lists
of them when they are called first, and keep these. `filter` accepts an event by its group, and by
the hosts of which it may be an event.

If no group is asked for then there is none among which the group of an event is found. So nothing
is accepted.

## Choices

The hosts in a pool are those of which the pool says so.

## Main results

* `filter_eq_true_iff` — which events are accepted
* `filtersByGroup_iff` — when that is what it should be
-/

namespace Peep

open Decimal

/-! ## Lists of groups -/

/-- The value of an option. -/
inductive Setting
  /-- A string, or nothing, which is the empty string here. -/
  | string (s : CString)
  /-- A reference to an array. -/
  | array (l : List CString)

/-- `split /,/`: fields at the end that are empty are left out. -/
def splitCommas (s : CString) : List CString := (s.splitOn 44).rdropWhile List.isEmpty

/-- The groups of an option, which need not exist. -/
def groupsOf : Option Setting → List CString
  | none => splitCommas []
  | some (.string s) => splitCommas s
  | some (.array l) => l

/-- A list that is worked out when it is asked for, and kept then. -/
def Memo (l : List CString) : Type := { kept : Option (List CString) // ∀ l' ∈ kept, l' = l }

theorem memo_full (l : List CString) : ∀ l' ∈ some l, l' = l :=
  fun _ h => (Option.some.inj h).symm

theorem memo_empty (l : List CString) : ∀ l' ∈ (none : Option (List CString)), l' = l :=
  fun _ h => nomatch h

/-- Nothing is kept yet. -/
def Memo.empty (l : List CString) : Memo l := ⟨none, memo_empty l⟩

/-- The list, and what is kept then. -/
def Memo.get {l : List CString} (memo : Memo l) : List CString × Memo l :=
  match memo.1 with
  | some kept => (kept, memo)
  | none => (l, ⟨some l, memo_full l⟩)

theorem Memo.get_fst {l : List CString} (memo : Memo l) : memo.get.1 = l := by
  obtain ⟨- | kept, h⟩ := memo
  · rfl
  · exact h kept rfl

/-! ## The filter -/

/-- What `filter` needs of a client. -/
structure GroupClient where
  /-- The option `groups`. -/
  groups : Option Setting
  /-- The option `exclude`. -/
  exclude : Option Setting
  /-- `GROUPS`. -/
  GROUPS : Memo (groupsOf groups)
  /-- `EXCLUDED`. -/
  EXCLUDED : Memo (groupsOf exclude)

/-- A client that has not been asked yet. -/
def GroupClient.new (groups exclude : Option Setting) : GroupClient where
  groups := groups
  exclude := exclude
  GROUPS := .empty _
  EXCLUDED := .empty _

/-- `getGroups`. -/
def GroupClient.getGroups (client : GroupClient) : List CString × GroupClient :=
  (client.GROUPS.get.1, { client with GROUPS := client.GROUPS.get.2 })

/-- `getExcluded`. -/
def GroupClient.getExcluded (client : GroupClient) : List CString × GroupClient :=
  (client.EXCLUDED.get.1, { client with EXCLUDED := client.EXCLUDED.get.2 })

/-- What `filter` looks at in an event. -/
structure FilteredEvent where
  /-- `group`. -/
  group : CString
  /-- `pool`, if the hosts are restricted. -/
  pool : Option (CString → Bool)

/-- `/^all$/`, which matches in front of a newline as well. -/
def matchesAll (s : CString) : Bool := s = ascii "all" || s = ascii "all\n"

/-- `filter`, on this host. -/
def GroupClient.filter (HOSTNAME : CString) (client : GroupClient) (event : FilteredEvent)
    (nogrp : Bool) : Bool × GroupClient :=
  let (accepted, client) :=
    if nogrp then (true, client)
    else
      let (groups, client) := client.getGroups
      let (exclude, client) := client.getExcluded
      let found := groups.any matchesAll || groups.any fun option => event.group = option
      (found && !exclude.any fun option => event.group = option, client)
  match event.pool with
  | none => (accepted, client)
  | some isInHostPool => (accepted && isInHostPool HOSTNAME, client)

/-- What is asked of the filter: if no group is asked for, or all, or that of the event, and it is
not excluded, then the event is accepted. -/
def FiltersByGroup (HOSTNAME : CString) (client : GroupClient) (event : FilteredEvent) : Prop :=
  (client.filter HOSTNAME event false).1 = true ↔
    (groupsOf client.groups = [] ∨ ascii "all" ∈ groupsOf client.groups ∨
      event.group ∈ groupsOf client.groups) ∧ event.group ∉ groupsOf client.exclude

variable {HOSTNAME : CString} {client : GroupClient} {event : FilteredEvent}

theorem any_matchesAll {l : List CString} :
    l.any matchesAll = true ↔ ascii "all" ∈ l ∨ ascii "all\n" ∈ l := by
  simp only [List.any_eq_true, matchesAll, Bool.or_eq_true, decide_eq_true_eq]
  constructor
  · rintro ⟨s, hs, rfl | rfl⟩
    · exact .inl hs
    · exact .inr hs
  · rintro (h | h)
    · exact ⟨_, h, .inl rfl⟩
    · exact ⟨_, h, .inr rfl⟩

theorem any_eq_group {l : List CString} {group : CString} :
    (l.any fun option => decide (group = option)) = true ↔ group ∈ l := by
  simp only [List.any_eq_true, decide_eq_true_eq, exists_eq_right']

/-- **Which events are accepted.** -/
theorem filter_eq_true_iff (hpool : event.pool = none) :
    (client.filter HOSTNAME event false).1 = true ↔
      (ascii "all" ∈ groupsOf client.groups ∨ ascii "all\n" ∈ groupsOf client.groups ∨
        event.group ∈ groupsOf client.groups) ∧ event.group ∉ groupsOf client.exclude := by
  have hfilter : (client.filter HOSTNAME event false).1 =
      ((client.GROUPS.get.1.any matchesAll ||
        client.GROUPS.get.1.any fun option => event.group = option) &&
          !client.EXCLUDED.get.1.any fun option => event.group = option) := by
    simp only [GroupClient.filter, hpool]
    rfl
  rw [hfilter, Memo.get_fst, Memo.get_fst, Bool.and_eq_true, Bool.or_eq_true, any_matchesAll,
    any_eq_group, Bool.not_eq_true', Bool.eq_false_iff, ne_eq, any_eq_group, or_assoc]

/-- **When the filter does what it should**: if the event is excluded, or if groups are asked for,
and `all` with a newline is not among them or changes nothing. -/
theorem filtersByGroup_iff (hpool : event.pool = none) :
    FiltersByGroup HOSTNAME client event ↔
      event.group ∈ groupsOf client.exclude ∨ groupsOf client.groups ≠ [] ∧
        (ascii "all\n" ∈ groupsOf client.groups →
          ascii "all" ∈ groupsOf client.groups ∨ event.group ∈ groupsOf client.groups) := by
  rw [FiltersByGroup, filter_eq_true_iff hpool]
  generalize groupsOf client.groups = groups
  by_cases hexcluded : event.group ∈ groupsOf client.exclude
  · simp only [hexcluded, not_true_eq_false, and_false, true_or]
  simp only [hexcluded, not_false_eq_true, and_true, false_or]
  rcases eq_or_ne groups [] with rfl | hgroups
  · -- nothing is asked for, and nothing is found
    simp
  · simp only [hgroups, false_or, ne_eq, not_false_eq_true, true_and]
    constructor
    · intro h hnewline
      exact h.mp (.inr (.inl hnewline))
    · intro h
      constructor
      · rintro (hall | hnewline | hgroup)
        · exact .inl hall
        · exact h hnewline
        · exact .inr hgroup
      · rintro (hall | hgroup)
        · exact .inl hall
        · exact .inr (.inr hgroup)

theorem filtersByGroup_iff_www :
    FiltersByGroup (ascii "host")
        (.new (some (.string (ascii "www,mail"))) (some (.array [ascii "firewall"])))
        ⟨ascii "www", none⟩ ↔
      ascii "www" ∈ groupsOf (some (.array [ascii "firewall"])) ∨
        groupsOf (some (.string (ascii "www,mail"))) ≠ [] ∧
          (ascii "all\n" ∈ groupsOf (some (.string (ascii "www,mail"))) →
            ascii "all" ∈ groupsOf (some (.string (ascii "www,mail"))) ∨
              ascii "www" ∈ groupsOf (some (.string (ascii "www,mail")))) :=
  filtersByGroup_iff rfl

/-- Without any option, no event is accepted. -/
theorem not_filtersByGroup_default : ¬ ∀ (HOSTNAME : CString) (client : GroupClient)
    (event : FilteredEvent), event.pool = none → FiltersByGroup HOSTNAME client event := by
  intro h
  have hfilters := h [] (.new none none) ⟨ascii "www", none⟩ rfl
  have hrejected : ((GroupClient.new none none).filter [] ⟨ascii "www", none⟩ false).1 = false := by
    decide
  rw [FiltersByGroup, hrejected] at hfilters
  refine Bool.false_ne_true (hfilters.mpr ⟨.inl ?_, ?_⟩)
  · decide
  · decide

end Peep
