import Peep.Library.SinglyLinked
import Peep.Library.StepSystem
import Peep.Server.TransTable

/-!
# The table of sounds in memory

`trans_table` is a singly linked list of entries that are allocated one by one (`xml_theme.c`). A
lookup unlinks the entry that it finds and frees it. At the end of a theme, `xmlParseTheme` frees
what is left.

That loop reads `next = ent->next` when it goes on, also behind the last entry, where `ent` is
`NULL`. So it never comes to its end, unless there is no entry at all.

## Choices

The states are those of the memory. An address that is not allocated or has been freed has no cell,
and an access there has no result, nor has one to `NULL`. The loops take the number of turns that
they may take; a loop that needs more has no result either. Memory can be allocated: a new entry is
at an address that was not in use.

## Main results

* `represented_of_themeRun` — the lists are those of the table as it was above
* `cleansUp_iff` — when the table is freed at the end
-/

namespace Peep

open Decimal SinglyLinked StepSystem

/-! ## The table -/

/-- The entries in memory, and `trans_table`. -/
structure ThemeHeap where
  /-- The entries. -/
  mem : Memory TransEntry
  /-- `trans_table`. -/
  trans_table : Option ℕ
  /-- What has been freed. -/
  freed : List ℕ

namespace ThemeHeap

/-- An entry is written. -/
def write (s : ThemeHeap) (a : ℕ) (cell : Cell TransEntry) : ThemeHeap :=
  { s with mem := Function.update s.mem a (some cell) }

/-- The assignment to `next` of an entry. -/
def setNext (s : ThemeHeap) (a : ℕ) (next : Option ℕ) : Option ThemeHeap :=
  (s.mem a).map fun cell => s.write a { cell with next := next }

/-- `xmlThemeFreeTransEntry`. -/
def xmlThemeFreeTransEntry (s : ThemeHeap) (entry : ℕ) : Option ThemeHeap :=
  if (s.mem entry).isSome then
    some { s with mem := Function.update s.mem entry none, freed := s.freed ++ [entry] }
  else none

/-- `xmlThemeCreateTransEntry`, where `calloc` returns `fresh`. -/
def xmlThemeCreateTransEntry (s : ThemeHeap) (fresh : ℕ) : Option ThemeHeap :=
  if (s.mem fresh).isSome then none
  else some { s.write fresh ⟨⟨none, none⟩, s.trans_table⟩ with trans_table := some fresh }

/-- An assignment to members of the entry that was created last, which is the first one. -/
def changeCurEnt (s : ThemeHeap) (f : TransEntry → TransEntry) : Option ThemeHeap := do
  let a ← s.trans_table
  let cell ← s.mem a
  some (s.write a { cell with value := f cell.value })

/-- The loop of `xmlThemeLookupTransPath`: the path, or `NULL`, and the table after it. -/
def lookupLoop (s : ThemeHeap) (name : CString) :
    ℕ → Option ℕ → Option ℕ → Option (Option CString × ThemeHeap)
  | _, _, none => some (none, s)
  | 0, _, some _ => none
  | turns + 1, prev, some ent => do
    let cell ← s.mem ent
    if cell.value.isNamed name then
      let path ← cell.value.path
      let s ← match prev with
        | some prev => s.setNext prev cell.next
        | none => some { s with trans_table := none }
      let s ← s.xmlThemeFreeTransEntry ent
      some (some path, s)
    else lookupLoop s name turns (some ent) cell.next

/-- `xmlThemeLookupTransPath`. -/
def xmlThemeLookupTransPath (turns : ℕ) (s : ThemeHeap) (name : CString) :
    Option (Option CString × ThemeHeap) :=
  s.lookupLoop name turns none s.trans_table

/-- The loop that frees the table, with `ent` and `next`. -/
def cleanUpLoop : ℕ → ThemeHeap → Option ℕ → Option ℕ → Option ThemeHeap
  | _, s, none, _ => some s
  | 0, _, some _, _ => none
  | turns + 1, s, some ent, next => do
    let s ← s.xmlThemeFreeTransEntry ent
    -- `ent = next, next = ent->next`
    let ent ← next
    let cell ← s.mem ent
    cleanUpLoop turns s (some ent) cell.next

/-- What `xmlParseTheme` does with the table at its end. -/
def cleanUp (turns : ℕ) (s : ThemeHeap) : Option ThemeHeap :=
  match s.trans_table with
  | none => some s
  | some ent => do
    let cell ← s.mem ent
    cleanUpLoop turns s (some ent) cell.next

/-- What is asked of it, where these entries are left: it ends, each of them has been freed once,
and what `trans_table` points to then is a table. -/
def CleansUp (s : ThemeHeap) (xs : List (ℕ × TransEntry)) : Prop :=
  ∃ turns s', cleanUp turns s = some s' ∧
    (∃ l, s'.freed = s.freed ++ l ∧ l.Perm (xs.map Prod.fst)) ∧
      ∃ ys, Path s'.mem s'.trans_table ys

end ThemeHeap

/-! ## Parsing a theme -/

/-- What happens to the table while a theme is parsed. -/
inductive ThemeAct
  /-- An entry is created. -/
  | create (fresh : ℕ)
  /-- Members of it are assigned to. -/
  | change (f : TransEntry → TransEntry)
  /-- A name is looked up. -/
  | lookup (name : CString)

/-- It happens in memory. -/
def ThemeHeap.step (turns : ℕ) (s : ThemeHeap) : ThemeAct → Option ThemeHeap
  | .create fresh => s.xmlThemeCreateTransEntry fresh
  | .change f => s.changeCurEnt f
  | .lookup name => (s.xmlThemeLookupTransPath turns name).map Prod.snd

/-- It happens to the list of the entries. -/
def tableStep (table : List TransEntry) : ThemeAct → Option (List TransEntry)
  | .create _ => some (xmlThemeCreateTransEntry table)
  | .change f =>
    match table with
    | [] => none
    | ent :: rest => some (f ent :: rest)
  | .lookup name => (xmlThemeLookupTransPath table name).map Prod.snd

/-- The entries in memory are those of the list. -/
def ThemeHeap.Represents (s : ThemeHeap) (table : List TransEntry) : Prop :=
  ∃ xs, Path s.mem s.trans_table xs ∧ xs.map Prod.snd = table

namespace ThemeHeap

variable {s s' : ThemeHeap} {xs ys front : List (ℕ × TransEntry)} {x y : ℕ × TransEntry}
  {name : CString} {path : Option CString} {turns fresh : ℕ} {next p : Option ℕ}
  {table : List TransEntry} {f : TransEntry → TransEntry} {act : ThemeAct} {acts : List ThemeAct}

theorem xmlThemeFreeTransEntry_of_mem {a : ℕ} {cell : Cell TransEntry} (h : s.mem a = some cell) :
    s.xmlThemeFreeTransEntry a =
      some { s with mem := Function.update s.mem a none, freed := s.freed ++ [a] } := by
  rw [xmlThemeFreeTransEntry, h]
  rfl

/-! ## Lookups -/

/-- The loop behind the first entry, which has been passed, finds what `lookupTransLoop` finds. -/
theorem lookupLoop_represents (h : Path s.mem s.trans_table (front ++ y :: xs))
    (hy : s.mem y.1 = some ⟨y.2, p⟩) (hxs : Path s.mem p xs)
    (hrun : s.lookupLoop name turns (some y.1) p = some (path, s')) :
    match lookupTransLoop name (xs.map Prod.snd) with
    | none => path = none ∧ s' = s
    | some (found, rest) => found.path = path ∧ path.isSome ∧
        ∃ ys, Path s'.mem s'.trans_table (front ++ y :: ys) ∧ ys.map Prod.snd = rest := by
  induction xs generalizing front y p turns with
  | nil =>
    obtain rfl : p = none := hxs
    rw [lookupLoop] at hrun
    obtain ⟨rfl, rfl⟩ := Prod.mk.inj (Option.some.inj hrun)
    exact ⟨rfl, rfl⟩
  | cons x xs ih =>
    obtain ⟨rfl, next, hx, hrest⟩ := hxs
    cases turns with
    | zero => cases hrun
    | succ turns =>
      simp only [lookupLoop, hx, Option.bind_eq_bind, Option.bind_some] at hrun
      rw [List.map_cons, lookupTransLoop]
      split_ifs at hrun ⊢ with hnamed
      · -- the entry is unlinked from the one in front of it
        have hne : x.1 ≠ y.1 := by
          have hnodup := h.nodup
          rw [List.map_append, List.map_cons, List.map_cons] at hnodup
          have hpair := (List.nodup_append.mp hnodup).2.1
          exact fun heq => (List.nodup_cons.mp hpair).1 (heq ▸ List.mem_cons_self)
        have hset : s.setNext y.1 next = some (s.write y.1 ⟨y.2, next⟩) := by
          rw [setNext, hy]
          rfl
        have hfree : (s.write y.1 ⟨y.2, next⟩).xmlThemeFreeTransEntry x.1 = some
            { s with mem := Function.update (Function.update s.mem y.1 (some ⟨y.2, next⟩)) x.1 none,
                     freed := s.freed ++ [x.1] } :=
          xmlThemeFreeTransEntry_of_mem ((Function.update_of_ne hne ..).trans hx)
        rcases hpath : x.2.path with - | found
        · rw [hpath] at hrun
          cases hrun
        · simp only [hpath, hset, hfree, Option.bind_some] at hrun
          obtain ⟨rfl, rfl⟩ := Prod.mk.inj (Option.some.inj hrun)
          exact ⟨hpath, rfl, xs, h.unlink hx, rfl⟩
      · have hlist : Path s.mem s.trans_table ((front ++ [y]) ++ x :: xs) := by
          rwa [List.append_assoc]
        have hnext := ih hlist hx hrest hrun
        rcases hfound : lookupTransLoop name (xs.map Prod.snd) with - | ⟨found, rest⟩
        · rw [hfound] at hnext
          exact hnext
        · rw [hfound] at hnext
          obtain ⟨hpath, hsome, ys, hys, hrest⟩ := hnext
          refine ⟨hpath, hsome, x :: ys, ?_, by rw [List.map_cons, hrest]⟩
          rwa [List.append_assoc] at hys

/-- **A lookup** in memory finds the path that it finds in the list, and leaves that list. -/
theorem lookup_represents (hs : s.Represents table)
    (hrun : s.xmlThemeLookupTransPath turns name = some (path, s')) :
    ∃ table', Peep.xmlThemeLookupTransPath table name = some (path, table') ∧
      s'.Represents table' := by
  obtain ⟨xs, hxs, rfl⟩ := hs
  rw [xmlThemeLookupTransPath] at hrun
  rcases xs with - | ⟨x, xs⟩
  · have hnull : s.trans_table = none := hxs
    rw [hnull, lookupLoop] at hrun
    obtain ⟨rfl, rfl⟩ := Prod.mk.inj (Option.some.inj hrun)
    exact ⟨[], rfl, [], hnull, rfl⟩
  · have hlist := hxs
    obtain ⟨hp, next, hx, hrest⟩ := hxs
    rw [hp] at hrun
    cases turns with
    | zero => cases hrun
    | succ turns =>
      simp only [lookupLoop, hx, Option.bind_eq_bind, Option.bind_some] at hrun
      rw [List.map_cons, Peep.xmlThemeLookupTransPath]
      split_ifs at hrun ⊢ with hnamed
      · -- the first entry: the table is empty then
        rcases hpath : x.2.path with - | found
        · rw [hpath] at hrun
          cases hrun
        · have hfree : ({ s with trans_table := none } : ThemeHeap).xmlThemeFreeTransEntry x.1
              = some { s with mem := Function.update s.mem x.1 none, trans_table := none,
                              freed := s.freed ++ [x.1] } :=
            xmlThemeFreeTransEntry_of_mem hx
          simp only [hpath, hfree, Option.bind_some] at hrun
          obtain ⟨rfl, rfl⟩ := Prod.mk.inj (Option.some.inj hrun)
          exact ⟨[], rfl, [], rfl, rfl⟩
      · have hfront : Path s.mem s.trans_table ([] ++ x :: xs) := hlist
        have hloop := lookupLoop_represents hfront hx hrest hrun
        rcases hfound : lookupTransLoop name (xs.map Prod.snd) with - | ⟨found, rest⟩
        · rw [hfound] at hloop
          obtain ⟨rfl, rfl⟩ := hloop
          exact ⟨_, rfl, x :: xs, hlist, rfl⟩
        · rw [hfound] at hloop
          obtain ⟨hpath, hsome, ys, hys, rfl⟩ := hloop
          obtain ⟨found', hfound'⟩ := Option.isSome_iff_exists.mp hsome
          refine ⟨x.2 :: ys.map Prod.snd, ?_, x :: ys, hys, rfl⟩
          simp only [hpath, hfound', Option.map_some]

/-- **One step** in memory is one step of the list. -/
theorem step_represents (hs : s.Represents table) (hstep : s.step turns act = some s') :
    ∃ table', tableStep table act = some table' ∧ s'.Represents table' := by
  cases act with
  | create fresh =>
    obtain ⟨xs, hxs, rfl⟩ := hs
    rw [step, xmlThemeCreateTransEntry] at hstep
    split_ifs at hstep with hfresh
    obtain rfl := Option.some.inj hstep
    refine ⟨_, rfl, (fresh, ⟨none, none⟩) :: xs, ⟨rfl, s.trans_table, Function.update_self .., ?_⟩,
      rfl⟩
    refine hxs.congr fun a ha => Function.update_of_ne ?_ ..
    rintro rfl
    exact hfresh (hxs.isSome ha)
  | change f =>
    obtain ⟨xs, hxs, rfl⟩ := hs
    rw [step, changeCurEnt] at hstep
    rcases xs with - | ⟨x, xs⟩
    · rw [show s.trans_table = none from hxs] at hstep
      cases hstep
    · have hnotin := (List.nodup_cons.mp hxs.nodup).1
      obtain ⟨hp, next, hx, hrest⟩ := hxs
      simp only [hp, hx, Option.bind_eq_bind, Option.bind_some] at hstep
      obtain rfl := Option.some.inj hstep
      refine ⟨_, rfl, (x.1, f x.2) :: xs, ⟨hp, next, Function.update_self .., ?_⟩, rfl⟩
      exact hrest.congr fun a ha => Function.update_of_ne (ne_of_mem_of_not_mem ha hnotin) ..
  | lookup name =>
    obtain ⟨⟨path, t⟩, hrun, rfl⟩ := Option.map_eq_some_iff.mp hstep
    obtain ⟨table', htable, ht⟩ := lookup_represents hs hrun
    exact ⟨table', by rw [tableStep, htable]; rfl, ht⟩

/-- **Parsing a theme** makes of the entries in memory what it makes of the list. -/
theorem represented_of_themeRun (hs : s.Represents table)
    (hrun : exec (ThemeHeap.step turns) s acts = some s') :
    ∃ table', exec tableStep table acts = some table' ∧ s'.Represents table' := by
  induction acts generalizing s table with
  | nil =>
    obtain rfl := Option.some.inj hrun
    exact ⟨table, rfl, hs⟩
  | cons act acts ih =>
    obtain ⟨t, ht, hrun⟩ := exec_cons_eq_some.mp hrun
    obtain ⟨table₁, hstep, hrep⟩ := step_represents hs ht
    obtain ⟨table', hexec, hrep'⟩ := ih hrep hrun
    exact ⟨table', exec_cons_eq_some.mpr ⟨table₁, hstep, hexec⟩, hrep'⟩

/-! ## The end of a theme -/

/-- **The loop does not end**: behind the last entry it reads from `NULL`. -/
theorem cleanUpLoop_eq_none (hx : s.mem x.1 = some ⟨x.2, next⟩) (hxs : Path s.mem next xs)
    (hnotin : x.1 ∉ xs.map Prod.fst) (turns : ℕ) :
    cleanUpLoop turns s (some x.1) next = none := by
  induction xs generalizing s x next turns with
  | nil =>
    obtain rfl : next = none := hxs
    cases turns with
    | zero => rfl
    | succ turns =>
      rw [cleanUpLoop, xmlThemeFreeTransEntry_of_mem hx]
      rfl
  | cons y ys ih =>
    have hnodup := List.nodup_cons.mp hxs.nodup
    obtain ⟨rfl, next', hy, hys⟩ := hxs
    cases turns with
    | zero => rfl
    | succ turns =>
      have hother (a : ℕ) (ha : a ∈ (y :: ys).map Prod.fst) :
          Function.update s.mem x.1 none a = s.mem a :=
        Function.update_of_ne (ne_of_mem_of_not_mem ha hnotin) ..
      have hy' : Function.update s.mem x.1 none y.1 = some ⟨y.2, next'⟩ :=
        (hother y.1 List.mem_cons_self).trans hy
      rw [cleanUpLoop, xmlThemeFreeTransEntry_of_mem hx]
      simp only [Option.bind_eq_bind, Option.bind_some, hy']
      refine ih hy' ?_ hnodup.1 turns
      exact hys.congr fun a ha => hother a (List.mem_cons_of_mem _ ha)

theorem cleansUp_iff_eq_nil (hxs : Path s.mem s.trans_table xs) : s.CleansUp xs ↔ xs = [] := by
  constructor
  · rintro ⟨turns, s', hrun, -⟩
    rcases xs with - | ⟨x, xs⟩
    · rfl
    · have hnotin := (List.nodup_cons.mp hxs.nodup).1
      obtain ⟨hp, next, hx, hrest⟩ := hxs
      simp only [cleanUp, hp, hx, Option.bind_eq_bind, Option.bind_some,
        cleanUpLoop_eq_none hx hrest hnotin turns] at hrun
      cases hrun
  · rintro rfl
    have hnull : s.trans_table = none := hxs
    refine ⟨0, s, by rw [cleanUp, hnull], ⟨[], (List.append_nil _).symm, .refl _⟩, [], hnull⟩

end ThemeHeap

open ThemeHeap

/-- **When the table is freed at the end of a theme**: if it is empty then, after the lookups. -/
theorem cleansUp_iff {turns : ℕ} {s s' : ThemeHeap} {acts : List ThemeAct}
    (hs : s.trans_table = none) (hrun : exec (ThemeHeap.step turns) s acts = some s') :
    ∃ xs, Path s'.mem s'.trans_table xs ∧ exec tableStep [] acts = some (xs.map Prod.snd) ∧
      (s'.CleansUp xs ↔ xs = []) := by
  obtain ⟨table', hexec, xs, hxs, rfl⟩ := represented_of_themeRun ⟨[], hs, rfl⟩ hrun
  exact ⟨xs, hxs, hexec, cleansUp_iff_eq_nil hxs⟩

/-- No theme has been parsed. -/
def ThemeHeap.empty : ThemeHeap := ⟨fun _ => none, none, []⟩

/-- A sound with the name `a`, which is looked up. -/
theorem cleansUp_iff_used : ∃ s', exec (ThemeHeap.step 1) ThemeHeap.empty
    [.create 0, .change fun _ => ⟨some [97], some [98]⟩, .lookup [97]] = some s' ∧
      ∃ xs, Path s'.mem s'.trans_table xs ∧
        exec tableStep [] [.create 0, .change fun _ => ⟨some [97], some [98]⟩, .lookup [97]]
          = some (xs.map Prod.snd) ∧ (s'.CleansUp xs ↔ xs = []) := by
  obtain ⟨s', hrun⟩ : ∃ s', exec (ThemeHeap.step 1) ThemeHeap.empty
      [.create 0, .change fun _ => ⟨some [97], some [98]⟩, .lookup [97]] = some s' := ⟨_, rfl⟩
  exact ⟨s', hrun, cleansUp_iff rfl hrun⟩

/-- A sound that is not used: its entry is freed, and then `NULL` is read. -/
theorem not_cleansUp_unused : ¬ ∀ (turns : ℕ) (s s' : ThemeHeap) (acts : List ThemeAct)
    (xs : List (ℕ × TransEntry)), s.trans_table = none →
      exec (ThemeHeap.step turns) s acts = some s' → Path s'.mem s'.trans_table xs →
        s'.CleansUp xs := by
  intro h
  let entry : TransEntry := ⟨some [97], some [98]⟩
  obtain ⟨s', hrun, hxs⟩ : ∃ s', exec (ThemeHeap.step 1) ThemeHeap.empty
      [.create 0, .change fun _ => entry] = some s' ∧
        Path s'.mem s'.trans_table [(0, entry)] :=
    ⟨_, rfl, rfl, none, rfl, rfl⟩
  exact List.cons_ne_nil _ _ ((cleansUp_iff_eq_nil hxs).mp (h 1 _ s' _ _ rfl hrun hxs))

end Peep
