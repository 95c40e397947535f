import Peep.Server.XmlNotice

/-!
# The sounds of a theme

A theme declares sounds, by name and path, and its events and thresholds refer to them by name. The
first pass of the parser puts each declaration in front of `trans_table`, and the second asks
`xmlThemeLookupTransPath` for the path of a name (`xml_theme.c`). Names are compared without regard
to case.

A lookup takes the entry it finds out of the table, for speed, so that a sound can be used once
only. If that entry is the first one, which is the sound declared last, then it does not link the
rest but empties the table.

## Choices

The table is the list of the entries that can be reached from `trans_table`. Of an entry, the name
and the path are kept; the other members are only logged.

## Main results

* `lookups_eq_iff` — what a sequence of lookups finds
* `resolves_iff` — when every lookup finds what was declared
* `lookupsClear_iff` — and what this means if the names differ in more than case
-/

namespace Peep

open Decimal

/-! ## The table -/

/-- `struct trans_table`. -/
structure TransEntry where
  /-- `name`. -/
  name : Option CString
  /-- `path`. -/
  path : Option CString
  deriving DecidableEq

/-- The entry has that name, up to case. -/
def TransEntry.isNamed (name : CString) (ent : TransEntry) : Bool :=
  ent.name.any fun entName => strcaseeq entName name

/-- `xmlThemeCreateTransEntry`. -/
def xmlThemeCreateTransEntry (table : List TransEntry) : List TransEntry := ⟨none, none⟩ :: table

/-- The loop of `xmlThemeLookupTransPath` behind the first entry: the entry that is found, and the
list without it. -/
def lookupTransLoop (name : CString) : List TransEntry → Option (TransEntry × List TransEntry)
  | [] => none
  | ent :: rest =>
    if ent.isNamed name then some (ent, rest)
    else (lookupTransLoop name rest).map fun found => (found.1, ent :: found.2)

/-- `xmlThemeLookupTransPath`: the path, or `NULL`, and the table after it. It copies the path of
the entry, which must not be `NULL`. -/
def xmlThemeLookupTransPath (table : List TransEntry) (name : CString) :
    Option (Option CString × List TransEntry) :=
  match table with
  | [] => some (none, [])
  | ent :: rest =>
    -- `prev` is `NULL` at the first entry, which counts as the only one
    if ent.isNamed name then ent.path.map fun path => (some path, [])
    else
      match lookupTransLoop name rest with
      | none => some (none, ent :: rest)
      | some (found, rest) => found.path.map fun path => (some path, ent :: rest)

/-- The table after the sounds with these names and paths have been declared. -/
def transTable (sounds : List (CString × CString)) : List TransEntry :=
  sounds.foldl (fun table sound => ⟨some sound.1, some sound.2⟩ :: table) []

/-- The paths that a sequence of lookups finds. -/
def lookups : List TransEntry → List CString → Option (List (Option CString))
  | _, [] => some []
  | table, name :: names => do
    let (path, table) ← xmlThemeLookupTransPath table name
    let paths ← lookups table names
    some (path :: paths)

/-! ## What is asked of the lookups -/

/-- Every lookup finds the path that was declared for the name, and what it would find in the table
before all lookups. -/
def Resolves (sounds : List (CString × CString)) (names : List CString) : Prop :=
  lookups (transTable sounds) names = some (names.map fun name => sounds.lookup name) ∧
    ∀ name ∈ names, (xmlThemeLookupTransPath (transTable sounds) name).map Prod.fst
      = some (sounds.lookup name)

/-- The paths of the sounds with that name up to case, the last one first. -/
def pathsOf (sounds : List (CString × CString)) (name : CString) : List CString :=
  (sounds.reverse.filter fun sound => strcaseeq sound.1 name).map Prod.snd

/-- Before any name is looked up, the sound declared last has not been; and, up to case, as many
sounds with that name were declared later than the one that is meant as have been looked up, and
none. -/
def LookupsClear (sounds : List (CString × CString)) (names : List CString) : Prop :=
  ∀ before name after, names = before ++ name :: after →
    (∀ earlier ∈ before, ∀ last ∈ sounds.getLast?, strcaseeq last.1 earlier = false) ∧
    (pathsOf sounds name)[0]? = sounds.lookup name ∧
    (pathsOf sounds name)[before.countP fun earlier => strcaseeq earlier name]?
      = sounds.lookup name

variable {sounds : List (CString × CString)} {names : List CString} {name m : CString}
  {table rest : List TransEntry} {ent : TransEntry} {f : CString → Option CString}

/-! ## Names -/

theorem strcaseeq_iff {a b : CString} : strcaseeq a b = true ↔ a.map tolower = b.map tolower :=
  decide_eq_true_iff

@[simp] theorem strcaseeq_self (a : CString) : strcaseeq a a = true := strcaseeq_iff.mpr rfl

theorem strcaseeq_comm (a b : CString) : strcaseeq a b = strcaseeq b a :=
  decide_eq_decide.mpr eq_comm

/-- Names that are the same for one name are the same for all. -/
theorem strcaseeq_congr {a b : CString} (h : strcaseeq a b = true) (c : CString) :
    strcaseeq c a = strcaseeq c b := by
  rw [strcaseeq, strcaseeq, strcaseeq_iff.mp h]

theorem isNamed_congr (h : strcaseeq m name = true) (ent : TransEntry) :
    ent.isNamed m = ent.isNamed name := by
  rcases ent with ⟨- | entName, path⟩
  · rfl
  · exact strcaseeq_congr h entName

/-- An entry does not have two names. -/
theorem isNamed_eq_false (h : strcaseeq m name = false) (hm : ent.isNamed m = true) :
    ent.isNamed name = false := by
  rcases ent with ⟨- | entName, path⟩
  · rfl
  · have hm : strcaseeq entName m = true := hm
    show strcaseeq entName name = false
    rw [strcaseeq_comm, strcaseeq_congr hm, strcaseeq_comm, h]

/-! ## One lookup -/

theorem lookupTransLoop_eq (name : CString) (table : List TransEntry) :
    lookupTransLoop name table =
      (table.find? (TransEntry.isNamed name)).map fun ent =>
        (ent, table.eraseP (TransEntry.isNamed name)) := by
  induction table with
  | nil => rfl
  | cons ent rest ih =>
    rw [lookupTransLoop, List.find?_cons]
    by_cases h : ent.isNamed name = true
    · rw [if_pos h, h, List.eraseP_cons_of_pos h]
      rfl
    · rw [if_neg h, ih, Bool.eq_false_iff.mpr h, List.eraseP_cons_of_neg h, Option.map_map]
      rfl

/-- All entries have a path. -/
def HavePaths (table : List TransEntry) : Prop := ∀ ent ∈ table, ent.path.isSome

theorem HavePaths.eraseP (h : HavePaths table) (p : TransEntry → Bool) :
    HavePaths (table.eraseP p) :=
  fun ent hent => h ent (List.mem_of_mem_eraseP hent)

/-- A lookup of the first entry empties the table. -/
theorem lookup_head (h : ent.path.isSome) (hnamed : ent.isNamed name = true) :
    xmlThemeLookupTransPath (ent :: rest) name = some (ent.path, []) := by
  obtain ⟨path, hpath⟩ := Option.isSome_iff_exists.mp h
  rw [xmlThemeLookupTransPath, if_pos hnamed, hpath]
  rfl

/-- A lookup of another name takes one entry out. -/
theorem lookup_tail (h : HavePaths rest) (hnamed : ent.isNamed name = false) :
    xmlThemeLookupTransPath (ent :: rest) name =
      some ((rest.find? (TransEntry.isNamed name)).bind TransEntry.path,
        ent :: rest.eraseP (TransEntry.isNamed name)) := by
  rw [xmlThemeLookupTransPath, if_neg (Bool.eq_false_iff.mp hnamed), lookupTransLoop_eq]
  cases hfind : rest.find? (TransEntry.isNamed name) with
  | none =>
    have hnone : rest.eraseP (TransEntry.isNamed name) = rest :=
      List.eraseP_of_forall_not (List.find?_eq_none.mp hfind)
    rw [hnone]
    rfl
  | some found =>
    obtain ⟨path, hpath⟩ := Option.isSome_iff_exists.mp (h found (List.mem_of_find?_eq_some hfind))
    simp [hpath]

/-- The first of a sequence of lookups, and the others. -/
theorem lookups_cons_iff {path p : Option CString} {ps : List (Option CString)}
    {after : List TransEntry} (h : xmlThemeLookupTransPath table name = some (path, after)) :
    lookups table (name :: names) = some (p :: ps) ↔ path = p ∧ lookups after names = some ps := by
  simp only [lookups, h, Option.bind_eq_bind, Option.bind_some, Option.bind_eq_some_iff,
    Option.some.injEq, List.cons.injEq]
  constructor
  · rintro ⟨found, hfound, hpath, rfl⟩
    exact ⟨hpath, hfound⟩
  · rintro ⟨hpath, hfound⟩
    exact ⟨ps, hfound, hpath, rfl⟩

/-- In an empty table nothing is found. -/
theorem lookups_nil (names : List CString) : lookups [] names = some (names.map fun _ => none) := by
  induction names with
  | nil => rfl
  | cons name names ih => simp [lookups, xmlThemeLookupTransPath, ih]

/-! ## Sequences of lookups -/

/-- A lookup takes the first of the entries with its name. -/
theorem filter_eraseP_same (h : strcaseeq m name = true) (table : List TransEntry) :
    (table.eraseP (TransEntry.isNamed m)).filter (TransEntry.isNamed name)
      = (table.filter (TransEntry.isNamed name)).tail := by
  have hsame : TransEntry.isNamed m = TransEntry.isNamed name := funext (isNamed_congr h)
  rw [hsame]
  induction table with
  | nil => rfl
  | cons ent rest ih =>
    by_cases hnamed : ent.isNamed name = true
    · rw [List.eraseP_cons_of_pos hnamed, List.filter_cons_of_pos hnamed, List.tail_cons]
    · rw [List.eraseP_cons_of_neg hnamed, List.filter_cons_of_neg hnamed,
        List.filter_cons_of_neg hnamed, ih]

/-- It leaves the entries with other names. -/
theorem filter_eraseP_other (h : strcaseeq m name = false) (table : List TransEntry) :
    (table.eraseP (TransEntry.isNamed m)).filter (TransEntry.isNamed name)
      = table.filter (TransEntry.isNamed name) := by
  induction table with
  | nil => rfl
  | cons ent rest ih =>
    by_cases hnamed : ent.isNamed m = true
    · rw [List.eraseP_cons_of_pos hnamed, List.filter_cons, if_neg]
      rw [isNamed_eq_false h hnamed]
      exact Bool.false_ne_true
    · rw [List.eraseP_cons_of_neg hnamed, List.filter_cons, List.filter_cons, ih]

/-- The entries with a name after a lookup of another entry than the first. -/
theorem getElem?_filter_eraseP (hent : ent.isNamed m = false) (k : ℕ) :
    ((ent :: rest.eraseP (TransEntry.isNamed m)).filter (TransEntry.isNamed name))[k]?
      = ((ent :: rest).filter (TransEntry.isNamed name))[
        k + if strcaseeq m name = true then 1 else 0]? := by
  by_cases hsame : strcaseeq m name = true
  · have hne : ¬ ent.isNamed name = true := by
      rw [← isNamed_congr hsame, hent]
      exact Bool.false_ne_true
    rw [if_pos hsame, List.filter_cons_of_neg hne, List.filter_cons_of_neg hne,
      filter_eraseP_same hsame, List.getElem?_tail]
  · rw [if_neg hsame, List.filter_cons, List.filter_cons,
      filter_eraseP_other (Bool.eq_false_iff.mpr hsame)]
    rfl

/-- Nothing is behind no entry. -/
theorem forall_split_nil {α : Type} (P : List α → α → Prop) :
    ∀ before a after, [] = before ++ a :: after → P before a := fun _ _ _ h =>
  absurd h.symm (List.append_ne_nil_of_right_ne_nil _ (List.cons_ne_nil _ _))

/-- A condition on every entry and those before it, for the first entry and for the others. -/
theorem forall_split_cons_iff {α : Type} {P : List α → α → Prop} {x : α} {l : List α} :
    (∀ before a after, x :: l = before ++ a :: after → P before a) ↔
      P [] x ∧ ∀ before a after, l = before ++ a :: after → P (x :: before) a := by
  constructor
  · exact fun h => ⟨h [] x l rfl, fun before a after heq =>
      h (x :: before) a after (by rw [heq]; rfl)⟩
  · rintro ⟨hx, hl⟩ before a after heq
    rcases before with - | ⟨b, before⟩
    · obtain ⟨rfl, rfl⟩ := List.cons.inj heq
      exact hx
    · obtain ⟨rfl, rfl⟩ := List.cons.inj heq
      exact hl before a after rfl

/-- Behind a lookup of the first entry the table is empty. -/
theorem lookups_head_iff (hent : ent.path.isSome) (hnamed : ent.isNamed name = true)
    (hf : ∀ m ∈ names, (f m).isSome) :
    lookups (ent :: rest) (name :: names) = some ((name :: names).map f) ↔
      ent.path = f name ∧ names = [] := by
  rw [List.map_cons, lookups_cons_iff (lookup_head hent hnamed), lookups_nil, Option.some.injEq]
  refine and_congr_right fun _ => ⟨fun hnone => ?_, ?_⟩
  · refine List.eq_nil_iff_forall_not_mem.mpr fun m hm => ?_
    have hsome := hf m hm
    rw [← List.map_inj_left.mp hnone m hm] at hsome
    exact absurd hsome Bool.false_ne_true
  · rintro rfl
    rfl

/-- **What a sequence of lookups finds.** As long as the first entry has not been looked up, each
finds the first entry with its name that those before have left. -/
theorem lookups_eq_iff (hpaths : HavePaths (ent :: rest)) (hf : ∀ name ∈ names, (f name).isSome) :
    lookups (ent :: rest) names = some (names.map f) ↔
      ∀ before name after, names = before ++ name :: after →
        (∀ earlier ∈ before, ent.isNamed earlier = false) ∧
        (((ent :: rest).filter (TransEntry.isNamed name))[
          before.countP fun earlier => strcaseeq earlier name]?).bind TransEntry.path = f name := by
  induction names generalizing rest with
  | nil => exact iff_of_true rfl (forall_split_nil _)
  | cons n names ih =>
    have hent := hpaths ent List.mem_cons_self
    have hfnames : ∀ m ∈ names, (f m).isSome := fun m hm => hf m (List.mem_cons_of_mem n hm)
    rw [forall_split_cons_iff]
    by_cases hnamed : ent.isNamed n = true
    · rw [lookups_head_iff hent hnamed hfnames, List.filter_cons_of_pos hnamed, List.countP_nil]
      refine and_congr ?_ ⟨?_, fun hall => ?_⟩
      · exact ⟨fun hpath => ⟨fun _ h => absurd h List.not_mem_nil, hpath⟩, And.right⟩
      · rintro rfl
        exact forall_split_nil _
      · rcases names with - | ⟨m, names⟩
        · rfl
        · have hne := (hall [] m names rfl).1 n List.mem_cons_self
          rw [hnamed] at hne
          cases hne
    · have hnamed : ent.isNamed n = false := Bool.eq_false_iff.mpr hnamed
      have hrest : HavePaths rest := fun e he => hpaths e (List.mem_cons_of_mem ent he)
      have hafter : HavePaths (ent :: rest.eraseP (TransEntry.isNamed n)) :=
        List.forall_mem_cons.mpr ⟨hent, hrest.eraseP _⟩
      have hfind : rest.find? (TransEntry.isNamed n)
          = ((ent :: rest).filter (TransEntry.isNamed n))[0]? := by
        rw [List.filter_cons_of_neg (Bool.eq_false_iff.mp hnamed), ← List.head?_eq_getElem?,
          List.head?_filter]
      rw [List.map_cons, lookups_cons_iff (lookup_tail hrest hnamed), hfind, ih hafter hfnames]
      refine and_congr ?_ (forall_congr' fun before => forall_congr' fun name =>
        forall_congr' fun after => forall_congr' fun _ => ?_)
      · exact ⟨fun hpath => ⟨fun _ h => absurd h List.not_mem_nil, hpath⟩, And.right⟩
      · rw [List.forall_mem_cons, and_iff_right hnamed, getElem?_filter_eraseP hnamed,
          List.countP_cons]

/-! ## Declared sounds -/

theorem transTable_eq (sounds : List (CString × CString)) :
    transTable sounds = sounds.reverse.map fun sound => ⟨some sound.1, some sound.2⟩ := by
  rw [transTable, List.foldl_eq_foldr_reverse]
  induction sounds.reverse with
  | nil => rfl
  | cons sound sounds ih => rw [List.foldr_cons, ih, List.map_cons]

theorem havePaths_transTable (sounds : List (CString × CString)) :
    HavePaths (transTable sounds) := by
  rw [transTable_eq]
  intro ent hent
  obtain ⟨sound, -, rfl⟩ := List.mem_map.mp hent
  rfl

/-- The paths of the entries with a name. -/
theorem path_filter_transTable (sounds : List (CString × CString)) (name : CString) (k : ℕ) :
    (((transTable sounds).filter (TransEntry.isNamed name))[k]?).bind TransEntry.path
      = (pathsOf sounds name)[k]? := by
  rw [transTable_eq, pathsOf, List.filter_map, List.getElem?_map, List.getElem?_map]
  change ((Option.map _ (sounds.reverse.filter fun sound => strcaseeq sound.1 name)[k]?).bind _) = _
  cases (sounds.reverse.filter fun sound => strcaseeq sound.1 name)[k]? <;> rfl

/-- The lookup of a name before all others. -/
theorem lookup_transTable (sounds : List (CString × CString)) (name : CString) :
    (xmlThemeLookupTransPath (transTable sounds) name).map Prod.fst
      = some ((pathsOf sounds name)[0]?) := by
  have hpaths := havePaths_transTable sounds
  rw [← path_filter_transTable]
  rcases htable : transTable sounds with - | ⟨ent, rest⟩
  · rfl
  · rw [htable] at hpaths
    by_cases hnamed : ent.isNamed name = true
    · rw [lookup_head (hpaths ent List.mem_cons_self) hnamed, List.filter_cons_of_pos hnamed]
      rfl
    · rw [lookup_tail (fun e he => hpaths e (List.mem_cons_of_mem ent he))
          (Bool.eq_false_iff.mpr hnamed), List.filter_cons_of_neg hnamed,
        ← List.head?_eq_getElem?, List.head?_filter]
      rfl

/-- **When every lookup finds what was declared.** -/
theorem resolves_iff (sounds : List (CString × CString)) (names : List CString)
    (hdeclared : ∀ name ∈ names, name ∈ sounds.map Prod.fst) :
    Resolves sounds names ↔ LookupsClear sounds names := by
  have hsome : ∀ name ∈ names, (sounds.lookup name).isSome := fun name hname => by
    obtain ⟨sound, hsound, rfl⟩ := List.mem_map.mp (hdeclared name hname)
    exact List.lookup_isSome_iff.mpr ⟨sound, hsound, beq_self_eq_true _⟩
  rcases List.eq_nil_or_concat' sounds with rfl | ⟨first, last, rfl⟩
  · obtain rfl : names = [] :=
      List.eq_nil_iff_forall_not_mem.mpr fun name hname => List.not_mem_nil (hdeclared name hname)
    refine iff_of_true ⟨rfl, fun _ h => absurd h List.not_mem_nil⟩ fun before name after h => ?_
    exact absurd h.symm (List.append_ne_nil_of_right_ne_nil _ (List.cons_ne_nil _ _))
  · have hpaths := havePaths_transTable (first ++ [last])
    have htable :
        transTable (first ++ [last]) = ⟨some last.1, some last.2⟩ :: transTable first := by
      rw [transTable, transTable, List.foldl_concat]
    have hlast : ∀ earlier, (∀ l ∈ (first ++ [last]).getLast?, strcaseeq l.1 earlier = false) ↔
        TransEntry.isNamed earlier ⟨some last.1, some last.2⟩ = false := by
      intro earlier
      rw [List.getLast?_concat]
      exact ⟨fun h => h last rfl, fun h l hl => Option.some.inj hl ▸ h⟩
    rw [Resolves, LookupsClear]
    simp only [hlast, lookup_transTable, Option.some.injEq, ← path_filter_transTable]
    rw [htable] at hpaths ⊢
    rw [lookups_eq_iff hpaths hsome]
    constructor
    · rintro ⟨hall, hfresh⟩ before name after heq
      obtain ⟨hbefore, hname⟩ := hall before name after heq
      have hmem : name ∈ names := heq ▸ List.mem_append_right before List.mem_cons_self
      exact ⟨hbefore, hfresh name hmem, hname⟩
    · intro hall
      refine ⟨fun before name after heq => ?_, fun name hname => ?_⟩
      · obtain ⟨hbefore, -, hname⟩ := hall before name after heq
        exact ⟨hbefore, hname⟩
      · obtain ⟨before, after, heq⟩ := List.append_of_mem hname
        exact (hall before name after heq).2.1

/-! ## Names that differ in more than case -/

/-- With such names, one path is declared for a name. -/
theorem pathsOf_eq_singleton (h : sounds.Pairwise fun a b => strcaseeq a.1 b.1 = false)
    (hname : name ∈ sounds.map Prod.fst) :
    ∃ path, sounds.lookup name = some path ∧ pathsOf sounds name = [path] := by
  obtain ⟨⟨n, path⟩, hsound, rfl⟩ := List.mem_map.mp hname
  obtain ⟨before, after, rfl⟩ := List.append_of_mem hsound
  obtain ⟨-, hafter, hbefore⟩ := List.pairwise_append.mp h
  have hdiffer : ∀ sound ∈ before, strcaseeq sound.1 n = false := fun sound hmem =>
    hbefore sound hmem _ List.mem_cons_self
  have hdiffer' : ∀ sound ∈ after, strcaseeq sound.1 n = false := fun sound hmem => by
    rw [strcaseeq_comm]
    exact (List.pairwise_cons.mp hafter).1 sound hmem
  have hfilter : ∀ l : List (CString × CString), (∀ sound ∈ l, strcaseeq sound.1 n = false) →
      (l.filter fun sound => strcaseeq sound.1 n) = [] := fun l hl =>
    List.filter_eq_nil_iff.mpr fun sound hmem => Bool.eq_false_iff.mp (hl sound hmem)
  refine ⟨path, ?_, ?_⟩
  · rw [List.lookup_eq_some_iff]
    refine ⟨before, after, rfl, fun sound hmem => ?_⟩
    have hne : n ≠ sound.1 := by
      rintro rfl
      exact absurd (hdiffer sound hmem) (by rw [strcaseeq_self]; exact Bool.true_eq_false_eq_False)
    simpa using hne
  · rw [pathsOf, List.filter_reverse, List.filter_append, List.filter_cons,
      if_pos (strcaseeq_self n), hfilter before hdiffer, hfilter after hdiffer']
    rfl

/-- A relation between every entry and those before it. -/
theorem pairwise_iff_forall_split {α : Type} {R : α → α → Prop} {l : List α} :
    l.Pairwise R ↔ ∀ before a after, l = before ++ a :: after → ∀ b ∈ before, R b a := by
  induction l with
  | nil => exact iff_of_true .nil (forall_split_nil _)
  | cons c l ih =>
    rw [List.pairwise_cons, ih, forall_split_cons_iff]
    constructor
    · rintro ⟨hc, hall⟩
      refine ⟨fun _ h => absurd h List.not_mem_nil, fun before a after h => ?_⟩
      exact List.forall_mem_cons.mpr
        ⟨hc a (h ▸ List.mem_append_right before List.mem_cons_self), hall before a after h⟩
    · rintro ⟨-, hall⟩
      refine ⟨fun a ha => ?_, fun before a after h => (List.forall_mem_cons.mp
        (hall before a after h)).2⟩
      obtain ⟨before, after, rfl⟩ := List.append_of_mem ha
      exact hall before a after rfl c List.mem_cons_self

/-- **Names that differ in more than case.** Then the lookups find what was declared if no name is
looked up twice, and nothing behind the one that was declared last. -/
theorem lookupsClear_iff (h : sounds.Pairwise fun a b => strcaseeq a.1 b.1 = false)
    (hdeclared : ∀ name ∈ names, name ∈ sounds.map Prod.fst) :
    LookupsClear sounds names ↔ names.Pairwise fun earlier name =>
      (∀ last ∈ sounds.getLast?, strcaseeq last.1 earlier = false) ∧
        strcaseeq earlier name = false := by
  rw [pairwise_iff_forall_split, LookupsClear]
  refine forall_congr' fun before => forall_congr' fun name => forall_congr' fun after =>
    forall_congr' fun heq => ?_
  have hmem : name ∈ names := heq ▸ List.mem_append_right before List.mem_cons_self
  obtain ⟨path, hpath, hpaths⟩ := pathsOf_eq_singleton h (hdeclared name hmem)
  rw [hpath, hpaths]
  have hcount : [path][before.countP fun earlier => strcaseeq earlier name]? = some path ↔
      ∀ earlier ∈ before, strcaseeq earlier name = false := by
    constructor
    · intro hget earlier hearlier
      have hlt := (List.getElem?_eq_some_iff.mp hget).1
      have hzero : before.countP (fun earlier => strcaseeq earlier name) = 0 :=
        Nat.lt_one_iff.mp hlt
      exact Bool.eq_false_iff.mpr (List.countP_eq_zero.mp hzero earlier hearlier)
    · intro hall
      rw [List.countP_eq_zero.mpr fun earlier hearlier =>
        Bool.eq_false_iff.mp (hall earlier hearlier)]
      rfl
  rw [hcount]
  constructor
  · rintro ⟨hlast, -, hall⟩ earlier he
    exact ⟨hlast earlier he, hall earlier he⟩
  · intro hall
    exact ⟨fun earlier he => (hall earlier he).1, rfl, fun earlier he => (hall earlier he).2⟩

/-- Two sounds, each of which is used once. -/
theorem resolves_once :
    Resolves [(ascii "thrush", ascii "woodland"), (ascii "doorbell", ascii "misc")]
      [ascii "thrush", ascii "doorbell"] := by
  refine (resolves_iff _ _ (by decide)).mpr ?_
  refine (lookupsClear_iff (by decide) (by decide)).mpr ?_
  decide

/-- Of two sounds, one is used twice, as in the theme that comes with the server. -/
theorem not_resolves_twice :
    ¬ Resolves [(ascii "thrush", ascii "woodland"), (ascii "doorbell", ascii "misc")]
      [ascii "thrush", ascii "thrush"] :=
  fun h => absurd h.1 (by decide)

end Peep
