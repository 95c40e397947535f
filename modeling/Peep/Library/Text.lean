import Mathlib.Data.List.Basic
import Mathlib.Data.List.DropRight
import Mathlib.Data.List.Forall2

/-!
# Lines and words of a text

A text is read line by line into a buffer of limited size, as `fgets` does: a call returns the text
up to the next newline, with the newline, or as much as there is room for. Of a line, the words are
the runs of characters between the blanks.

## Main results

* `readLines_flatMap` — a text whose lines fit into the buffer is read in its lines
* `words_cons_of_not_blank` — the first word, and the words behind it
-/

namespace Text

/-! ## Lines -/

section Lines

variable {α : Type*} [DecidableEq α] {newline : α} {m : ℕ} {line : List α} {lines : List (List α)}
  {s rest : List α}

/-- A call that reads a line into a buffer with room for `m` characters: what it has read, and what
is left. -/
def readLine (newline : α) : ℕ → List α → List α × List α
  | 0, s => ([], s)
  | _ + 1, [] => ([], [])
  | m + 1, c :: s =>
    if c = newline then ([c], s) else ((c :: (readLine newline m s).1), (readLine newline m s).2)

/-- At most so many calls. -/
def readLinesLoop (newline : α) (m : ℕ) : ℕ → List α → List (List α)
  | _, [] => []
  | 0, _ :: _ => []
  | calls + 1, c :: s =>
    (readLine newline m (c :: s)).1 :: readLinesLoop newline m calls (readLine newline m (c :: s)).2

/-- What the calls return until the end of the text. -/
def readLines (newline : α) (m : ℕ) (s : List α) : List (List α) :=
  readLinesLoop newline m s.length s

/-- A line that fits is read with its newline. -/
theorem readLine_append (hline : newline ∉ line) (hm : line.length < m) :
    readLine newline m (line ++ newline :: rest) = (line ++ [newline], rest) := by
  induction line generalizing m with
  | nil =>
    rcases m with - | m
    · exact absurd hm (Nat.not_lt_zero _)
    · rw [List.nil_append, readLine, if_pos rfl]
      rfl
  | cons c line ih =>
    rcases m with - | m
    · exact absurd hm (Nat.not_lt_zero _)
    · obtain ⟨hc, hline⟩ := List.ne_and_not_mem_of_not_mem_cons hline
      rw [List.cons_append, readLine, if_neg (Ne.symm hc), ih hline (Nat.lt_of_succ_lt_succ hm)]
      rfl

/-- So is the rest of the text, if it fits and has no newline. -/
theorem readLine_of_not_mem (hline : newline ∉ line) (hm : line.length ≤ m) :
    readLine newline m line = (line, []) := by
  induction line generalizing m with
  | nil => cases m <;> rfl
  | cons c line ih =>
    rcases m with - | m
    · exact absurd hm (Nat.not_succ_le_zero _)
    · obtain ⟨hc, hline⟩ := List.ne_and_not_mem_of_not_mem_cons hline
      rw [readLine, if_neg (Ne.symm hc), ih hline (Nat.le_of_succ_le_succ hm)]

theorem readLinesLoop_of_ne_nil (hs : s ≠ []) (calls : ℕ) :
    readLinesLoop newline m (calls + 1) s
      = (readLine newline m s).1 :: readLinesLoop newline m calls (readLine newline m s).2 := by
  rcases s with - | ⟨c, s⟩
  · exact absurd rfl hs
  · rfl

theorem readLinesLoop_flatMap {last : List α}
    (hlines : ∀ line ∈ lines, newline ∉ line ∧ line.length < m)
    (hlast : newline ∉ last ∧ last.length ≤ m) {calls : ℕ}
    (hcalls : (lines.flatMap (· ++ [newline]) ++ last).length ≤ calls) :
    readLinesLoop newline m calls (lines.flatMap (· ++ [newline]) ++ last)
      = lines.map (· ++ [newline]) ++ if last = [] then [] else [last] := by
  induction lines generalizing calls with
  | nil =>
    rw [List.flatMap_nil, List.nil_append] at hcalls ⊢
    rcases last with - | ⟨c, last⟩
    · cases calls <;> rfl
    · rcases calls with - | calls
      · exact absurd hcalls (Nat.not_succ_le_zero _)
      · rw [readLinesLoop, readLine_of_not_mem hlast.1 hlast.2, if_neg (List.cons_ne_nil c last)]
        cases calls <;> rfl
  | cons line lines ih =>
    have htext : (line :: lines).flatMap (· ++ [newline]) ++ last
        = line ++ newline :: (lines.flatMap (· ++ [newline]) ++ last) := by
      simp
    rw [htext] at hcalls ⊢
    rw [List.length_append, List.length_cons] at hcalls
    obtain ⟨hline, hm⟩ := hlines line List.mem_cons_self
    rcases calls with - | calls
    · exact absurd hcalls (Nat.not_succ_le_zero _)
    · have hrest := ih (fun line hline => hlines line (List.mem_cons_of_mem _ hline))
        (show _ ≤ calls by omega)
      rw [readLinesLoop_of_ne_nil (by simp), readLine_append hline hm, hrest]
      rfl

/-- **A text whose lines fit into the buffer is read in its lines.** The last line may lack its
newline. -/
theorem readLines_flatMap {last : List α}
    (hlines : ∀ line ∈ lines, newline ∉ line ∧ line.length < m)
    (hlast : newline ∉ last ∧ last.length ≤ m) :
    readLines newline m (lines.flatMap (· ++ [newline]) ++ last)
      = lines.map (· ++ [newline]) ++ if last = [] then [] else [last] :=
  readLinesLoop_flatMap hlines hlast (Nat.le_refl _)

/-- A call leaves less than there was. -/
theorem length_readLine_lt (hm : 0 < m) (hs : s ≠ []) :
    (readLine newline m s).2.length < s.length := by
  have hle (m : ℕ) (s : List α) : (readLine newline m s).2.length ≤ s.length := by
    induction s generalizing m with
    | nil => cases m <;> exact Nat.le_refl _
    | cons c s ih =>
      rcases m with - | m
      · exact Nat.le_refl _
      · rw [readLine]
        split_ifs
        · exact Nat.le_succ _
        · exact Nat.le_succ_of_le (ih m)
  rcases m with - | m
  · exact absurd hm (Nat.lt_irrefl _)
  · rcases s with - | ⟨c, s⟩
    · exact absurd rfl hs
    · rw [readLine]
      split_ifs
      · exact Nat.lt_succ_self _
      · exact Nat.lt_succ_of_le (hle m s)

theorem readLinesLoop_congr (hm : 0 < m) {a b : ℕ} (ha : s.length ≤ a) (hb : s.length ≤ b) :
    readLinesLoop newline m a s = readLinesLoop newline m b s := by
  induction a generalizing b s with
  | zero =>
    obtain rfl := List.length_eq_zero_iff.mp (Nat.le_zero.mp ha)
    cases b <;> rfl
  | succ a ih =>
    rcases s with - | ⟨c, s⟩
    · cases b <;> rfl
    · rcases b with - | b
      · exact absurd hb (Nat.not_succ_le_zero _)
      · have hlt : (readLine newline m (c :: s)).2.length < (c :: s).length :=
          length_readLine_lt hm (List.cons_ne_nil c s)
        rw [readLinesLoop, readLinesLoop]
        exact congrArg _ (ih (by omega) (by omega))

/-- **The first line**, if it fits, and the others. -/
theorem readLines_append (hline : newline ∉ line) (hm : line.length < m) :
    readLines newline m (line ++ newline :: rest)
      = (line ++ [newline]) :: readLines newline m rest := by
  have hlength : (line ++ newline :: rest).length = line.length + rest.length + 1 := by
    rw [List.length_append, List.length_cons, Nat.add_assoc]
  rw [readLines, hlength, readLinesLoop_of_ne_nil (by simp), readLine_append hline hm, readLines]
  exact congrArg _ (readLinesLoop_congr (by omega) (Nat.le_add_left _ _) (Nat.le_refl _))

/-- The lines of a text, each with its newline. -/
def allLines (newline : α) : List α → List (List α)
  | [] => []
  | c :: s =>
    if c = newline then [c] :: allLines newline s
    else match allLines newline s with
      | [] => [[c]]
      | line :: rest => (c :: line) :: rest

/-- The first line, and the others. -/
theorem allLines_append (hline : newline ∉ line) :
    allLines newline (line ++ newline :: rest) = (line ++ [newline]) :: allLines newline rest := by
  induction line with
  | nil => rw [List.nil_append, allLines, if_pos rfl]; rfl
  | cons c line ih =>
    obtain ⟨hc, hline⟩ := List.ne_and_not_mem_of_not_mem_cons hline
    rw [List.cons_append, allLines, if_neg (Ne.symm hc), ih hline]
    rfl

/-- A text without newlines is a line. -/
theorem allLines_of_not_mem (hline : newline ∉ line) (hne : line ≠ []) :
    allLines newline line = [line] := by
  induction line with
  | nil => exact absurd rfl hne
  | cons c line ih =>
    obtain ⟨hc, hline⟩ := List.ne_and_not_mem_of_not_mem_cons hline
    rw [allLines, if_neg (Ne.symm hc)]
    rcases line with - | ⟨d, line⟩
    · rfl
    · rw [ih hline (List.cons_ne_nil d line)]

/-- The first lines, if they fit, and the others. -/
theorem readLines_flatMap_append (hlines : ∀ line ∈ lines, newline ∉ line ∧ line.length < m) :
    readLines newline m (lines.flatMap (· ++ [newline]) ++ rest)
      = lines.map (· ++ [newline]) ++ readLines newline m rest := by
  induction lines with
  | nil => rfl
  | cons line lines ih =>
    obtain ⟨hline, hm⟩ := hlines line List.mem_cons_self
    rw [List.flatMap_cons, List.append_assoc, List.append_assoc, List.singleton_append,
      readLines_append hline hm, ih fun line hline => hlines line (List.mem_cons_of_mem _ hline)]
    rfl

theorem allLines_flatMap_append (hlines : ∀ line ∈ lines, newline ∉ line) :
    allLines newline (lines.flatMap (· ++ [newline]) ++ rest)
      = lines.map (· ++ [newline]) ++ allLines newline rest := by
  induction lines with
  | nil => rfl
  | cons line lines ih =>
    rw [List.flatMap_cons, List.append_assoc, List.append_assoc, List.singleton_append,
      allLines_append (hlines line List.mem_cons_self),
      ih fun line hline => hlines line (List.mem_cons_of_mem _ hline)]
    rfl

omit [DecidableEq α] in
/-- The lines of one part of a text, and those of the next. -/
theorem exists_append_of_forall₂ {β : Type*} {R : List α → β → Prop} {ws ws' : List β}
    (h : List.Forall₂ R lines (ws ++ ws')) :
    ∃ front back, lines = front ++ back ∧ List.Forall₂ R front ws ∧ List.Forall₂ R back ws' :=
  ⟨lines.take ws.length, lines.drop ws.length, (List.take_append_drop _ _).symm,
    List.forall₂_take_append lines ws ws' h, List.forall₂_drop_append lines ws ws' h⟩

end Lines

/-! ## Words -/

section Words

variable {α : Type*} {blank : α → Bool} {c : α} {s : List α} {w : List α} {ws : List (List α)}

/-- What is dropped ends where the condition fails. -/
theorem eq_false_of_dropWhile_eq_cons (h : s.dropWhile blank = c :: w) : blank c = false := by
  have hhead := List.head?_dropWhile_not blank s
  rw [h] at hhead
  exact hhead

/-- The last character is not dropped if the condition fails there. -/
theorem getLast?_dropWhile (hs : c ∈ s.getLast?) (hc : blank c = false) :
    c ∈ (s.dropWhile blank).getLast? := by
  obtain ⟨dropped, hdropped⟩ := List.dropWhile_suffix (l := s) blank
  have hne : s.dropWhile blank ≠ [] := fun hnil => by
    rw [List.dropWhile_eq_nil_iff.mp hnil c (List.mem_of_getLast? hs)] at hc
    cases hc
  rw [← hdropped, List.getLast?_append_of_ne_nil _ hne] at hs
  exact hs

/-- The words of a text. -/
def words (blank : α → Bool) : List α → List (List α)
  | [] => []
  | c :: s =>
    if blank c then words blank s
    else if s.head?.all blank then [c] :: words blank s
    else (words blank s).modifyHead (c :: ·)

@[simp] theorem words_nil : words blank [] = [] := rfl

theorem words_cons (c : α) (s : List α) : words blank (c :: s) =
    if blank c then words blank s
    else if s.head?.all blank then [c] :: words blank s
    else (words blank s).modifyHead (c :: ·) := rfl

theorem words_cons_of_blank (hc : blank c = true) : words blank (c :: s) = words blank s := by
  rw [words_cons, if_pos hc]

/-- **The first word.** -/
theorem words_cons_of_not_blank (hc : blank c = false) :
    words blank (c :: s) = (c :: s.takeWhile fun d => !blank d) ::
      words blank (s.dropWhile fun d => !blank d) := by
  induction s generalizing c with
  | nil => rw [words_cons, if_neg (by rw [hc]; exact Bool.false_ne_true)]; rfl
  | cons d s ih =>
    rw [words_cons, if_neg (by rw [hc]; exact Bool.false_ne_true)]
    rcases hd : blank d with - | -
    · rw [if_neg (by simp [hd]), ih hd, List.modifyHead_cons,
        List.takeWhile_cons_of_pos (by simp [hd]), List.dropWhile_cons_of_pos (by simp [hd])]
    · rw [if_pos (by simp [hd]), List.takeWhile_cons_of_neg (by simp [hd]),
        List.dropWhile_cons_of_neg (by simp [hd])]

/-- A blank at the end does not matter. -/
theorem words_append_blank (s : List α) (hc : blank c = true) :
    words blank (s ++ [c]) = words blank s := by
  induction s with
  | nil => rw [List.nil_append, words_cons_of_blank hc]
  | cons d s ih =>
    have hhead : (s ++ [c]).head?.all blank = s.head?.all blank := by
      cases s with
      | nil => simpa using hc
      | cons e s => rfl
    rw [List.cons_append, words_cons, words_cons, hhead, ih]

/-- Blanks in front do not matter. -/
theorem words_dropWhile (s : List α) : words blank (s.dropWhile blank) = words blank s := by
  induction s with
  | nil => rfl
  | cons c s ih =>
    rcases hc : blank c with - | -
    · rw [List.dropWhile_cons_of_neg (by simp [hc])]
    · rw [List.dropWhile_cons_of_pos hc, words_cons_of_blank hc, ih]

/-- A text without words has blanks only. -/
theorem words_eq_nil_iff : words blank s = [] ↔ s.dropWhile blank = [] := by
  rw [← words_dropWhile]
  rcases hs : s.dropWhile blank with - | ⟨c, t⟩
  · simp
  · rw [words_cons_of_not_blank (eq_false_of_dropWhile_eq_cons hs)]
    simp

/-- A word has a character, and no blank. -/
theorem forall_of_mem_words (hw : w ∈ words blank s) : w ≠ [] ∧ ∀ c ∈ w, blank c = false := by
  induction s generalizing w with
  | nil => simp at hw
  | cons c s ih =>
    rw [words_cons] at hw
    split_ifs at hw with hc hend
    · exact ih hw
    · rcases List.mem_cons.mp hw with rfl | hw
      · simpa using hc
      · exact ih hw
    · rcases hws : words blank s with - | ⟨first, rest⟩
      · rw [hws] at hw
        cases hw
      · rw [hws, List.modifyHead_cons] at hw
        rcases List.mem_cons.mp hw with rfl | hw
        · have hfirst := (ih (w := first) (by rw [hws]; exact List.mem_cons_self)).2
          exact ⟨List.cons_ne_nil _ _, List.forall_mem_cons.mpr ⟨by simpa using hc, hfirst⟩⟩
        · exact ih (by rw [hws]; exact List.mem_cons_of_mem _ hw)

/-- **A text without blanks is a word.** -/
theorem words_of_forall (hs : s ≠ []) (h : ∀ c ∈ s, blank c = false) : words blank s = [s] := by
  rcases s with - | ⟨c, s⟩
  · exact absurd rfl hs
  · obtain ⟨hc, h⟩ := List.forall_mem_cons.mp h
    have hall : ∀ d ∈ s, (!blank d) = true := fun d hd => by rw [h d hd]; rfl
    rw [words_cons_of_not_blank hc, List.takeWhile_eq_self_iff.mpr hall,
      List.dropWhile_eq_nil_iff.mpr hall, words_nil]

/-- The characters of a word are those of the text. -/
theorem mem_of_mem_words (hw : w ∈ words blank s) (hc : c ∈ w) : c ∈ s := by
  induction s generalizing w with
  | nil => simp at hw
  | cons d s ih =>
    rw [words_cons] at hw
    split_ifs at hw with hd hend
    · exact List.mem_cons_of_mem d (ih hw hc)
    · rcases List.mem_cons.mp hw with rfl | hw
      · exact List.mem_cons.mpr (.inl (List.mem_singleton.mp hc))
      · exact List.mem_cons_of_mem d (ih hw hc)
    · rcases hws : words blank s with - | ⟨first, rest⟩
      · rw [hws] at hw
        cases hw
      · rw [hws, List.modifyHead_cons] at hw
        rcases List.mem_cons.mp hw with rfl | hw
        · rcases List.mem_cons.mp hc with rfl | hc
          · exact List.mem_cons_self
          · exact List.mem_cons_of_mem d (ih (by rw [hws]; exact List.mem_cons_self) hc)
        · exact List.mem_cons_of_mem d (ih (by rw [hws]; exact List.mem_cons_of_mem _ hw) hc)

theorem words_cons_eq (hc : blank c = false) : words blank (c :: s) =
    if s.head?.all blank then [c] :: words blank s else (words blank s).modifyHead (c :: ·) := by
  rw [words_cons, if_neg (by rw [hc]; exact Bool.false_ne_true)]

/-- **A character within a text** belongs to one of its words, which may have begun in front of the
character. The words in front of that one do not change. -/
theorem words_append_cons (hc : blank c = false) (front back : List α) :
    ∃ init x, words blank (front ++ c :: back)
        = init ++ (x ++ c :: back.takeWhile fun d => !blank d) ::
          words blank (back.dropWhile fun d => !blank d) ∧
      (x = [] ∧ words blank front = init ∨ x ≠ [] ∧ words blank front = init ++ [x]) := by
  induction front with
  | nil => exact ⟨[], [], words_cons_of_not_blank hc, .inl ⟨rfl, rfl⟩⟩
  | cons b front ih =>
    obtain ⟨init, x, hwords, hfront⟩ := ih
    rcases hb : blank b with - | -
    · rw [List.cons_append, words_cons_eq hb, words_cons_eq hb]
      rcases front with - | ⟨d, front⟩
      · -- the word begins with `b`, and the character comes next
        refine ⟨[], [b], ?_, .inr ⟨List.cons_ne_nil b [], rfl⟩⟩
        rw [List.nil_append, List.head?_cons, Option.all_some, hc, if_neg Bool.false_ne_true,
          words_cons_of_not_blank hc]
        rfl
      · rw [List.cons_append, List.head?_cons, List.head?_cons, Option.all_some]
        rw [List.cons_append] at hwords
        rcases hd : blank d with - | -
        · -- the first word gets `b` in front
          rw [if_neg Bool.false_ne_true, if_neg Bool.false_ne_true, hwords]
          have hne : words blank (d :: front) ≠ [] := by
            rw [words_cons_of_not_blank hd]
            exact List.cons_ne_nil _ _
          rcases init with - | ⟨first, init⟩
          · rcases hfront with ⟨rfl, hnil⟩ | ⟨hx, hfront⟩
            · exact absurd hnil hne
            · exact ⟨[], b :: x, rfl, .inr ⟨List.cons_ne_nil b x, by rw [hfront]; rfl⟩⟩
          · refine ⟨(b :: first) :: init, x, rfl, hfront.imp ?_ ?_⟩
            · exact fun h => ⟨h.1, by rw [h.2]; rfl⟩
            · exact fun h => ⟨h.1, by rw [h.2]; rfl⟩
        · -- `b` is a word
          rw [if_pos rfl, if_pos rfl, hwords]
          refine ⟨[b] :: init, x, rfl, hfront.imp ?_ ?_⟩
          · exact fun h => ⟨h.1, by rw [h.2]⟩
          · exact fun h => ⟨h.1, by rw [h.2]; rfl⟩
    · refine ⟨init, x, ?_, ?_⟩
      · rw [List.cons_append, words_cons_of_blank hb, hwords]
      · rwa [words_cons_of_blank hb]

/-- The first word, and the others. -/
theorem words_eq_cons (h : words blank s = w :: ws) :
    w = (s.dropWhile blank).takeWhile (fun c => !blank c) ∧
      ws = words blank ((s.dropWhile blank).dropWhile fun c => !blank c) := by
  rw [← words_dropWhile] at h
  rcases ht : s.dropWhile blank with - | ⟨c, t⟩
  · rw [ht] at h
    cases h
  · have hc : blank c = false := eq_false_of_dropWhile_eq_cons ht
    rw [ht, words_cons_of_not_blank hc] at h
    obtain ⟨rfl, rfl⟩ := List.cons.inj h
    rw [List.takeWhile_cons_of_pos (by simp [hc]), List.dropWhile_cons_of_pos (by simp [hc])]
    exact ⟨rfl, rfl⟩

/-- Blanks behind a text are dropped first. -/
theorem rdropWhile_append_of_forall {t : List α} (h : ∀ c ∈ t, blank c = true) :
    (s ++ t).rdropWhile blank = s.rdropWhile blank := by
  rw [List.rdropWhile, List.rdropWhile, List.reverse_append,
    List.dropWhile_append_of_pos fun c hc => h c (List.mem_reverse.mp hc)]

/-- The blanks at the end do not matter. -/
theorem words_rdropWhile (s : List α) : words blank (s.rdropWhile blank) = words blank s := by
  induction s using List.reverseRecOn with
  | nil => rfl
  | append_singleton s c ih =>
    by_cases hc : blank c = true
    · rw [List.rdropWhile_concat_pos _ _ _ hc, ih, words_append_blank s hc]
    · rw [List.rdropWhile_concat_neg _ _ _ hc]

/-- The text without the blanks at its ends. -/
def trim (blank : α → Bool) (s : List α) : List α := (s.dropWhile blank).rdropWhile blank

theorem words_trim (s : List α) : words blank (trim blank s) = words blank s := by
  rw [trim, words_rdropWhile, words_dropWhile]

/-- **A text of one word is that word**, apart from the blanks at its ends. -/
theorem trim_of_words (h : words blank s = [w]) : trim blank s = w := by
  rw [← words_trim] at h
  rcases ht : trim blank s with - | ⟨c, t⟩
  · rw [ht] at h
    cases h
  have hc : blank c = false := by
    have hhead : (s.dropWhile blank).head? = some c := by
      obtain ⟨rest, hrest⟩ := List.rdropWhile_prefix blank (s.dropWhile blank)
      rw [← hrest, show (s.dropWhile blank).rdropWhile blank = c :: t from ht]
      rfl
    have hnot := List.head?_dropWhile_not blank s
    rw [hhead] at hnot
    exact hnot
  rw [ht, words_cons_of_not_blank hc] at h
  obtain ⟨rfl, hrest⟩ := List.cons.inj h
  -- behind the word there are only blanks, and the text does not end with one
  have hblank := List.dropWhile_eq_nil_iff.mp (words_eq_nil_iff.mp hrest)
  have hsplit : c :: t = (c :: t.takeWhile fun d => !blank d) ++ t.dropWhile fun d => !blank d := by
    rw [List.cons_append, List.takeWhile_append_dropWhile]
  have hself : (c :: t).rdropWhile blank = c :: t := by
    rw [← ht]
    exact List.rdropWhile_idempotent ..
  have hword : ∀ d ∈ c :: t.takeWhile fun d => !blank d, blank d = false := by
    refine List.forall_mem_cons.mpr ⟨hc, fun d hd => ?_⟩
    simpa using List.mem_takeWhile_imp hd
  rw [hsplit, rdropWhile_append_of_forall hblank, List.rdropWhile_eq_self_iff.mpr] at hself
  · rw [hsplit, ← hself]
  · intro hne
    rw [hword _ (List.getLast_mem hne)]
    exact Bool.false_ne_true

end Words

end Text
