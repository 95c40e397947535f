import Peep.Server.ConfigSections
import Peep.Server.ConfigStates

/-!
# The ports of a class

`parserParseClass` (`parser.c`) takes the words behind `port` one after the other. A word that
begins with a `#` is skipped, and the loop ends at a token behind which nothing is left of the line.

So only the word that begins a comment is skipped, and the words behind it are added as ports. If
the line does not end in a blank, as the last line of a file may, then its last word is not added;
and if that word begins with a `#`, then the next one is taken from `NULL`.

## Choices

A line is what `fgets` returns, which is a part of a line if that is too long. A comment begins at
the first `#`, within a word too.

## Main results

* `portsOf_words` — which words of a line the loop adds
* `parserParseClass_blank`, `parserParseClass_ragged` — what a line with ports does
* `addsPorts_iff` — for which lines that is right
-/

namespace Peep

open Bytes Decimal Program Text

/-! ## Lines with ports -/

/-- The first word of a line. -/
def keywordOf (line : CString) : CString :=
  (line.dropWhile isspace).takeWhile fun c => !isspace c

/-- What is behind the first word. -/
def argumentsOf (line : CString) : CString :=
  (line.dropWhile isspace).dropWhile fun c => !isspace c

/-- The line has ports. -/
def IsPortLine (line : CString) : Prop := strcaseeq (keywordOf line) (ascii "port") = true

/-- The ports in front of the comment. -/
def wantedPorts (line : CString) : List Int32 :=
  (words isspace ((argumentsOf line).takeWhile fun c => c ≠ 35)).map atoi

/-- The words behind the one in which the comment begins. -/
def commentWords (text : CString) : List CString :=
  words isspace ((text.dropWhile fun c => c ≠ 35).dropWhile fun c => !isspace c)

/-- The ports in front of the comment are added, and the lines behind are parsed. -/
def AddsPorts {n k : ℕ} (sys : System) (cls : CString) (s : Loader n k) (line : CString) : Prop :=
  ∀ lines, parserParseClass sys cls (line :: lines) s
    = parserParseClass sys cls lines (addPorts (wantedPorts line) s)

/-- All words behind the one in which the comment begins begin with a `#`. If the line does not end
in a blank, then its last word is one more, which is no keyword. -/
def CommentSkipped (line : CString) : Prop :=
  if (argumentsOf line).getLast?.any isspace then
    ∀ w ∈ commentWords (argumentsOf line), beginsComment w = true
  else ∃ before last, commentWords (argumentsOf line) = before ++ [last] ∧
    (∀ w ∈ before, beginsComment w = true) ∧ beginsComment last = false ∧
    strcaseeq last (ascii "server") = false ∧ strcaseeq last (ascii "end") = false

variable {n k : ℕ} {sys : System} {line cls : CString} {r : Option CString} {w : CString}
  {ws lines : List CString} {s : Loader n k} {x text tail : List UInt8}

/-! ## Lines that end in a word -/

/-- What is left of a line for the next call. -/
def remainderOf : CString → Option CString
  | [] => none
  | _ :: q => some (q.dropWhile isspace)

/-- The first token of a line. -/
theorem parserTokenize_some (line : CString) :
    parserTokenize (some line) = some ⟨keywordOf line, remainderOf (argumentsOf line)⟩ := by
  show some _ = some _
  congr 1
  show (match argumentsOf line with
    | [] => (⟨keywordOf line, none⟩ : Tok)
    | _ :: q => ⟨keywordOf line, some (q.dropWhile isspace)⟩) = _
  cases argumentsOf line <;> rfl

/-- A blank follows the first word. -/
theorem isspace_of_argumentsOf {c : UInt8} (hc : c ∈ (argumentsOf line).head?) :
    isspace c = true := by
  have hhead := List.head?_dropWhile_not (fun c => !isspace c) (line.dropWhile isspace)
  have harguments : (line.dropWhile isspace).dropWhile (fun c => !isspace c) = argumentsOf line :=
    rfl
  rw [harguments, Option.mem_def.mp hc] at hhead
  simpa using hhead

/-- Blanks in front do not matter. -/
theorem ragged_dropWhile {q : CString} (hlast : ∃ c ∈ q.getLast?, isspace c = false) :
    Ragged (some (q.dropWhile isspace)) (words isspace q) := by
  obtain ⟨c, hc, hblank⟩ := hlast
  exact ⟨_, rfl, ⟨c, getLast?_dropWhile hc hblank, hblank⟩, words_dropWhile q⟩

/-- **The ports of a line** that ends in a word: that word is not added. -/
theorem parsePortsLoop_ragged (h : Ragged r (ws ++ [w])) (s : Loader n k) :
    parsePortsLoop (tokens r) s
      = (if beginsComment w then none else some ⟨w, none⟩, addPorts (portsOf ws) s) := by
  induction ws generalizing r s with
  | nil =>
    obtain ⟨tok, htok, hw, ⟨-, hnone⟩ | hrest⟩ := h.cons
    · have hcomment : tok.isComment = beginsComment w := by rw [Tok.isComment, hw, beginsComment]
      rw [tokens_of_some htok, hnone, parsePortsLoop, hcomment, portsOf, List.filter_nil,
        List.map_nil, addPorts_nil]
      rcases beginsComment w with - | -
      · rw [if_neg Bool.false_ne_true, if_pos hnone, if_neg Bool.false_ne_true, ← hw, ← hnone]
        rfl
      · rfl
    · exact absurd rfl hrest.ne_nil
  | cons v ws ih =>
    obtain ⟨tok, htok, hv, ⟨hnil, -⟩ | hrest⟩ := h.cons
    · exact absurd hnil (by simp)
    · have hcomment : tok.isComment = beginsComment v := by rw [Tok.isComment, hv, beginsComment]
      have hne : tok.remainder ≠ none := by
        obtain ⟨left, hleft, -⟩ := hrest
        rw [hleft]
        exact Option.some_ne_none left
      rw [tokens_of_some htok, parsePortsLoop, hcomment, portsOf, List.filter_cons]
      rcases beginsComment v with - | -
      · rw [if_neg Bool.false_ne_true, if_neg hne, serverAddBroadcastPort, change_bind, ih hrest,
          hv]
        exact congrArg (Prod.mk _) (addPorts_addPorts [atoi v] _ s)
      · rw [if_pos rfl, ih hrest]
        rfl

/-! ## Comments -/

/-- A number ends at a `#`. -/
theorem atoi_append (hx : ∀ c ∈ x, isspace c = false) (hne : x ≠ []) (tail : List UInt8) :
    atoi (x ++ 35 :: tail) = atoi x := by
  have hdigits (y : List UInt8) : (y ++ 35 :: tail).takeWhile isDigit = y.takeWhile isDigit := by
    induction y with
    | nil => rfl
    | cons c y ih => rw [List.cons_append, List.takeWhile_cons, List.takeWhile_cons, ih]
  rcases x with - | ⟨c, x⟩
  · exact absurd rfl hne
  · have hc : ¬ isspace c = true := by
      rw [hx c List.mem_cons_self]
      exact Bool.false_ne_true
    have hnumber : leadingInt (c :: (x ++ 35 :: tail)) = leadingInt (c :: x) := by
      have hwhole := hdigits (c :: x)
      rw [List.cons_append] at hwhole
      rw [leadingInt, leadingInt, List.head?_cons, List.head?_cons, List.tail_cons, List.tail_cons,
        hdigits, hwhole]
    rw [atoi, atoi, strtol, strtol, List.cons_append, List.dropWhile_cons_of_neg hc,
      List.dropWhile_cons_of_neg hc, hnumber]

theorem beginsComment_eq_false (h : 35 ∉ w) : beginsComment w = false := by
  rw [beginsComment, decide_eq_false_iff_not]
  exact fun hhead => h (List.mem_of_mem_head? hhead)

/-- Without a `#` all words are ports. -/
theorem portsOf_of_notMem (h : 35 ∉ text) :
    portsOf (words isspace text) = (words isspace text).map atoi := by
  rw [portsOf, List.filter_eq_self.mpr]
  intro w hw
  rw [beginsComment_eq_false fun hmem => h (mem_of_mem_words hw hmem)]
  rfl

/-- **Which words of a line are added**: the ports in front of the comment, and the words in the
comment but for those that begin with a `#`. -/
theorem exists_words (text : CString) : ∃ front, words isspace text = front ++ commentWords text ∧
    portsOf front = (words isspace (text.takeWhile fun c => c ≠ 35)).map atoi := by
  have hfront : (35 : UInt8) ∉ text.takeWhile fun c => c ≠ 35 := fun hmem => by
    have hne := List.mem_takeWhile_imp hmem
    simp at hne
  have hsplit := List.takeWhile_append_dropWhile (p := fun c : UInt8 => decide (c ≠ 35)) (l := text)
  have hbehind : commentWords text = words isspace
      ((text.dropWhile fun c => decide (c ≠ 35)).dropWhile fun c => !isspace c) := rfl
  rcases hcomment : text.dropWhile fun c => decide (c ≠ 35) with - | ⟨c, back⟩
  · -- there is no comment
    rw [hcomment] at hbehind
    rw [hcomment, List.append_nil] at hsplit
    rw [hsplit] at hfront ⊢
    exact ⟨words isspace text, by rw [hbehind]; simp, portsOf_of_notMem hfront⟩
  · obtain rfl : c = 35 := by
      simpa using eq_false_of_dropWhile_eq_cons hcomment
    have h35 : isspace 35 = false := rfl
    obtain ⟨init, x, hwords, hx⟩ :=
      words_append_cons h35 (text.takeWhile fun c => decide (c ≠ 35)) back
    rw [← hcomment, hsplit] at hwords
    rw [hcomment, List.dropWhile_cons_of_pos (by rw [h35]; rfl)] at hbehind
    refine ⟨init ++ [x ++ 35 :: back.takeWhile fun d => !isspace d], ?_, ?_⟩
    · rw [hwords, hbehind, List.append_assoc]
      rfl
    · rw [← portsOf_of_notMem hfront, portsOf_append]
      rcases hx with ⟨rfl, hinit⟩ | ⟨hne, hinit⟩
      · rw [hinit]
        exact List.append_nil _
      · -- the comment begins within a word, which is a port
        have hword : x ∈ words isspace (text.takeWhile fun c => decide (c ≠ 35)) := by
          rw [hinit]
          exact List.mem_append_right _ List.mem_cons_self
        have hhead : beginsComment (x ++ 35 :: back.takeWhile fun d => !isspace d) = false := by
          rcases x with - | ⟨c, x⟩
          · exact absurd rfl hne
          · have hc : beginsComment (c :: x) = false :=
              beginsComment_eq_false fun hmem => hfront (mem_of_mem_words hword hmem)
            exact hc
        have hx : beginsComment x = false :=
          beginsComment_eq_false fun hmem => hfront (mem_of_mem_words hword hmem)
        rw [hinit, portsOf_append]
        simp [portsOf, hhead, hx, atoi_append (forall_of_mem_words hword).2 hne]

/-! ## Lines -/

/-- The tests behind the ports, with the token that was read last. -/
def afterPorts (sys : System) (cls : CString) (lines : List CString) (tok : Tok) :
    Program (Loader n k) (Bool × List CString) := do
  let tok ← parseServers sys cls tok
  if ← isEndOf tok "class" then pure (true, lines) else parserParseClass sys cls lines

/-- A line with ports. -/
theorem parserParseClass_ports (hport : IsPortLine line) (lines : List CString) :
    (parserParseClass sys cls (line :: lines) : Program (Loader n k) _)
      = parsePortsLoop (tokens (remainderOf (argumentsOf line))) >>= afterPorts sys cls lines := by
  have hcomment : Tok.isComment ⟨keywordOf line, remainderOf (argumentsOf line)⟩ = false := by
    have hmap : (keywordOf line).map tolower = (ascii "port").map tolower := of_decide_eq_true hport
    rw [Tok.isComment, decide_eq_false_iff_not]
    intro hhead
    obtain ⟨rest, hrest⟩ := List.head?_eq_some_iff.mp hhead
    change keywordOf line = 35 :: rest at hrest
    rw [hrest] at hmap
    exact absurd (List.cons.inj hmap).1 (by decide +kernel)
  have hkeyword : Tok.is ⟨keywordOf line, remainderOf (argumentsOf line)⟩ "port" = true := hport
  rw [parserParseClass, tokenize_of_some (parserTokenize_some line), pure_bind_apply, hcomment,
    if_neg Bool.false_ne_true, parsePorts, if_pos hkeyword]
  rfl

/-- A token that is read last and is a keyword makes the next one be taken from `NULL`. -/
theorem afterPorts_of_none (w : CString) (lines : List CString) :
    (afterPorts sys cls lines ⟨w, none⟩ : Program (Loader n k) _)
      = if strcaseeq w (ascii "server") || strcaseeq w (ascii "end") then crash
        else parserParseClass sys cls lines := by
  rw [afterPorts, parseServers]
  rcases hserver : strcaseeq w (ascii "server") with - | -
  · have hnot : ¬ Tok.is ⟨w, none⟩ "server" = true := by
      rw [Tok.is, hserver]
      exact Bool.false_ne_true
    rw [if_neg hnot, pure_bind_apply, isEndOf]
    rcases hend : strcaseeq w (ascii "end") with - | -
    · have hnot : ¬ Tok.is ⟨w, none⟩ "end" = true := by
        rw [Tok.is, hend]
        exact Bool.false_ne_true
      rw [if_neg hnot]
      rfl
    · rw [if_pos (show Tok.is ⟨w, none⟩ "end" = true from hend)]
      rfl
  · rw [if_pos (show Tok.is ⟨w, none⟩ "server" = true from hserver)]
    rfl

/-- **A line that ends in a blank**: all words but those that begin with a `#` are added. -/
theorem parserParseClass_blank (hport : IsPortLine line)
    (hlast : (argumentsOf line).getLast?.any isspace = true) (lines : List CString)
    (s : Loader n k) :
    parserParseClass sys cls (line :: lines) s
      = parserParseClass sys cls lines
        (addPorts (portsOf (words isspace (argumentsOf line))) s) := by
  have hholds : Holds (remainderOf (argumentsOf line)) (words isspace (argumentsOf line)) := by
    rcases harguments : argumentsOf line with - | ⟨d, q⟩
    · rw [harguments] at hlast
      cases hlast
    · have hd : isspace d = true := isspace_of_argumentsOf (by rw [harguments]; rfl)
      rw [harguments] at hlast
      refine ⟨_, rfl, fun c hc => ?_, by rw [words_dropWhile, words_cons_of_blank hd]⟩
      obtain ⟨front, hfront⟩ := List.dropWhile_suffix (l := q) isspace
      have hne : q.dropWhile isspace ≠ [] := by
        intro hnil
        rw [hnil] at hc
        cases hc
      rw [← hfront, ← List.cons_append, List.getLast?_append_of_ne_nil _ hne,
        Option.mem_def.mp hc] at hlast
      exact hlast
  have hempty : ¬ (strcaseeq [] (ascii "server") || strcaseeq [] (ascii "end")) = true := by
    decide +kernel
  rw [parserParseClass_ports hport, bind_of_some (parsePortsLoop_of_holds hholds s),
    afterPorts_of_none, if_neg hempty]

/-- **A line that ends in a word**: that word is not added, and it must not be a comment or a
keyword. -/
theorem parserParseClass_ragged (hport : IsPortLine line)
    (hlast : (argumentsOf line).getLast?.any isspace = false)
    (hwords : words isspace (argumentsOf line) = ws ++ [w]) (lines : List CString)
    (s : Loader n k) :
    parserParseClass sys cls (line :: lines) s
      = if beginsComment w || (strcaseeq w (ascii "server") || strcaseeq w (ascii "end")) then
          (none, addPorts (portsOf ws) s)
        else parserParseClass sys cls lines (addPorts (portsOf ws) s) := by
  have hragged : Ragged (remainderOf (argumentsOf line)) (ws ++ [w]) := by
    rw [← hwords]
    rcases harguments : argumentsOf line with - | ⟨d, q⟩
    · rw [harguments] at hwords
      simp at hwords
    · have hd : isspace d = true := isspace_of_argumentsOf (by rw [harguments]; rfl)
      rw [harguments] at hlast
      rw [words_cons_of_blank hd]
      refine ragged_dropWhile ?_
      rcases q with - | ⟨e, q⟩
      · have hblank : isspace d = false := hlast
        rw [hd] at hblank
        cases hblank
      · rw [List.getLast?_cons_cons] at hlast
        rcases hend : (e :: q).getLast? with - | c
        · exact absurd (List.getLast?_eq_none_iff.mp hend) (List.cons_ne_nil e q)
        · rw [hend] at hlast
          exact ⟨c, rfl, hlast⟩
  have hloop := parsePortsLoop_ragged hragged s
  rw [parserParseClass_ports hport]
  rcases hw : beginsComment w with - | -
  · rw [hw] at hloop
    rw [bind_of_some hloop, afterPorts_of_none, Bool.false_or]
    split_ifs
    · rfl
    · rfl
  · rw [hw] at hloop
    rw [bind_of_none hloop]
    rfl

/-- **A line with `port` only**, and not even a blank behind it. -/
theorem parserParseClass_bare (hport : IsPortLine line) (hnil : argumentsOf line = [])
    (lines : List CString) (s : Loader n k) :
    parserParseClass sys cls (line :: lines) s = (none, s) := by
  rw [parserParseClass_ports hport, hnil]
  rfl

/-! ## When the ports are added -/

/-- The end of the file shows which ports have been added. -/
theorem addPorts_inj {ports ports' : List Int32} :
    (∀ lines, parserParseClass sys cls lines (addPorts ports s)
      = parserParseClass sys cls lines (addPorts ports' s)) ↔ ports = ports' := by
  constructor
  · intro h
    have hend := h []
    rw [parserParseClass, pure_apply, pure_apply] at hend
    have hports := congrArg (fun r => r.2.ports) hend
    exact List.append_cancel_left hports
  · rintro rfl lines
    rfl

theorem append_eq_left_iff (ports ports' : List Int32) : ports ++ ports' = ports ↔ ports' = [] := by
  simp

/-- After a crash, no ports have been added rightly. -/
theorem not_addsPorts_of_crash {t : Loader n k}
    (h : ∀ lines, parserParseClass sys cls (line :: lines) s = (none, t)) :
    ¬ AddsPorts sys cls s line := by
  intro hadds
  have hend := hadds []
  rw [h, parserParseClass, pure_apply] at hend
  cases hend

/-- A line that ends in a word: the words in front of it must be the ports. -/
theorem portsOf_eq_iff {front comment : List CString} (hw : beginsComment w = false)
    (hwords : ws ++ [w] = front ++ comment) :
    portsOf ws = portsOf front ↔
      ∃ before, comment = before ++ [w] ∧ ∀ w ∈ before, beginsComment w = true := by
  rcases comment.eq_nil_or_concat' with rfl | ⟨before, last, rfl⟩
  · -- the last word is a port
    rw [List.append_nil] at hwords
    have hport : portsOf front = portsOf ws ++ [atoi w] := by
      rw [← hwords, portsOf_append]
      simp [portsOf, hw]
    refine iff_of_false (fun heq => ?_) ?_
    · rw [hport] at heq
      simpa using congrArg List.length heq
    · rintro ⟨before, hnil, -⟩
      simp at hnil
  · rw [← List.append_assoc] at hwords
    obtain ⟨rfl, hlast⟩ := List.append_inj' hwords rfl
    obtain rfl : w = last := (List.cons.inj hlast).1
    rw [portsOf_append, append_eq_left_iff, portsOf_eq_nil_iff]
    constructor
    · exact fun hall => ⟨before, rfl, hall⟩
    · rintro ⟨before', heq, hall⟩
      obtain ⟨rfl, -⟩ := List.append_inj' heq rfl
      exact hall

/-- **For which lines the ports are added**, and nothing else. -/
theorem addsPorts_iff (hport : IsPortLine line) (sys : System) (cls : CString) (s : Loader n k) :
    AddsPorts sys cls s line ↔ CommentSkipped line := by
  obtain ⟨front, hwords, hfront⟩ := exists_words (argumentsOf line)
  have hwanted : wantedPorts line = portsOf front := hfront.symm
  rw [CommentSkipped]
  rcases hlast : (argumentsOf line).getLast?.any isspace with - | -
  · rw [if_neg Bool.false_ne_true]
    rcases (words isspace (argumentsOf line)).eq_nil_or_concat' with hnil | ⟨ws, w, hcat⟩
    · have hnone : argumentsOf line = [] := by
        rw [words_eq_nil_iff, List.dropWhile_eq_nil_iff] at hnil
        rcases hend : (argumentsOf line).getLast? with - | c
        · exact List.getLast?_eq_none_iff.mp hend
        · rw [hend, Option.any_some, hnil c (List.mem_of_mem_getLast? hend)] at hlast
          cases hlast
      refine iff_of_false (not_addsPorts_of_crash (parserParseClass_bare hport hnone · s)) ?_
      rintro ⟨before, last, hcomment, -⟩
      rw [hnone, commentWords] at hcomment
      simp at hcomment
    · rcases hbad : beginsComment w || (strcaseeq w (ascii "server") || strcaseeq w (ascii "end"))
        with - | -
      · obtain ⟨hw, hkeywords⟩ := Bool.or_eq_false_iff.mp hbad
        have hadds : AddsPorts sys cls s line ↔ portsOf ws = portsOf front := by
          rw [AddsPorts, hwanted]
          simp only [parserParseClass_ragged hport hlast hcat, hbad, Bool.false_eq_true, if_false]
          exact addPorts_inj
        rw [hadds, portsOf_eq_iff hw (hcat.symm.trans hwords)]
        constructor
        · rintro ⟨before, hcomment, hall⟩
          exact ⟨before, w, hcomment, hall, hw, Bool.or_eq_false_iff.mp hkeywords⟩
        · rintro ⟨before, last, hcomment, hall, -⟩
          rw [hcat, hcomment, ← List.append_assoc] at hwords
          obtain ⟨-, hlast⟩ := List.append_inj' hwords rfl
          exact ⟨before, hlast ▸ hcomment, hall⟩
      · have hcrash (lines : List CString) : parserParseClass sys cls (line :: lines) s
            = (none, addPorts (portsOf ws) s) := by
          rw [parserParseClass_ragged hport hlast hcat, hbad, if_pos rfl]
        refine iff_of_false (not_addsPorts_of_crash hcrash) ?_
        rintro ⟨before, last, hcomment, -, hw, hserver, hend⟩
        rw [hcat, hcomment, ← List.append_assoc] at hwords
        obtain ⟨-, hsame⟩ := List.append_inj' hwords rfl
        obtain rfl : w = last := (List.cons.inj hsame).1
        rw [hw, hserver, hend] at hbad
        cases hbad
  · rw [if_pos rfl, AddsPorts]
    simp only [parserParseClass_blank hport hlast, hwords, hwanted, portsOf_append]
    rw [addPorts_inj, append_eq_left_iff, portsOf_eq_nil_iff]

/-- **A comment behind a port** is read for ports. -/
theorem not_addsPorts_comment : IsPortLine (ascii "  port 2000 # Broadcast to 2001\n") ∧
    ¬ AddsPorts (oneFile []) (ascii "test") (Loader.start 12 4 2000)
      (ascii "  port 2000 # Broadcast to 2001\n") := by
  have hport : IsPortLine (ascii "  port 2000 # Broadcast to 2001\n") := by
    rw [IsPortLine]
    decide +kernel
  refine ⟨hport, fun h => ?_⟩
  have hports := congrArg (fun r => r.2.ports) (h [])
  revert hports
  decide +kernel

/-- Two ports, with a comment of one word. -/
theorem addsPorts_two : IsPortLine (ascii "  port 2000 1999 #two\n") ∧
    AddsPorts (oneFile []) (ascii "test") (Loader.start 12 4 2000)
      (ascii "  port 2000 1999 #two\n") := by
  have hport : IsPortLine (ascii "  port 2000 1999 #two\n") := by
    rw [IsPortLine]
    decide +kernel
  refine ⟨hport, (addsPorts_iff hport _ _ _).mpr ?_⟩
  rw [CommentSkipped, if_pos (by decide +kernel)]
  decide +kernel

end Peep
