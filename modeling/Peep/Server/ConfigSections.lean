import Peep.Server.ConfigFormat

/-!
# Parsing the sections

What the parsers of the general section, of classes, clients and events make of sections in the
documented format. Each line is read once and does what it says, as long as no word in it is taken
for something else: a test that has succeeded does not skip the tests behind it, which then see a
number, a name or a path, and behind ports and servers the words of a comment are read as well.

## Main results

* `parserParseGeneral_parses`, `parserParseClass_parses`, `skipClient_eq`,
  `parserParseEvent_parses` — the sections
* `foldl_add` — a class registers its ports, and the server if it is named once at most
* `Parses.bind`, `Parses.nested` — the rules for what parses a section
-/

namespace Peep

open Bytes Decimal Program Text

variable {n k : ℕ} {sys : System} {line last : CString} {r : Option CString} {tok : Tok}
  {w : CString} {ws more : List CString} {keyword : String} {rest raws : List CString}
  {s : Loader n k}

/-! ## Tokens that are no keywords -/

/-- A token that cannot be taken for a keyword: it is empty, a number, or begins a comment. -/
def isPlain (w : CString) : Bool :=
  w.head?.all fun c => c = 35 || (48 ≤ c && c ≤ 57) || c = 43 || c = 45 || c = 46

/-- A keyword begins with a letter. -/
def isKeyword (keyword : String) : Bool :=
  (ascii keyword).head?.any fun c => 97 ≤ c && c ≤ 122

theorem isPlain_of_isNumeric (h : isNumeric w = true) : isPlain w = true := by
  rcases w with - | ⟨c, w⟩
  · rfl
  · simp only [isNumeric, isPlain, List.head?_cons, Option.any_some, Option.all_some,
      Bool.or_eq_true] at h ⊢
    rcases h with ((h | h) | h) | h <;> simp [h]

/-- The token of a line with nothing but a remark. -/
theorem Remark.isPlain (r : Remark) (hw : w ∈ r.words.head?) : isPlain w = true := by
  have hhead := r.isComment w hw
  rw [Peep.isPlain, hhead]
  rfl

theorem tolower_eq_self {c : UInt8} (h : c.toNat < 65 ∨ 90 < c.toNat) : tolower c = c := by
  rw [tolower, if_neg]
  rw [Bool.and_eq_true, decide_eq_true_eq, decide_eq_true_eq, UInt8.le_iff_toNat_le,
    UInt8.le_iff_toNat_le]
  have h65 : (65 : UInt8).toNat = 65 := rfl
  have h90 : (90 : UInt8).toNat = 90 := rfl
  omega

/-- **It is no keyword.** -/
theorem Tok.is_eq_false (h : isPlain tok.token = true) (hkeyword : isKeyword keyword = true) :
    tok.is keyword = false := by
  rw [isKeyword] at hkeyword
  rw [Tok.is, strcaseeq, decide_eq_false_iff_not]
  rcases hkey : ascii keyword with - | ⟨d, key⟩
  · rw [hkey] at hkeyword
    cases hkeyword
  · rw [hkey, List.head?_cons, Option.any_some, Bool.and_eq_true, decide_eq_true_eq,
      decide_eq_true_eq, UInt8.le_iff_toNat_le] at hkeyword
    have hd : 97 ≤ d.toNat := hkeyword.1
    rcases htok : tok.token with - | ⟨c, w⟩
    · exact fun heq => List.cons_ne_nil _ _ heq.symm
    · rw [htok, isPlain, List.head?_cons, Option.all_some] at h
      have hc : c.toNat ≤ 57 := by
        simp only [Bool.or_eq_true, Bool.and_eq_true, decide_eq_true_eq,
          UInt8.le_iff_toNat_le] at h
        rcases h with (((rfl | ⟨-, h⟩) | rfl) | rfl) | rfl
        · decide
        · exact h
        · decide
        · decide
        · decide
      intro heq
      obtain ⟨hhead, -⟩ := List.cons.inj heq
      rw [tolower_eq_self (.inl (by omega)), tolower_eq_self (.inr (by omega))] at hhead
      rw [hhead] at hc
      omega

theorem Tok.is_self (h : tok.token = ascii keyword) : tok.is keyword = true := by
  rw [Tok.is, h, strcaseeq_self]

/-- A token that is a keyword begins no comment. -/
theorem Tok.isComment_of_eq (h : tok.token = ascii keyword)
    (hkeyword : (ascii keyword).head? ≠ some 35) : tok.isComment = false := by
  rw [Tok.isComment, h]
  exact decide_eq_false hkeyword

/-- It is no other keyword. -/
theorem Tok.is_of_eq (h : tok.token = ascii keyword) (other : String) :
    tok.is other = strcaseeq (ascii keyword) (ascii other) := by
  rw [Tok.is, h]

/-! ## Single lines -/

theorem tokenize_of_some (h : parserTokenize r = some tok) :
    (tokenize r : Program (Loader n k) Tok) = pure tok := by
  rw [tokenize, h]
  rfl

/-- What is no `end` ends no section. -/
theorem isEndOf_of_not (h : tok.is "end" = false) :
    (isEndOf tok keyword : Program (Loader n k) Bool) = pure false := by
  rw [isEndOf, h]
  rfl

/-- Nor does a word with a remark behind it, even if it is `end`. -/
theorem isEndOf_of_remark {remark : Remark} (h : Holds tok.remainder remark.words)
    (hkeyword : isKeyword keyword = true) :
    (isEndOf tok keyword : Program (Loader n k) Bool) = pure false := by
  rw [isEndOf]
  split_ifs
  · rcases hwords : remark.words with - | ⟨w, ws⟩
    · rw [hwords] at h
      rw [tokenize_of_some h.nil]
      show (pure _ : Program (Loader n k) Bool) = pure false
      rw [Tok.is_eq_false rfl hkeyword]
    · rw [hwords] at h
      obtain ⟨next, hnext, htoken, -⟩ := h.cons
      have hplain : isPlain next.token = true :=
        htoken ▸ remark.isPlain (by rw [hwords]; rfl)
      rw [tokenize_of_some hnext]
      show (pure _ : Program (Loader n k) Bool) = pure false
      rw [Tok.is_eq_false hplain hkeyword]
  · rfl

/-- The line that ends a section. It may lack its newline. -/
theorem parserTokenize_endLine (h : words isspace line = endLine keyword more) :
    ∃ tok, parserTokenize (some line) = some tok ∧ tok.token = ascii "end" ∧
      ∃ next, parserTokenize tok.remainder = some next ∧ next.token = ascii keyword := by
  obtain ⟨tok, htok, htoken, ⟨-, hnil, -⟩ | ⟨left, hleft, -, hwords⟩⟩ := parserTokenize_of_cons h
  · cases hnil
  · obtain ⟨next, hnext, hkeyword, -⟩ := parserTokenize_of_cons hwords
    exact ⟨tok, htok, htoken, next, hleft ▸ hnext, hkeyword⟩

/-- **The end of a section.** -/
theorem isEndOf_endLine (h : words isspace line = endLine keyword more) :
    ∃ tok, parserTokenize (some line) = some tok ∧ tok.token = ascii "end" ∧
      (isEndOf tok keyword : Program (Loader n k) Bool) = pure true := by
  obtain ⟨tok, htok, htoken, next, hnext, hkeyword⟩ := parserTokenize_endLine h
  refine ⟨tok, htok, htoken, ?_⟩
  have hend : tok.is "end" = true := Tok.is_self htoken
  rw [isEndOf, if_pos hend, tokenize_of_some hnext]
  show (pure _ : Program (Loader n k) Bool) = pure true
  rw [Tok.is_self hkeyword]

/-- **A remark.** The line may lack its newline. -/
theorem parserTokenize_remark {remark : Remark} (h : words isspace line = remark.words) :
    ∃ tok, parserTokenize (some line) = some tok ∧ isPlain tok.token = true := by
  rcases hwords : remark.words with - | ⟨w, ws⟩
  · rw [hwords] at h
    exact ⟨_, parserTokenize_of_nil h, rfl⟩
  · rw [hwords] at h
    obtain ⟨tok, htok, htoken, -⟩ := parserTokenize_of_cons h
    exact ⟨tok, htok, htoken ▸ remark.isPlain (by rw [hwords]; rfl)⟩

theorem Holds.remarkLine {remark : Remark} (h : Holds r remark.words) :
    ∃ tok, parserTokenize r = some tok ∧ isPlain tok.token = true := by
  obtain ⟨line, rfl, -, hwords⟩ := h
  exact parserTokenize_remark hwords

/-- **A keyword with a word behind it.** -/
theorem Holds.keyLine {remark : Remark} (h : Holds r (keyLine keyword w remark)) :
    ∃ tok, parserTokenize r = some tok ∧ tok.token = ascii keyword ∧
      ∃ next, parserTokenize tok.remainder = some next ∧ next.token = w ∧
        Holds next.remainder remark.words := by
  obtain ⟨tok, htok, htoken, hrest⟩ := h.cons
  obtain ⟨next, hnext, hw, hremark⟩ := hrest.cons
  exact ⟨tok, htok, htoken, next, hnext, hw, hremark⟩

/-- The lines of a section have these words, and each has its newline. -/
def Spelled (raws : List CString) (lines : List (List CString)) : Prop :=
  List.Forall₂ (fun raw ws => Holds (some raw) ws) raws lines

/-- A single line. -/
theorem Spelled.singleton (h : Spelled raws [ws]) : ∃ raw, raws = [raw] ∧ Holds (some raw) ws := by
  obtain ⟨raw, raws, hraw, hraws, rfl⟩ := List.forall₂_cons_right_iff.mp h
  obtain rfl := List.forall₂_nil_right_iff.mp hraws
  exact ⟨raw, rfl, hraw⟩

/-- The lines of one part, and those of the next. -/
theorem Spelled.append {lines lines' : List (List CString)} (h : Spelled raws (lines ++ lines')) :
    ∃ front back, raws = front ++ back ∧ Spelled front lines ∧ Spelled back lines' :=
  exists_append_of_forall₂ h

/-- What parses a section does what `q` does, and it leaves `rest` if that succeeds. -/
def Parses {σ : Type} (s : σ) (p : Program σ (Bool × List CString)) (rest : List CString)
    (q : Program σ Bool) : Prop :=
  ∃ left, p s = (q >>= fun ok => pure (ok, if ok then rest else left)) s

section Parses

variable {σ α : Type} {s : σ} {p : α → Program σ (Bool × List CString)} {q : α → Program σ Bool}
  {a : Program σ α}

theorem Parses.done (s : σ) (rest : List CString) :
    Parses s (pure (true, rest)) rest (pure true) := ⟨[], rfl⟩

theorem Parses.fails (s : σ) (left rest : List CString) :
    Parses s (pure (false, left)) rest (pure false) := ⟨left, rfl⟩

theorem Parses.crashes (s : σ) (rest : List CString) : Parses s crash rest crash := ⟨[], rfl⟩

/-- What comes last decides what is left. -/
theorem Parses.returns (s : σ) (rest : List CString) (q : Program σ Bool) :
    Parses s (q >>= fun ok => pure (ok, rest)) rest q :=
  ⟨rest, by simp only [ite_self]⟩

/-- **The rule for a sequence.** -/
theorem Parses.bind (h : ∀ x t, a s = (some x, t) → Parses t (p x) rest (q x)) :
    Parses s (a >>= p) rest (a >>= q) := by
  rcases ha : a s with ⟨- | x, t⟩
  · refine ⟨[], ?_⟩
    rw [bind_of_none ha, bind_assoc, bind_of_none ha]
  · obtain ⟨left, hleft⟩ := h x t ha
    refine ⟨left, ?_⟩
    rw [bind_of_some ha, hleft, bind_assoc, bind_of_some ha]

/-- Both may begin by reading the state. -/
theorem Parses.get {p : σ → Program σ (Bool × List CString)} {q : σ → Program σ Bool}
    (h : Parses s (p s) rest (q s)) : Parses s (Program.get >>= p) rest (Program.get >>= q) := h

/-- **The rule for a section inside another**, which goes on if the inner one succeeds. -/
theorem Parses.nested {p : Program σ (Bool × List CString)} {q q' : Program σ Bool}
    {f : List CString → Program σ (Bool × List CString)} {mid : List CString}
    (hp : Parses s p mid q) (hf : ∀ t, q s = (some true, t) → Parses t (f mid) rest q') :
    Parses s (p >>= fun parsed => if parsed.1 then f parsed.2 else pure (false, parsed.2)) rest
      (q >>= fun ok => if ok then q' else pure false) := by
  obtain ⟨left, hleft⟩ := hp
  rcases hq : q s with ⟨- | ok, t⟩
  · refine ⟨[], ?_⟩
    rw [bind_of_none hq] at hleft
    rw [bind_of_none hleft, bind_assoc, bind_of_none hq]
  · rw [bind_of_some hq] at hleft
    cases ok with
    | false =>
      refine ⟨left, ?_⟩
      rw [bind_of_some hleft, bind_assoc, bind_of_some hq]
      rfl
    | true =>
      obtain ⟨left', hleft'⟩ := hf t hq
      refine ⟨left', ?_⟩
      rw [bind_of_some hleft, bind_assoc, bind_of_some hq]
      exact hleft'

end Parses

/-! ## The general section -/

/-- What `strtok` leaves of a number begins as the number does. -/
theorem isPlain_strtokDot (h : isPlain w = true) : isPlain (strtokDot w).2 = true := by
  rw [strtokDot]
  split_ifs with hnil
  · exact h
  · rcases w with - | ⟨c, w⟩
    · exact absurd rfl hnil
    · by_cases hc : c = 46
      · subst hc
        rfl
      · rw [List.takeWhile_cons_of_neg (by simpa using hc),
          List.dropWhile_cons_of_neg (by simpa using hc),
          List.takeWhile_cons_of_pos (by simpa using hc)]
        exact h

theorem isPlain_acceptsVersion {accepted : Bool} {token : CString} (hw : isPlain w = true)
    (h : acceptsVersion sys w = some (accepted, token)) : isPlain token = true := by
  obtain ⟨⟨numbers, token'⟩, hversion, hrest⟩ := Option.bind_eq_some_iff.mp h
  obtain ⟨own, -, hown⟩ := Option.bind_eq_some_iff.mp hrest
  obtain ⟨-, rfl⟩ := Prod.mk.inj (Option.some.inj hown)
  obtain ⟨major, -, hminor⟩ := Option.bind_eq_some_iff.mp hversion
  obtain ⟨minor, -, hpair⟩ := Option.bind_eq_some_iff.mp hminor
  obtain ⟨-, rfl⟩ := Prod.mk.inj (Option.some.inj hpair)
  exact isPlain_strtokDot (isPlain_strtokDot hw)

/-- A line of the general section. -/
theorem parserParseGeneral_cons {l : GeneralLine} (h : Holds (some line) l.words)
    (lines : List CString) :
    (parserParseGeneral sys (line :: lines) : Program (Loader n k) _) = l.register sys >>= fun ok =>
      if ok then parserParseGeneral sys lines else pure (false, lines) := by
  rw [parserParseGeneral]
  cases l with
  | version number r =>
    obtain ⟨tok, htok, hkeyword, next, hnext, hw, hremark⟩ := Holds.keyLine h
    have hversion : tok.is "version" = true := Tok.is_self hkeyword
    simp only [tokenize_of_some htok, tokenize_of_some hnext, pure_bind_apply, parseVersion,
      hversion, if_true, hw, GeneralLine.register]
    cases haccepts : acceptsVersion sys number.text with
    | none => rfl
    | some x =>
      obtain ⟨accepted, token⟩ := x
      have hplain := isPlain_acceptsVersion (isPlain_of_isNumeric number.isNumeric) haccepts
      cases accepted with
      | false => rfl
      | true =>
        have hpath : Tok.is { next with token := token } "sound-path" = false :=
          Tok.is_eq_false hplain (by decide)
        have hend : Tok.is { next with token := token } "end" = false :=
          Tok.is_eq_false hplain (by decide)
        show (parseSoundPath { next with token := token } >>= fun tok => isEndOf tok "general" >>=
          fun ends => if ends then pure (true, lines) else parserParseGeneral sys lines)
            = parserParseGeneral sys lines
        rw [parseSoundPath, hpath, if_neg Bool.false_ne_true, pure_bind_apply,
          isEndOf_of_not hend]
        rfl
  | soundPath p r =>
    obtain ⟨tok, htok, hkeyword, next, hnext, hw, hremark⟩ := Holds.keyLine h
    have hversion : tok.is "version" = false := (Tok.is_of_eq hkeyword _).trans (by decide)
    have hpath : tok.is "sound-path" = true := (Tok.is_of_eq hkeyword _).trans (by decide)
    simp only [tokenize_of_some htok, tokenize_of_some hnext, pure_bind_apply, parseVersion,
      hversion, Bool.false_eq_true, if_false, parseSoundPath, hpath, if_true, hw]
    show (change _ >>= fun _ => isEndOf next "general" >>= fun ends =>
      if ends then pure (true, lines) else parserParseGeneral sys lines) = _
    rw [isEndOf_of_remark hremark (by decide)]
    rfl
  | remark r =>
    obtain ⟨tok, htok, hplain⟩ := h.remarkLine
    have hversion : tok.is "version" = false := Tok.is_eq_false hplain (by decide)
    have hpath : tok.is "sound-path" = false := Tok.is_eq_false hplain (by decide)
    simp only [tokenize_of_some htok, pure_bind_apply, parseVersion, hversion, Bool.false_eq_true,
      if_false, parseSoundPath, hpath,
      isEndOf_of_not (Tok.is_eq_false hplain (show isKeyword "end" = true by decide))]
    rfl

/-- **The general section.** -/
theorem parserParseGeneral_parses {lines : List GeneralLine}
    (hlines : Spelled raws (lines.map GeneralLine.words))
    (hlast : words isspace last = endLine "general" more) (rest : List CString) :
    Parses s (parserParseGeneral sys (raws ++ last :: rest)) rest (registerGeneral sys lines) := by
  induction lines generalizing raws s with
  | nil =>
    obtain rfl := List.forall₂_nil_right_iff.mp hlines
    obtain ⟨tok, htok, hend, hends⟩ := isEndOf_endLine (n := n) (k := k) hlast
    have hversion : tok.is "version" = false := (Tok.is_of_eq hend _).trans (by decide)
    have hpath : tok.is "sound-path" = false := (Tok.is_of_eq hend _).trans (by decide)
    simp only [List.nil_append, parserParseGeneral, tokenize_of_some htok, pure_bind_apply,
      parseVersion, hversion, Bool.false_eq_true, if_false, parseSoundPath, hpath, hends,
      registerGeneral, if_true]
    exact .done s rest
  | cons l lines ih =>
    obtain ⟨raw, raws, hraw, hraws, rfl⟩ := List.forall₂_cons_right_iff.mp hlines
    rw [List.cons_append, parserParseGeneral_cons hraw, registerGeneral]
    refine .bind fun ok t _ => ?_
    cases ok with
    | false => exact .fails t _ rest
    | true => exact ih hraws

/-! ## Classes -/

/-- A word that names the server itself. -/
def isOwn (sys : System) (w : CString) : Bool :=
  decide (58 ∈ w) && parserIsMyClass sys (w.takeWhile fun c => c ≠ 58)

/-- Nothing in the remark of a line is taken for a port, or for the server itself. -/
def ClassLine.Clear (sys : System) : ClassLine → Prop
  | .ports _ r => ∀ w ∈ r.words, w.head? = some 35
  | .servers _ r => ∀ w ∈ r.words, isOwn sys w = false
  | .remark _ => True

instance ClassLine.decidableClear (sys : System) : (l : ClassLine) → Decidable (l.Clear sys)
  | .ports _ r => inferInstanceAs (Decidable (∀ w ∈ r.words, w.head? = some 35))
  | .servers _ r => inferInstanceAs (Decidable (∀ w ∈ r.words, isOwn sys w = false))
  | .remark _ => .isTrue trivial

/-- Ports are registered. -/
def addPorts (ports : List Int32) (s : Loader n k) : Loader n k :=
  { s with ports := s.ports ++ ports }

@[simp] theorem addPorts_nil (s : Loader n k) : addPorts [] s = s := by
  rw [addPorts, List.append_nil]

theorem addPorts_addPorts (ports ports' : List Int32) (s : Loader n k) :
    addPorts ports' (addPorts ports s) = addPorts (ports ++ ports') s := by
  rw [addPorts, addPorts, addPorts, List.append_assoc]

theorem Holds.remainder_ne_none (h : Holds r ws) : r ≠ none := by
  obtain ⟨line, rfl, -⟩ := h
  exact Option.some_ne_none line

/-- A word that begins with a `#`. -/
def beginsComment (w : CString) : Bool := w.head? = some 35

theorem NumericWord.not_beginsComment (w : NumericWord) : beginsComment w.text = false := by
  have hnumeric := w.isNumeric
  rw [beginsComment, decide_eq_false_iff_not]
  intro hhead
  rw [Peep.isNumeric, hhead] at hnumeric
  exact absurd hnumeric (by decide)

/-- The ports that are added for some words. -/
def portsOf (ws : List CString) : List Int32 := (ws.filter fun w => !beginsComment w).map atoi

theorem portsOf_append (ws ws' : List CString) :
    portsOf (ws ++ ws') = portsOf ws ++ portsOf ws' := by
  rw [portsOf, List.filter_append, List.map_append]
  rfl

theorem portsOf_eq_nil_iff : portsOf ws = [] ↔ ∀ w ∈ ws, beginsComment w = true := by
  rw [portsOf, List.map_eq_nil_iff, List.filter_eq_nil_iff]
  simp

/-- **The ports of a line** that ends in a blank: all words but those that begin with a `#`. -/
theorem parsePortsLoop_of_holds (h : Holds r ws) (s : Loader n k) :
    parsePortsLoop (tokens r) s = (some ⟨[], none⟩, addPorts (portsOf ws) s) := by
  induction ws generalizing r s with
  | nil =>
    rw [tokens_of_some h.nil, portsOf, List.filter_nil, List.map_nil, addPorts_nil]
    rfl
  | cons w ws ih =>
    obtain ⟨tok, htok, hw, hrest⟩ := h.cons
    have hcomment : tok.isComment = beginsComment w := by rw [Tok.isComment, hw, beginsComment]
    rw [tokens_of_some htok, parsePortsLoop, hcomment, portsOf, List.filter_cons]
    rcases beginsComment w with - | -
    · rw [if_neg Bool.false_ne_true, if_neg hrest.remainder_ne_none, serverAddBroadcastPort,
        change_bind, ih hrest, hw]
      exact congrArg (Prod.mk _) (addPorts_addPorts [atoi w] _ s)
    · rw [if_pos rfl, ih hrest]
      rfl

/-- Ports with comments behind. -/
theorem parsePortsLoop_eq {ps : List NumericWord} (h : Holds r (ps.map NumericWord.text ++ ws))
    (hws : ∀ w ∈ ws, w.head? = some 35) (s : Loader n k) :
    parsePortsLoop (tokens r) s
      = (some ⟨[], none⟩, addPorts (ps.map fun p => atoi p.text) s) := by
  have hremarks : portsOf ws = [] :=
    portsOf_eq_nil_iff.mpr fun w hw => decide_eq_true (hws w hw)
  have hports : portsOf (ps.map NumericWord.text) = ps.map fun p => atoi p.text := by
    rw [portsOf, List.filter_eq_self.mpr, List.map_map]
    · rfl
    · intro w hw
      obtain ⟨p, -, rfl⟩ := List.mem_map.mp hw
      rw [p.not_beginsComment]
      rfl
  rw [parsePortsLoop_of_holds h, portsOf_append, hports, hremarks, List.append_nil]

/-- The entry of another server. -/
theorem parseServerEntry_of_not {host : CString}
    (h : 58 ∈ w → parserIsMyClass sys host = false) (cls : CString) :
    (parseServerEntry sys cls host w : Program (Loader n k) Unit) = pure () := by
  induction w with
  | nil => rfl
  | cons c w ih =>
    have hc : ¬ (c = 58 ∧ parserIsMyClass sys host = true) := by
      rintro ⟨rfl, hmine⟩
      rw [h List.mem_cons_self] at hmine
      cases hmine
    rw [parseServerEntry, if_neg hc]
    exact ih fun hw => h (List.mem_cons_of_mem _ hw)

/-- The entry of the server itself. -/
theorem parseServerEntry_of_mine {host front port : CString}
    (hmine : parserIsMyClass sys host = true) (hfront : 58 ∉ front) (cls : CString) :
    (parseServerEntry sys cls host (front ++ 58 :: port) : Program (Loader n k) Unit)
      = joinClass cls (atoi port) := by
  induction front with
  | nil =>
    rw [List.nil_append, parseServerEntry, if_pos ⟨rfl, hmine⟩]
  | cons c front ih =>
    obtain ⟨hc, hfront⟩ := List.ne_and_not_mem_of_not_mem_cons hfront
    rw [List.cons_append, parseServerEntry, if_neg fun h => hc h.1.symm]
    exact ih hfront

/-- What stands in front of the first colon of an entry. -/
theorem ServerEntry.takeWhile_word (e : ServerEntry) :
    (e.word.takeWhile fun c => c ≠ 58) = e.host := by
  have hhost : ∀ c ∈ e.host, decide (c ≠ 58) = true := fun c hc =>
    decide_eq_true fun heq => e.no_colon (heq ▸ hc)
  rw [word, List.takeWhile_append_of_pos hhost, List.takeWhile_cons_of_neg (by simp),
    List.append_nil]

/-- The server joins a class. -/
def joins (cls : CString) (s : Loader n k) (e : ServerEntry) : Loader n k :=
  { s with identifier := serverAddIDClass s.identifier cls, port := atoi e.port }

/-- It joins the class with each entry that names it. -/
def joinsAll (sys : System) (cls : CString) (es : List ServerEntry) (s : Loader n k) :
    Loader n k :=
  (es.filter fun e => parserIsMyClass sys e.host).foldl (joins cls) s

theorem parseServersLoop_remark (h : Holds r ws) (hws : ∀ w ∈ ws, isOwn sys w = false)
    (cls : CString) (s : Loader n k) :
    parseServersLoop sys cls (tokens r) s = (some ⟨[], none⟩, s) := by
  induction ws generalizing r with
  | nil =>
    rw [tokens_of_some h.nil]
    rfl
  | cons w ws ih =>
    obtain ⟨tok, htok, hw, hrest⟩ := h.cons
    have hother : 58 ∈ tok.token →
        parserIsMyClass sys (tok.token.takeWhile fun c => c ≠ 58) = false := by
      intro hcolon
      have hown := hws w List.mem_cons_self
      rw [hw] at hcolon ⊢
      rwa [isOwn, decide_eq_true hcolon, Bool.true_and] at hown
    rw [tokens_of_some htok, parseServersLoop, parseServerEntry_of_not hother, pure_bind_apply,
      if_neg hrest.remainder_ne_none]
    exact ih hrest fun w hw => hws w (List.mem_cons_of_mem _ hw)

/-- **The servers of a line.** -/
theorem parseServersLoop_eq {es : List ServerEntry} (h : Holds r (es.map ServerEntry.word ++ ws))
    (hws : ∀ w ∈ ws, isOwn sys w = false) (cls : CString) (s : Loader n k) :
    parseServersLoop sys cls (tokens r) s = (some ⟨[], none⟩, joinsAll sys cls es s) := by
  induction es generalizing r s with
  | nil => exact parseServersLoop_remark h hws cls s
  | cons e es ih =>
    obtain ⟨tok, htok, he, hrest⟩ := h.cons
    rw [tokens_of_some htok, parseServersLoop, he, e.takeWhile_word, joinsAll, List.filter_cons]
    rcases hmine : parserIsMyClass sys e.host with - | -
    · rw [parseServerEntry_of_not (fun _ => hmine), pure_bind_apply,
        if_neg hrest.remainder_ne_none]
      exact ih hrest s
    · rw [ServerEntry.word, parseServerEntry_of_mine hmine e.no_colon, joinClass, change_bind,
        if_neg hrest.remainder_ne_none]
      exact ih hrest (joins cls s e)

/-- What a line of a class registers. -/
def ClassLine.add (sys : System) (cls : CString) (s : Loader n k) (l : ClassLine) : Loader n k :=
  joinsAll sys cls l.serverList (addPorts l.portList s)

/-- A line of a class. -/
theorem parserParseClass_cons {l : ClassLine} (h : Holds (some line) l.words) (hl : l.Clear sys)
    (cls : CString) (lines : List CString) (s : Loader n k) :
    parserParseClass sys cls (line :: lines) s
      = parserParseClass sys cls lines (l.add sys cls s) := by
  have hnil (keyword : String) (hkeyword : isKeyword keyword = true) :
      Tok.is ⟨[], none⟩ keyword = false := Tok.is_eq_false rfl hkeyword
  rw [parserParseClass]
  cases l with
  | ports ps remark =>
    obtain ⟨tok, htok, hkeyword, hrest⟩ := h.cons
    have hport : tok.is "port" = true := Tok.is_self hkeyword
    have hcomment : tok.isComment = false := Tok.isComment_of_eq hkeyword (by decide)
    rw [tokenize_of_some htok, pure_bind_apply, hcomment, if_neg Bool.false_ne_true, parsePorts,
      if_pos hport, bind_of_some (parsePortsLoop_eq hrest hl s), parseServers,
      if_neg (by rw [hnil "server" (by decide)]; decide), pure_bind_apply,
      isEndOf_of_not (hnil "end" (by decide))]
    rfl
  | servers es remark =>
    obtain ⟨tok, htok, hkeyword, hrest⟩ := h.cons
    have hport : tok.is "port" = false := (Tok.is_of_eq hkeyword _).trans (by decide)
    have hserver : tok.is "server" = true := Tok.is_self hkeyword
    have hcomment : tok.isComment = false := Tok.isComment_of_eq hkeyword (by decide)
    rw [tokenize_of_some htok, pure_bind_apply, hcomment, if_neg Bool.false_ne_true, parsePorts,
      if_neg (by rw [hport]; decide), pure_bind_apply, parseServers, if_pos hserver,
      bind_of_some (parseServersLoop_eq hrest hl cls s), isEndOf_of_not (hnil "end" (by decide))]
    show parserParseClass sys cls lines (joinsAll sys cls es s)
      = parserParseClass sys cls lines (joinsAll sys cls es (addPorts [] s))
    rw [addPorts_nil]
  | remark remark =>
    obtain ⟨tok, htok, hplain⟩ := h.remarkLine
    have hkeyword (keyword : String) (hkeyword : isKeyword keyword = true) :
        tok.is keyword = false := Tok.is_eq_false hplain hkeyword
    have hadd : ClassLine.add sys cls s (.remark remark) = s := addPorts_nil s
    rw [tokenize_of_some htok, pure_bind_apply, parsePorts, hkeyword "port" (by decide),
      if_neg Bool.false_ne_true, pure_bind_apply, parseServers, hkeyword "server" (by decide),
      if_neg Bool.false_ne_true, pure_bind_apply, isEndOf_of_not (hkeyword "end" (by decide)), hadd]
    exact congrFun (ite_self _) s

/-- Ports and entries do not get into each other's way. -/
theorem joinsAll_ports (cls : CString) (es : List ServerEntry) (ports : List Int32)
    (s : Loader n k) :
    joinsAll sys cls es (addPorts ports s) = addPorts ports (joinsAll sys cls es s) := by
  have hjoins (s : Loader n k) (e : ServerEntry) :
      joins cls (addPorts ports s) e = addPorts ports (joins cls s e) := rfl
  exact List.foldl_hom _ hjoins

theorem joinsAll_append (cls : CString) (es es' : List ServerEntry) (s : Loader n k) :
    joinsAll sys cls (es ++ es') s = joinsAll sys cls es' (joinsAll sys cls es s) := by
  rw [joinsAll, List.filter_append, List.foldl_append]
  rfl

theorem foldl_add_eq_joinsAll (cls : CString) (lines : List ClassLine) (s : Loader n k) :
    lines.foldl (ClassLine.add sys cls) s = joinsAll sys cls (lines.flatMap ClassLine.serverList)
      (addPorts (lines.flatMap ClassLine.portList) s) := by
  induction lines generalizing s with
  | nil => exact (addPorts_nil s).symm
  | cons l lines ih =>
    rw [List.foldl_cons, ih, ClassLine.add, List.flatMap_cons, List.flatMap_cons, joinsAll_append,
      ← joinsAll_ports, addPorts_addPorts]

/-- **What the lines of a class register**, if the server is named once at most. -/
theorem foldl_add (c : ClassSection)
    (hself : (c.lines.flatMap ClassLine.serverList).countP
      (fun e => parserIsMyClass sys e.host) ≤ 1) (s : Loader n k) :
    c.lines.foldl (ClassLine.add sys c.name) s = c.register sys s := by
  rw [foldl_add_eq_joinsAll, joinsAll, ClassSection.register, ClassSection.self?,
    ← List.head?_filter]
  rw [List.countP_eq_length_filter] at hself
  generalize (c.lines.flatMap ClassLine.serverList).filter
    (fun e => parserIsMyClass sys e.host) = own at hself ⊢
  rcases own with - | ⟨e, - | ⟨e', es⟩⟩
  · rfl
  · rfl
  · exact absurd hself (by simp)

/-- **A class.** -/
theorem parserParseClass_parses {lines : List ClassLine}
    (hlines : Spelled raws (lines.map ClassLine.words)) (hclear : ∀ l ∈ lines, l.Clear sys)
    (hlast : words isspace last = endLine "class" more) (cls : CString) (rest : List CString)
    (s : Loader n k) :
    parserParseClass sys cls (raws ++ last :: rest) s
      = (some (true, rest), lines.foldl (ClassLine.add sys cls) s) := by
  induction lines generalizing raws s with
  | nil =>
    obtain rfl := List.forall₂_nil_right_iff.mp hlines
    obtain ⟨tok, htok, hend, hends⟩ := isEndOf_endLine (n := n) (k := k) hlast
    have hport : tok.is "port" = false := (Tok.is_of_eq hend _).trans (by decide)
    have hserver : tok.is "server" = false := (Tok.is_of_eq hend _).trans (by decide)
    have hcomment : tok.isComment = false := Tok.isComment_of_eq hend (by decide)
    rw [List.nil_append, parserParseClass, tokenize_of_some htok, pure_bind_apply, hcomment,
      if_neg Bool.false_ne_true, parsePorts, hport, if_neg Bool.false_ne_true, pure_bind_apply,
      parseServers, hserver, if_neg Bool.false_ne_true, pure_bind_apply, hends]
    rfl
  | cons l lines ih =>
    obtain ⟨raw, raws, hraw, hraws, rfl⟩ := List.forall₂_cons_right_iff.mp hlines
    rw [List.cons_append, parserParseClass_cons hraw (hclear l List.mem_cons_self)]
    exact ih hraws (fun l hl => hclear l (List.mem_cons_of_mem _ hl)) _

/-! ## Clients -/

/-- No line of a client ends it, unless it does. -/
theorem skipClient_cons (h : Holds (some line) ws)
    (hws : ∀ w more, ws = w :: more → strcaseeq w (ascii "end") = true →
      ∀ kind ∈ more.head?, strcaseeq kind (ascii "client") = false)
    (tok : Tok) (lines : List CString) :
    ∃ tok', (skipClient tok (line :: lines) : Program (Loader n k) _) = skipClient tok' lines := by
  rcases ws with - | ⟨w, more⟩
  · refine ⟨⟨[], none⟩, ?_⟩
    rw [skipClient, tokenize_of_some h.nil]
    rfl
  · obtain ⟨first, hfirst, hw, hrest⟩ := h.cons
    rw [skipClient, tokenize_of_some hfirst, pure_bind_apply]
    rcases hend : first.is "end" with - | -
    · exact ⟨first, rfl⟩
    · rw [Tok.is, hw] at hend
      rw [if_pos rfl]
      rcases more with - | ⟨kind, more⟩
      · refine ⟨⟨[], none⟩, ?_⟩
        rw [tokenize_of_some hrest.nil]
        rfl
      · obtain ⟨next, hnext, hkind, -⟩ := hrest.cons
        refine ⟨next, ?_⟩
        have hclient : next.is "client" = false := by
          rw [Tok.is, hkind]
          exact hws w (kind :: more) rfl hend kind rfl
        rw [tokenize_of_some hnext, pure_bind_apply, hclient]
        rfl

/-- **A client.** It is skipped, and the token that was read last is `client`. -/
theorem skipClient_eq (c : ClientSection) (hlines : Spelled raws c.lines)
    (hlast : words isspace last = endLine "client" more) (tok : Tok) (rest : List CString) :
    ∃ tok', tok'.token = ascii "client" ∧
      (skipClient tok (raws ++ last :: rest) : Program (Loader n k) _) = pure (tok', rest) := by
  have hnot := c.not_end
  generalize c.lines = lines at hlines hnot
  induction lines generalizing raws tok with
  | nil =>
    obtain rfl := List.forall₂_nil_right_iff.mp hlines
    obtain ⟨first, hfirst, hend, next, hnext, hclient⟩ := parserTokenize_endLine hlast
    refine ⟨next, hclient, ?_⟩
    have hendIs : first.is "end" = true := Tok.is_self hend
    have hclientIs : next.is "client" = true := Tok.is_self hclient
    simp only [List.nil_append, skipClient, tokenize_of_some hfirst, pure_bind_apply, hendIs,
      if_true, tokenize_of_some hnext, hclientIs]
  | cons ws lines ih =>
    obtain ⟨raw, raws, hraw, hraws, rfl⟩ := List.forall₂_cons_right_iff.mp hlines
    obtain ⟨tok', hskip⟩ := skipClient_cons (n := n) (k := k) hraw (hnot ws List.mem_cons_self) tok
      (raws ++ last :: rest)
    rw [List.cons_append, hskip]
    exact ih tok' hraws fun ws hws => hnot ws (List.mem_cons_of_mem _ hws)

/-! ## Events -/

/-- What a line of an event sets: the name and the path. -/
def EventLine.set (soundPath : CString) (v : Option CString × Option CString) :
    EventLine → Option CString × Option CString
  | .name w _ => (some w, v.2)
  | .path w _ => (v.1, some (soundPath ++ w))
  | .remark _ => v

/-- A line of an event. -/
theorem parserParseEvent_cons {l : EventLine} {soundPath : CString} (h : Holds (some line) l.words)
    (hl : ∀ w ∈ l.name?, strcaseeq w (ascii "path") = false) (hs : s.soundPath = some soundPath)
    (lines : List CString) (v : Option CString × Option CString) :
    parserParseEvent sys (line :: lines) v.1 v.2 s
      = parserParseEvent sys lines (l.set soundPath v).1 (l.set soundPath v).2 s := by
  rw [parserParseEvent]
  cases l with
  | name w remark =>
    obtain ⟨tok, htok, hkeyword, next, hnext, hw, hremark⟩ := Holds.keyLine h
    have hcomment : tok.isComment = false := Tok.isComment_of_eq hkeyword (by decide)
    have hname : tok.is "name" = true := Tok.is_self hkeyword
    have hpath : next.is "path" = false := by rw [Tok.is, hw]; exact hl w rfl
    simp only [tokenize_of_some htok, pure_bind_apply, hcomment, Bool.false_eq_true, if_false,
      parseName, hname, if_true, tokenize_of_some hnext, parsePath, hpath,
      isEndOf_of_remark hremark (show isKeyword "event" = true by decide), hw, EventLine.set]
  | path w remark =>
    obtain ⟨tok, htok, hkeyword, next, hnext, hw, hremark⟩ := Holds.keyLine h
    have hcomment : tok.isComment = false := Tok.isComment_of_eq hkeyword (by decide)
    have hname : tok.is "name" = false := (Tok.is_of_eq hkeyword _).trans (by decide)
    have hpath : parsePath tok v.2 s = (some (next, some (soundPath ++ w)), s) := by
      rw [parsePath, if_pos (Tok.is_self hkeyword), tokenize_of_some hnext,
        pure_bind_apply, get_bind, hs, hw]
      rfl
    simp only [tokenize_of_some htok, pure_bind_apply, hcomment, Bool.false_eq_true, if_false,
      parseName, hname, bind_of_some hpath,
      isEndOf_of_remark hremark (show isKeyword "event" = true by decide), EventLine.set]
  | remark remark =>
    obtain ⟨tok, htok, hplain⟩ := h.remarkLine
    have hkeyword (keyword : String) (hkeyword : isKeyword keyword = true) :
        tok.is keyword = false := Tok.is_eq_false hplain hkeyword
    simp only [tokenize_of_some htok, pure_bind_apply, parseName, hkeyword "name" (by decide),
      Bool.false_eq_true, if_false, parsePath, hkeyword "path" (by decide),
      isEndOf_of_not (hkeyword "end" (by decide)), ite_self, EventLine.set]

/-- What the lines of an event set. -/
theorem EventLine.foldl_set (soundPath : CString) (lines : List EventLine)
    (v : Option CString × Option CString) : lines.foldl (EventLine.set soundPath) v
      = ((lines.filterMap EventLine.name?).foldl (fun _ w => some w) v.1,
          (lines.filterMap EventLine.path?).foldl (fun _ w => some (soundPath ++ w)) v.2) := by
  induction lines generalizing v with
  | nil => rfl
  | cons l lines ih => cases l <;> exact ih _

/-- The lines of an event, up to its end. -/
theorem parserParseEvent_lines {lines : List EventLine} {soundPath : CString}
    (hlines : Spelled raws (lines.map EventLine.words))
    (hnames : ∀ w ∈ lines.filterMap EventLine.name?, strcaseeq w (ascii "path") = false)
    (hs : s.soundPath = some soundPath) (left : List CString)
    (v : Option CString × Option CString) :
    parserParseEvent sys (raws ++ left) v.1 v.2 s
      = parserParseEvent sys left (lines.foldl (EventLine.set soundPath) v).1
          (lines.foldl (EventLine.set soundPath) v).2 s := by
  induction lines generalizing raws v with
  | nil =>
    obtain rfl := List.forall₂_nil_right_iff.mp hlines
    rfl
  | cons l lines ih =>
    obtain ⟨raw, raws, hraw, hraws, rfl⟩ := List.forall₂_cons_right_iff.mp hlines
    have hl : ∀ w ∈ l.name?, strcaseeq w (ascii "path") = false := fun w hw =>
      hnames w (List.mem_filterMap.mpr ⟨l, List.mem_cons_self, hw⟩)
    rw [List.cons_append, parserParseEvent_cons hraw hl hs]
    refine ih hraws (fun w hw => hnames w ?_) _
    obtain ⟨l', hl', hw⟩ := List.mem_filterMap.mp hw
    exact List.mem_filterMap.mpr ⟨l', List.mem_cons_of_mem _ hl', hw⟩

/-- **An event.** -/
theorem parserParseEvent_parses (e : EventSection) {soundPath : CString}
    (hlines : Spelled raws (e.lines.map EventLine.words))
    (hlast : words isspace last = endLine "event" more)
    (hname : strcaseeq e.name (ascii "path") = false) (hs : s.soundPath = some soundPath)
    (rest : List CString) :
    Parses s (parserParseEvent sys (raws ++ last :: rest) none none) rest
      (parserLoadEventSndDir sys e.name (soundPath ++ e.path)) := by
  have hnames : ∀ w ∈ e.lines.filterMap EventLine.name?, strcaseeq w (ascii "path") = false := by
    rw [e.names_eq]
    exact fun w hw => List.mem_singleton.mp hw ▸ hname
  have hset : parserParseEvent sys (raws ++ last :: rest) none none s
      = parserParseEvent sys (last :: rest) (some e.name) (some (soundPath ++ e.path)) s := by
    rw [parserParseEvent_lines hlines hnames hs (last :: rest) (none, none), EventLine.foldl_set,
      e.names_eq, e.paths_eq]
    rfl
  obtain ⟨tok, htok, hend, hends⟩ := isEndOf_endLine (n := n) (k := k) hlast
  have hcomment : tok.isComment = false := Tok.isComment_of_eq hend (by decide)
  have hnameNot : tok.is "name" = false := (Tok.is_of_eq hend _).trans (by decide)
  have hpathNot : tok.is "path" = false := (Tok.is_of_eq hend _).trans (by decide)
  refine ⟨rest, hset.trans ?_⟩
  simp only [parserParseEvent, tokenize_of_some htok, pure_bind_apply, hcomment,
    Bool.false_eq_true, if_false, parseName, hnameNot, parsePath, hpathNot, hends, if_true,
    ite_self]

end Peep
