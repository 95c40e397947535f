import Peep.Server.ConfigStates
import Peep.Server.ConfigThresholds

/-!
# Parsing a file in the documented format

A file in the documented format is a list of sections, and its lines have their words. The parser
goes from section to section: a run comes from the first line of one to the first line of the next,
and what was done in between is what the section registers.

The tests for other keywords that are made with the token of a section do nothing, except that the
tests behind `class` see the name of the class.

## Main results

* `reaches_section` — a section
* `registerSections_settings` — the ports, the classes and the sound path of a file
* `parserParseConfigFile_registers` — a file registers what its sections have
-/

namespace Peep

open Bytes Decimal Program Text StepSystem

variable {n k : ℕ} {sys : System} {raw : CString} {raws rest : List CString} {tok : Tok}
  {ws more : List CString} {wss : List (List CString)} {s : Loader n k} {soundPath : CString}

/-! ## Lines -/

/-- These lines have been read, and they have these words. Only the last one may lack its
newline. -/
structure Read (raws : List CString) (wss : List (List CString)) : Prop where
  /-- The words. -/
  words_eq : List.Forall₂ (fun raw ws => words isspace raw = ws) raws wss
  /-- A newline is at the end. -/
  newline : ∀ raw ∈ raws, 10 ∉ raw.dropLast
  /-- It is there. -/
  getLast : ∀ raw ∈ raws.dropLast, raw.getLast? = some 10

/-- The line is there with its newline. -/
theorem Read.holds (h : Read (raw :: raws) (ws :: wss)) (hne : raws ≠ []) :
    Holds (some raw) ws := by
  obtain ⟨hwords, -⟩ := List.forall₂_cons.mp h.words_eq
  have hlast := h.getLast raw (by rw [List.dropLast_cons_of_ne_nil hne]; exact List.mem_cons_self)
  refine ⟨raw, rfl, fun c hc => ?_, hwords⟩
  obtain rfl := Option.some.inj (hlast.symm.trans hc)
  decide

theorem Read.tail (h : Read (raw :: raws) (ws :: wss)) : Read raws wss where
  words_eq := (List.forall₂_cons.mp h.words_eq).2
  newline := fun raw hraw => h.newline raw (List.mem_cons_of_mem _ hraw)
  getLast := by
    rcases raws with - | ⟨raw', raws⟩
    · exact fun _ h => nomatch h
    · exact fun raw hraw => h.getLast raw (List.mem_cons_of_mem _ hraw)

/-- The lines of a section in front of its end, and the end. -/
theorem Read.upToEnd {closing : List CString} {lines : List (List CString)}
    (h : Read raws (lines ++ closing :: wss)) :
    ∃ mid fin rest, raws = mid ++ fin :: rest ∧ Spelled mid lines ∧
      words isspace fin = closing ∧ Read rest wss := by
  induction lines generalizing raws with
  | nil =>
    obtain ⟨fin, rest, hfin, -, rfl⟩ := List.forall₂_cons_right_iff.mp h.words_eq
    exact ⟨[], fin, rest, rfl, .nil, hfin, h.tail⟩
  | cons ws lines ih =>
    obtain ⟨raw, raws, -, -, rfl⟩ := List.forall₂_cons_right_iff.mp h.words_eq
    obtain ⟨mid, fin, rest, rfl, hmid, hfin, hrest⟩ := ih h.tail
    exact ⟨raw :: mid, fin, rest, rfl, .cons (h.holds (by simp)) hmid, hfin, hrest⟩

/-- The lines of a section. -/
theorem Read.parts {opening closing : List CString} {lines : List (List CString)}
    (h : Read raws ((opening :: (lines ++ [closing])) ++ wss)) :
    ∃ raw mid fin rest, raws = raw :: (mid ++ fin :: rest) ∧
      Read (raw :: (mid ++ fin :: rest)) (opening :: (lines ++ closing :: wss)) ∧
      Spelled mid lines ∧ words isspace fin = closing ∧ Read rest wss := by
  rw [List.cons_append, List.append_assoc, List.singleton_append] at h
  obtain ⟨raw, raws, -, -, rfl⟩ := List.forall₂_cons_right_iff.mp h.words_eq
  obtain ⟨mid, fin, rest, rfl, hmid, hfin, hrest⟩ := h.tail.upToEnd
  exact ⟨raw, mid, fin, rest, rfl, h, hmid, hfin, hrest⟩

/-- A line that begins with a newline has no words. -/
theorem Read.head_ne_newline (h : Read (raw :: raws) (ws :: wss)) (hws : ws ≠ []) :
    raw.head? ≠ some 10 := by
  intro hhead
  obtain ⟨hwords, -⟩ := List.forall₂_cons.mp h.words_eq
  have hnewline := h.newline raw List.mem_cons_self
  rcases raw with - | ⟨c, - | ⟨d, raw⟩⟩
  · cases hhead
  · obtain rfl := Option.some.inj hhead
    exact hws hwords.symm
  · obtain rfl := Option.some.inj hhead
    exact hnewline List.mem_cons_self

/-- A line that begins with `#` has a word that does. -/
theorem Read.head_ne_comment {w : CString} (h : Read (raw :: raws) ((w :: more) :: wss))
    (hw : w.head? ≠ some 35) : raw.head? ≠ some 35 := by
  intro hhead
  obtain ⟨hwords, -⟩ := List.forall₂_cons.mp h.words_eq
  rcases raw with - | ⟨c, raw⟩
  · cases hhead
  · obtain rfl := Option.some.inj hhead
    rw [words_cons_of_not_blank (by decide)] at hwords
    obtain ⟨rfl, -⟩ := List.cons.inj hwords
    exact hw rfl

/-! ## Tests -/

/-- The keywords of the tests, in their order. -/
def testKeyword : ℕ → String
  | 0 => "general"
  | 1 => "class"
  | 2 => "client"
  | 3 => "event"
  | 4 => "state"
  | 5 => "import"
  | _ => "theme"

/-- A call at one of the tests, or behind them. -/
def testAt (tok : Tok) (lines : List CString) : ℕ → ConfigFrame
  | 0 => .test .general tok lines
  | 1 => .test .cls tok lines
  | 2 => .test .client tok lines
  | 3 => .test .event tok lines
  | 4 => .test .state tok lines
  | 5 => .test .import tok lines
  | 6 => .test .theme tok lines
  | _ => .line lines

/-- A test for another keyword. -/
theorem stepFrame_testAt {i : ℕ} (hi : i < 7) (h : tok.is (testKeyword i) = false)
    (lines : List CString) (s : Loader n k) :
    stepFrame sys (testAt tok lines i) s = (some (.goesOn [testAt tok lines (i + 1)]), s) := by
  interval_cases i
  all_goals
    simp only [testKeyword] at h
    simp only [testAt, stepFrame, stepTest, h, Bool.false_eq_true, if_false, pure_apply]

/-- **The tests for other keywords.** -/
theorem reaches_testAt {i j : ℕ} (hij : i ≤ j) (hj : j ≤ 7)
    (h : ∀ m < j, i ≤ m → tok.is (testKeyword m) = false) (lines : List CString)
    (s : Loader n k) :
    Reaches sys ⟨[testAt tok lines i], none, s⟩ ⟨[testAt tok lines j], none, s⟩ := by
  induction j, hij using Nat.le_induction with
  | base => exact .refl sys _
  | succ j hij ih =>
    refine (ih (Nat.le_of_succ_le hj) fun m hm hi => h m (Nat.lt_succ_of_lt hm) hi).trans ?_
    exact .goesOn (stepFrame_testAt hj (h j (Nat.lt_succ_self j) hij) lines s)

/-! ## Sections -/

/-- No name of the section is taken for a keyword, nor is anything in its remarks taken for a port
or the server, and the server belongs to it once. -/
def ConfigSection.Clear (sys : System) : ConfigSection → Prop
  | .general _ | .client _ | .remark _ => True
  | .cls c =>
    (∀ keyword ∈ ["client", "event", "state", "import", "theme"],
      strcaseeq c.name (ascii keyword) = false) ∧ (∀ l ∈ c.lines, l.Clear sys) ∧
    (c.lines.flatMap ClassLine.serverList).countP (fun e => parserIsMyClass sys e.host) ≤ 1
  | .event e => strcaseeq e.name (ascii "path") = false
  | .state x =>
    strcaseeq x.name (ascii "threshold") = false ∧
    ∀ t ∈ x.thresholds, strcaseeq t.path (ascii "fade") = false

instance ConfigSection.decidableClear (sys : System) :
    (x : ConfigSection) → Decidable (x.Clear sys)
  | .general _ | .client _ | .remark _ => .isTrue trivial
  | .cls c => inferInstanceAs (Decidable (
      (∀ keyword ∈ ["client", "event", "state", "import", "theme"],
        strcaseeq c.name (ascii keyword) = false) ∧ (∀ l ∈ c.lines, l.Clear sys) ∧
      (c.lines.flatMap ClassLine.serverList).countP (fun e => parserIsMyClass sys e.host) ≤ 1))
  | .event e => inferInstanceAs (Decidable (strcaseeq e.name (ascii "path") = false))
  | .state x => inferInstanceAs (Decidable (strcaseeq x.name (ascii "threshold") = false ∧
      ∀ t ∈ x.thresholds, strcaseeq t.path (ascii "fade") = false))

/-- The section has paths that are relative to the sound path. -/
def ConfigSection.usesPath : ConfigSection → Bool
  | .event _ => true
  | .state x => !x.thresholds.isEmpty
  | _ => false

/-- Where the parser goes on, or what it returns. -/
def afterRegister (rest : List CString) :
    Option (Option ParserStatus) × Loader n k → ConfigRun n k
  | (none, s) => ⟨[], none, s⟩
  | (some none, s) => ⟨[.line rest], none, s⟩
  | (some (some status), s) => ⟨[], some status, s⟩

theorem failed_singleton (frame : ConfigFrame) (error : ParserStatus) :
    failed [frame] error = error := by
  have hle : [frame].countP ConfigFrame.isFile ≤ 1 := List.countP_le_length
  exact if_neg (not_lt.mpr hle)

/-- **The test for a section that is there.** -/
theorem reaches_afterRegister {i : ℕ} {lines : List CString}
    (test : ConfigTest) (error : ParserStatus) (tok' : Tok)
    {p : Program (Loader n k) (Bool × List CString)} {q : Program (Loader n k) Bool}
    (hparse : Parses s p rest q)
    (hstep : stepFrame sys (testAt tok lines i)
      = p >>= fun parsed => pure (afterSection parsed error test tok'))
    (hrest : ∀ t : Loader n k,
      Reaches sys ⟨[.test test tok' rest], none, t⟩ ⟨[.line rest], none, t⟩) :
    Reaches sys ⟨[testAt tok lines i], none, s⟩
      (afterRegister rest ((q >>= fun ok => pure (if ok then none else some error)) s)) := by
  obtain ⟨left, hleft⟩ := hparse
  rcases hq : q s with ⟨- | ok, t⟩
  · rw [bind_of_none hq] at hleft ⊢
    exact .of_step (configStep_of_none (hstep ▸ bind_of_none hleft))
  · rw [bind_of_some hq] at hleft ⊢
    have hframe := (congrFun hstep s).trans (bind_of_some hleft)
    cases ok with
    | false =>
      refine .of_step ((configStep_of_fails hframe).trans ?_)
      rw [failed_singleton]
      rfl
    | true => exact (Reaches.goesOn hframe).trans (hrest t)

/-- A token that is a keyword: the tests for others. -/
theorem reaches_keyword {i j : ℕ} (hij : i ≤ j) (hj : j ≤ 7) {keyword : String}
    (htoken : tok.token = ascii keyword)
    (h : ∀ m < j, i ≤ m → strcaseeq (ascii keyword) (ascii (testKeyword m)) = false)
    (lines : List CString) (s : Loader n k) :
    Reaches sys ⟨[testAt tok lines i], none, s⟩ ⟨[testAt tok lines j], none, s⟩ :=
  reaches_testAt hij hj (fun m hm hi => (Tok.is_of_eq htoken _).trans (h m hm hi)) lines s

/-- The line that opens a section. -/
theorem reaches_opening (sys : System) (j : ℕ) {keyword : String} {lines : List (List CString)}
    (h : Read (raw :: raws) ((ascii keyword :: more) :: lines)) (hne : raws ≠ [])
    (hkeyword : isKeyword keyword = true) (hj : j ≤ 7)
    (hothers : ∀ m < j, strcaseeq (ascii keyword) (ascii (testKeyword m)) = false)
    (s : Loader n k) :
    ∃ tok, tok.token = ascii keyword ∧ Holds tok.remainder more ∧
      Reaches sys ⟨[.line (raw :: raws)], none, s⟩ ⟨[testAt tok raws j], none, s⟩ := by
  obtain ⟨tok, htok, htoken, hmore⟩ := (h.holds hne).cons
  have hhead : (ascii keyword).head? ≠ some 35 := by
    intro hhead
    rw [isKeyword, hhead] at hkeyword
    exact absurd hkeyword (by decide)
  refine ⟨tok, htoken, hmore, Reaches.trans ?_
    (reaches_keyword (Nat.zero_le j) hj htoken (fun m hm _ => hothers m hm) raws s)⟩
  refine .next ?_
  show (tokenize (some raw) >>= _) s = _
  rw [tokenize_of_some htok, pure_bind_apply, if_neg]
  · rfl
  · rintro (hcomment | hnewline)
    · exact h.head_ne_comment hhead hcomment
    · exact h.head_ne_newline (List.cons_ne_nil _ _) hnewline

/-- **The general section.** -/
theorem reaches_general (g : GeneralSection) (h : Read raws (g.words ++ wss)) (s : Loader n k) :
    ∃ rest, Read rest wss ∧ Reaches sys ⟨[.line raws], none, s⟩
      (afterRegister rest ((ConfigSection.general g).register sys soundPath s)) := by
  obtain ⟨raw, mid, fin, rest, rfl, hopening, hmid, hfin, hrest⟩ := Read.parts h
  refine ⟨rest, hrest, ?_⟩
  obtain ⟨tok, htoken, -, hreaches⟩ := reaches_opening sys 0 hopening (by simp)
    (by decide) (by decide) (by decide) s
  refine hreaches.trans (reaches_afterRegister .cls .generalError tok
    (parserParseGeneral_parses hmid hfin rest) ?_ ?_)
  · show stepTest sys tok _ .general = _
    rw [stepTest, if_pos (Tok.is_self htoken)]
  · exact fun t => reaches_keyword (i := 1) (j := 7) (by decide) le_rfl htoken (by decide) rest t

/-- **A class.** -/
theorem reaches_class (c : ClassSection) (h : Read raws (c.words ++ wss))
    (hclear : (ConfigSection.cls c).Clear sys) (s : Loader n k) :
    ∃ rest, Read rest wss ∧ Reaches sys ⟨[.line raws], none, s⟩
      (afterRegister rest ((ConfigSection.cls c).register sys soundPath s)) := by
  obtain ⟨hname, hlinesClear, hself⟩ := hclear
  obtain ⟨raw, mid, fin, rest, rfl, hopening, hmid, hfin, hrest⟩ := Read.parts h
  refine ⟨rest, hrest, ?_⟩
  obtain ⟨tok, htoken, hmore, hreaches⟩ := reaches_opening sys 1 hopening (by simp)
    (by decide) (by decide) (by decide) s
  obtain ⟨next, hnext, hnextToken, -⟩ := hmore.cons
  have hparse : Parses s (parserParseClass sys c.name (mid ++ fin :: rest)) rest
      (change (c.register sys) >>= fun _ => pure true) := by
    refine ⟨[], (parserParseClass_parses hmid hlinesClear hfin c.name rest s).trans ?_⟩
    rw [foldl_add c hself]
    rfl
  refine hreaches.trans (reaches_afterRegister .client .classError next hparse ?_ ?_)
  · show stepTest sys tok _ .cls = _
    rw [stepTest, if_pos (Tok.is_self htoken), tokenize_of_some hnext,
      pure_bind_apply, hnextToken]
  · refine fun t => reaches_testAt (i := 2) (j := 7) (by decide) le_rfl (fun m hm hi => ?_) rest t
    rw [Tok.is, hnextToken]
    interval_cases m <;> exact hname _ (by decide)

/-- **A client.** -/
theorem reaches_client (c : ClientSection) (h : Read raws (c.words ++ wss)) (s : Loader n k) :
    ∃ rest, Read rest wss ∧ Reaches sys ⟨[.line raws], none, s⟩
      (afterRegister rest ((ConfigSection.client c).register sys soundPath s)) := by
  obtain ⟨raw, mid, fin, rest, rfl, hopening, hmid, hfin, hrest⟩ := Read.parts h
  refine ⟨rest, hrest, ?_⟩
  obtain ⟨tok, htoken, hmore, hreaches⟩ := reaches_opening sys 2 hopening (by simp)
    (by decide) (by decide) (by decide) s
  obtain ⟨next, hnext, -, -⟩ := hmore.cons
  obtain ⟨last, hlast, hskip⟩ := skipClient_eq (n := n) (k := k) c hmid hfin next rest
  refine hreaches.trans (.trans (.next (?_ : _ = (_, s)))
    (reaches_keyword (i := 3) (j := 7) (by decide) le_rfl hlast (by decide) rest s))
  show stepTest sys tok _ .client s = _
  rw [stepTest, if_pos (Tok.is_self htoken), tokenize_of_some hnext,
    pure_bind_apply, hskip]
  rfl

/-- **An event.** -/
theorem reaches_event (e : EventSection) (h : Read raws (e.words ++ wss))
    (hclear : (ConfigSection.event e).Clear sys) (hs : s.soundPath = some soundPath) :
    ∃ rest, Read rest wss ∧ Reaches sys ⟨[.line raws], none, s⟩
      (afterRegister rest ((ConfigSection.event e).register sys soundPath s)) := by
  obtain ⟨raw, mid, fin, rest, rfl, hopening, hmid, hfin, hrest⟩ := Read.parts h
  refine ⟨rest, hrest, ?_⟩
  obtain ⟨tok, htoken, -, hreaches⟩ := reaches_opening sys 3 hopening (by simp)
    (by decide) (by decide) (by decide) s
  refine hreaches.trans (reaches_afterRegister .state .eventError tok
    (parserParseEvent_parses e hmid hfin hclear hs rest) ?_ ?_)
  · show stepTest sys tok _ .event = _
    rw [stepTest, if_pos (Tok.is_self htoken)]
  · exact fun t => reaches_keyword (i := 4) (j := 7) (by decide) le_rfl htoken (by decide) rest t

/-- **A state.** -/
theorem reaches_state (x : StateSection) (h : Read raws (x.words ++ wss))
    (hclear : (ConfigSection.state x).Clear sys)
    (hs : x.thresholds ≠ [] → s.soundPath = some soundPath) :
    ∃ rest, Read rest wss ∧ Reaches sys ⟨[.line raws], none, s⟩
      (afterRegister rest ((ConfigSection.state x).register sys soundPath s)) := by
  obtain ⟨raw, mid, fin, rest, rfl, hopening, hmid, hfin, hrest⟩ := Read.parts h
  refine ⟨rest, hrest, ?_⟩
  obtain ⟨tok, htoken, -, hreaches⟩ := reaches_opening sys 4 hopening (by simp)
    (by decide) (by decide) (by decide) s
  refine hreaches.trans (reaches_afterRegister .import .stateError tok
    (parserParseState_parses x hmid hfin hclear.1 hclear.2 hs rest) ?_ ?_)
  · show stepTest sys tok _ .state = _
    rw [stepTest, if_pos (Tok.is_self htoken)]
  · exact fun t => reaches_keyword (i := 5) (j := 7) (by decide) le_rfl htoken (by decide) rest t

/-- **A line between the sections.** -/
theorem reaches_remark (remark : Remark) (h : Read raws ([remark.words] ++ wss))
    (s : Loader n k) :
    ∃ rest, Read rest wss ∧ Reaches sys ⟨[.line raws], none, s⟩ ⟨[.line rest], none, s⟩ := by
  obtain ⟨raw, rest, hwords, -, rfl⟩ := List.forall₂_cons_right_iff.mp h.words_eq
  refine ⟨rest, Read.tail h, ?_⟩
  obtain ⟨tok, htok, hplain⟩ := parserTokenize_remark hwords
  by_cases hskip : raw.head? = some 35 ∨ raw.head? = some 10
  · refine .next ?_
    show (tokenize (some raw) >>= _) s = _
    rw [tokenize_of_some htok, pure_bind_apply, if_pos hskip]
    rfl
  · have hline : stepFrame sys (.line (raw :: rest)) s
        = (some (.goesOn [testAt tok rest 0]), s) := by
      show (tokenize (some raw) >>= _) s = _
      rw [tokenize_of_some htok, pure_bind_apply, if_neg hskip]
      rfl
    refine (Reaches.goesOn hline).trans (reaches_testAt (j := 7) (by decide) le_rfl ?_ rest s)
    intro m hm _
    exact Tok.is_eq_false hplain (by interval_cases m <;> decide)

/-! ## The settings -/

/-- What a section sets. -/
def ConfigSection.set (sys : System) (c : Settings) : ConfigSection → Settings
  | .general g => { c with soundPath := some (g.path ++ [47]) }
  | .cls x =>
    let ports := c.ports ++ x.lines.flatMap ClassLine.portList
    match x.self? sys with
    | none => { c with ports := ports }
    | some e =>
      { c with ports := ports, identifier := serverAddIDClass c.identifier x.name,
               port := atoi e.port }
  | _ => c

theorem registerGeneral_settings {lines : List GeneralLine} {t : Loader n k}
    (h : registerGeneral sys lines s = (some true, t)) :
    t.settings = { s.settings with
      soundPath := (lines.filterMap GeneralLine.path?).foldl (fun _ p => some (p ++ [47]))
        s.soundPath } := by
  induction lines generalizing s with
  | nil =>
    obtain ⟨-, rfl⟩ := Prod.mk.inj h
    rfl
  | cons l lines ih =>
    obtain ⟨ok, s', hl, hlines⟩ := bind_eq_some_iff.mp h
    cases ok with
    | false => cases hlines
    | true =>
      rw [ih hlines]
      cases l with
      | version number remark =>
        obtain ⟨accepted, s'', haccepts, hs'⟩ := bind_eq_some_iff.mp hl
        obtain ⟨-, rfl⟩ := Prod.mk.inj hs'
        cases hversion : acceptsVersion sys number.text with
        | none =>
          rw [hversion] at haccepts
          cases haccepts
        | some result =>
          rw [hversion] at haccepts
          obtain ⟨-, rfl⟩ := Prod.mk.inj haccepts
          rfl
      | soundPath path remark =>
        obtain ⟨-, rfl⟩ := Prod.mk.inj hl
        rfl
      | remark remark =>
        obtain ⟨-, rfl⟩ := Prod.mk.inj hl
        rfl

theorem carries_loadThresholds_hasSettings (c : Settings) (threshCnt : ℕ)
    (ts : List ThresholdBlock) : Carries (HasSettings c) (HasSettings c)
      (loadThresholds sys soundPath threshCnt ts : Program (Loader n k) Bool) := by
  induction ts generalizing threshCnt with
  | nil => exact carries_pure (fun _ h => h) _
  | cons t ts ih =>
    exact (carries_loadThreshold (stable_hasSettings c) threshCnt t).next fun _ =>
      carries_ite (fun _ => ih _) fun _ => carries_pure (fun _ h => h) _

/-- A state sets nothing. -/
theorem carries_loadState_hasSettings (c : Settings) (name : CString)
    (ts : List ThresholdBlock) : Carries (HasSettings c) (HasSettings c)
      (loadState sys soundPath name ts : Program (Loader n k) Bool) := by
  refine carries_get_bind fun s hs => ?_
  exact ((carries_callMixer_hasSettings c s.stateCnt _).next fun _ =>
    (carries_loadThresholds_hasSettings c 0 ts).next fun _ =>
      carries_ite (fun _ => carries_registerState_of (fun _ _ h => h) (fun _ _ h => h) _)
        fun _ => carries_pure (fun _ h => h) _) s hs

/-- **The settings behind a section.** -/
theorem ConfigSection.register_settings {x : ConfigSection} {t : Loader n k}
    (h : x.register sys soundPath s = (some none, t)) : t.settings = x.set sys s.settings := by
  cases x with
  | general g =>
    obtain ⟨accepted, s', haccepted, hs'⟩ := bind_eq_some_iff.mp h
    cases accepted with
    | false => cases hs'
    | true =>
      obtain ⟨-, rfl⟩ := Prod.mk.inj hs'
      rw [registerGeneral_settings haccepted, g.paths_eq]
      rfl
  | cls c =>
    obtain ⟨-, rfl⟩ := Prod.mk.inj h
    show (c.register sys s).settings = _
    rw [ClassSection.register, ConfigSection.set]
    cases c.self? sys <;> rfl
  | client c =>
    obtain ⟨-, rfl⟩ := Prod.mk.inj h
    rfl
  | event e =>
    obtain ⟨loaded, s', hloaded, hs'⟩ := bind_eq_some_iff.mp h
    obtain ⟨-, rfl⟩ := Prod.mk.inj hs'
    have hleads := (stable_hasSettings (n := n) (k := k) s.settings).carries_parserLoadEventSndDir
      sys e.name (soundPath ++ e.path) s rfl
    rwa [hloaded] at hleads
  | state x =>
    obtain ⟨loaded, s', hloaded, hs'⟩ := bind_eq_some_iff.mp h
    obtain ⟨-, rfl⟩ := Prod.mk.inj hs'
    have hleads : HasSettings s.settings (loadState sys soundPath x.name x.thresholds s).2 :=
      carries_loadState_hasSettings s.settings x.name x.thresholds s rfl
    rwa [hloaded] at hleads
  | remark remark =>
    obtain ⟨-, rfl⟩ := Prod.mk.inj h
    rfl

/-- What a section returns if it fails is an error. -/
theorem ConfigSection.register_ne_success {x : ConfigSection} {status : ParserStatus}
    {t : Loader n k} (h : x.register sys soundPath s = (some (some status), t)) :
    status ≠ .success := by
  cases x with
  | general g =>
    obtain ⟨ok, s', -, hs'⟩ := bind_eq_some_iff.mp h
    cases ok <;> cases hs'
    decide
  | cls c => cases h
  | client c => cases h
  | event e =>
    obtain ⟨ok, s', -, hs'⟩ := bind_eq_some_iff.mp h
    cases ok <;> cases hs'
    decide
  | state x =>
    obtain ⟨ok, s', -, hs'⟩ := bind_eq_some_iff.mp h
    cases ok <;> cases hs'
    decide
  | remark remark => cases h

/-- The sound path is set by the general section only. -/
theorem ConfigSection.set_soundPath (sys : System) (c : Settings) (x : ConfigSection) :
    (x.set sys c).soundPath = (x.path?.map (· ++ [47])).or c.soundPath := by
  cases x with
  | cls x =>
    rw [ConfigSection.set]
    cases x.self? sys <;> rfl
  | _ => rfl

/-! ## Files -/

/-- The sound path is known where it is used. -/
def pathKnown : Bool → List ConfigSection → Bool
  | _, [] => true
  | known, x :: rest => (!x.usesPath || known) && pathKnown (known || x.path?.isSome) rest

/-- A section, of which the sound path is known if it is used. -/
theorem reaches_section (x : ConfigSection) (h : Read raws (x.words ++ wss)) (hclear : x.Clear sys)
    (hs : x.usesPath = true → s.soundPath = some soundPath) :
    ∃ rest, Read rest wss ∧ Reaches sys ⟨[.line raws], none, s⟩
      (afterRegister rest (x.register sys soundPath s)) := by
  cases x with
  | general g => exact reaches_general g h s
  | cls c => exact reaches_class c h hclear s
  | client c => exact reaches_client c h s
  | event e => exact reaches_event e h hclear (hs rfl)
  | state x =>
    refine reaches_state x h hclear fun hne => hs ?_
    rw [ConfigSection.usesPath, List.isEmpty_eq_false_iff.mpr hne]
    rfl
  | remark remark => exact reaches_remark remark h s

/-- **The sections of a file.** -/
theorem reaches_registerSections {sections : List ConfigSection} {known : Bool}
    (h : Read raws (sections.flatMap ConfigSection.words))
    (hclear : ∀ x ∈ sections, x.Clear sys)
    (hpaths : ∀ path ∈ sections.filterMap ConfigSection.path?, path ++ [47] = soundPath)
    (hknown : pathKnown known sections = true) (hs : known = true → s.soundPath = some soundPath) :
    Reaches sys ⟨[.line raws], none, s⟩ ⟨[], (registerSections sys soundPath sections s).1,
      (registerSections sys soundPath sections s).2⟩ := by
  induction sections generalizing raws known s with
  | nil =>
    obtain rfl := List.forall₂_nil_right_iff.mp h.words_eq
    have hstep : configStep sys ⟨[.line []], none, s⟩ () = some ⟨[], some .success, s⟩ := rfl
    exact .of_step hstep
  | cons x sections ih =>
    obtain ⟨hx, hknown⟩ := Bool.and_eq_true_iff.mp hknown
    obtain ⟨rest, hrest, hreaches⟩ := reaches_section x h (hclear x List.mem_cons_self)
      fun huses => hs (by rwa [huses] at hx)
    refine hreaches.trans ?_
    rcases hreg : x.register sys soundPath s with ⟨- | - | status, t⟩
    · rw [registerSections, bind_of_none hreg]
      exact .refl sys _
    · rw [registerSections, bind_of_some hreg]
      refine ih hrest (fun x hx => hclear x (List.mem_cons_of_mem _ hx)) (fun path hpath => ?_)
        hknown fun hk => ?_
      · obtain ⟨x', hx', hpath⟩ := List.mem_filterMap.mp hpath
        exact hpaths path (List.mem_filterMap.mpr ⟨x', List.mem_cons_of_mem _ hx', hpath⟩)
      · have hset := congrArg Settings.soundPath (ConfigSection.register_settings hreg)
        rw [ConfigSection.set_soundPath] at hset
        refine hset.trans ?_
        cases hpath : x.path? with
        | some path =>
          have hown := hpaths path (List.mem_filterMap.mpr ⟨x, List.mem_cons_self, hpath⟩)
          rw [Option.map_some, Option.some_or, hown]
        | none =>
          rw [hpath, Option.isSome_none, Bool.or_false] at hk
          exact hs hk
    · rw [registerSections, bind_of_some hreg]
      exact .refl sys _

/-- A configuration file in the documented format. -/
structure ConfigFile where
  /-- The lines in front of the last newline. -/
  lines : List CString
  /-- What stands behind it. -/
  last : CString
  /-- The sections. -/
  sections : List ConfigSection
  /-- No line has a zero or a newline. -/
  isText : ∀ line ∈ last :: lines, 0 ∉ line ∧ 10 ∉ line
  /-- The lines have the words of the sections. -/
  words_eq : (lines ++ if last = [] then [] else [last]).map (words isspace)
    = sections.flatMap ConfigSection.words
  /-- The sound path. -/
  path : CString
  /-- No other is declared. -/
  path_eq : ∀ p ∈ sections.filterMap ConfigSection.path?, p = path

namespace ConfigFile

variable {f : ConfigFile}

/-- The text of the file. -/
def contents (f : ConfigFile) : List UInt8 := f.lines.flatMap (· ++ [10]) ++ f.last

/-- The condition under which the file is read as documented. -/
structure Clear (sys : System) (s : Loader n k) (f : ConfigFile) : Prop where
  /-- The lines fit into the buffer. -/
  length_lt : ∀ line ∈ f.lines, line.length < 1023
  /-- So does the last one. -/
  length_le : f.last.length ≤ 1023
  /-- No word of a section is taken for another. -/
  clear : ∀ x ∈ f.sections, x.Clear sys
  /-- The general section stands in front of the paths, or the sound path is known before. -/
  pathKnown : pathKnown (decide (s.soundPath = some (f.path ++ [47]))) f.sections = true

/-- What `fgets` reads of the file. -/
theorem fgetsAll_contents (hlength : ∀ line ∈ f.lines, line.length < 1023)
    (hlast : f.last.length ≤ 1023) :
    fgetsAll f.contents
      = f.lines.map (· ++ [10]) ++ if f.last = [] then [] else [f.last] := by
  have hlines : ∀ line ∈ f.lines, 10 ∉ line ∧ line.length < 1023 := fun line hline =>
    ⟨(f.isText line (List.mem_cons_of_mem _ hline)).2, hlength line hline⟩
  have hlastText := f.isText f.last List.mem_cons_self
  have hzero : ∀ line ∈ f.lines, 0 ∉ line := fun line hline =>
    (f.isText line (List.mem_cons_of_mem _ hline)).1
  rw [fgetsAll, contents, readLines_flatMap hlines ⟨hlastText.2, hlast⟩, List.map_append,
    map_untilZero hzero]
  split_ifs
  · rfl
  · rw [List.map_singleton, untilZero_eq_self hlastText.1]

/-- **The lines that are read are those of the file.** -/
theorem read_contents (hlength : ∀ line ∈ f.lines, line.length < 1023)
    (hlast : f.last.length ≤ 1023) :
    Read (fgetsAll f.contents) (f.sections.flatMap ConfigSection.words) := by
  have hmap : (f.lines.map (· ++ [10])).map (words isspace) = f.lines.map (words isspace) := by
    rw [List.map_map]
    exact List.map_congr_left fun line _ => words_append_blank line (by decide)
  have hwords : (fgetsAll f.contents).map (words isspace)
      = f.sections.flatMap ConfigSection.words := by
    rw [← f.words_eq, fgetsAll_contents hlength hlast, List.map_append, List.map_append, hmap]
  rw [fgetsAll_contents hlength hlast] at hwords ⊢
  refine ⟨?_, ?_, ?_⟩
  · rw [← hwords]
    exact List.forall₂_map_right_iff.mpr (List.forall₂_same.mpr fun _ _ => rfl)
  · intro raw hraw
    rcases List.mem_append.mp hraw with hraw | hraw
    · obtain ⟨line, hline, rfl⟩ := List.mem_map.mp hraw
      rw [List.dropLast_concat]
      exact (f.isText line (List.mem_cons_of_mem _ hline)).2
    · split_ifs at hraw
      · cases hraw
      · obtain rfl := List.mem_singleton.mp hraw
        exact fun hmem => (f.isText _ List.mem_cons_self).2 (List.mem_of_mem_dropLast hmem)
  · intro raw hraw
    have hline : raw ∈ f.lines.map (· ++ [10]) := by
      split_ifs at hraw
      · rw [List.append_nil] at hraw
        exact List.mem_of_mem_dropLast hraw
      · rwa [List.dropLast_concat] at hraw
    obtain ⟨line, -, rfl⟩ := List.mem_map.mp hline
    exact List.getLast?_concat

end ConfigFile

/-- **What the sections set**, if all can be registered. -/
theorem registerSections_settings {sections : List ConfigSection} {t : Loader n k}
    (h : registerSections sys soundPath sections s = (some .success, t)) :
    t.settings = sections.foldl (ConfigSection.set sys) s.settings := by
  induction sections generalizing s with
  | nil =>
    obtain ⟨-, rfl⟩ := Prod.mk.inj h
    rfl
  | cons x sections ih =>
    obtain ⟨result, s', hx, hsections⟩ := bind_eq_some_iff.mp h
    cases result with
    | none => rw [ih hsections, ConfigSection.register_settings hx, List.foldl_cons]
    | some status =>
      obtain ⟨hstatus, -⟩ := Prod.mk.inj hsections
      exact absurd (Option.some.inj hstatus) (ConfigSection.register_ne_success hx)

/-- **A configuration file in the documented format** registers what its sections have, one after
the other. -/
theorem parserParseConfigFile_registers (sys : System) (f : ConfigFile) (file : CString)
    (start s : Loader n k)
    (hopen : openConfigFile sys file start = (some (some (fgetsAll f.contents)), s))
    (hclear : f.Clear sys s) :
    Reaches sys (parserParseConfigFile sys file start)
        ⟨[], (registerSections sys (f.path ++ [47]) f.sections s).1,
          (registerSections sys (f.path ++ [47]) f.sections s).2⟩ ∧
      ∀ t, registerSections sys (f.path ++ [47]) f.sections s = (some .success, t) →
        t.settings = f.sections.foldl (ConfigSection.set sys) s.settings := by
  have hpaths : ∀ p ∈ f.sections.filterMap ConfigSection.path?, p ++ [47] = f.path ++ [47] :=
    fun p hp => by rw [f.path_eq p hp]
  have hread := ConfigFile.read_contents hclear.length_lt hclear.length_le
  have hstart : parserParseConfigFile sys file start
      = ⟨[.line (fgetsAll f.contents)], none, s⟩ := by
    rw [parserParseConfigFile, hopen]
  rw [hstart]
  exact ⟨reaches_registerSections hread hclear.clear hpaths hclear.pathKnown of_decide_eq_true,
    fun _ => registerSections_settings⟩

theorem isComment_nil : ∀ w ∈ ([] : List CString).head?, w.head? = some 35 :=
  fun _ h => absurd h (Option.not_mem_none _)

/-- No remark. -/
def noRemark : Remark := ⟨[], isComment_nil⟩

/-- A file with all kinds of sections but events. -/
def quietFile : ConfigFile where
  lines := ["general # as it is", "  version 0.5.1", "  sound-path /sounds # absolute",
    "end general", "", "class test", "  port 2000 2001 #2002", "  server darktower:2001",
    "end class test", "# the clients", "client logparser", "  class test", "end client logparser",
    "state", "  name end # of the day"].map ascii
  last := ascii "end state"
  sections := [
    .general
      { opening := ⟨["#", "as", "it", "is"].map ascii, by decide⟩
        lines := [.version ⟨ascii "0.5.1", by decide⟩ noRemark,
          .soundPath (ascii "/sounds") ⟨["#", "absolute"].map ascii, by decide⟩]
        closing := []
        path := ascii "/sounds"
        paths_eq := rfl },
    .remark noRemark,
    .cls
      { name := ascii "test"
        opening := noRemark
        lines := [.ports [⟨ascii "2000", by decide⟩, ⟨ascii "2001", by decide⟩]
            ⟨["#2002"].map ascii, by decide⟩,
          .servers [⟨ascii "darktower", by decide, ascii "2001"⟩] noRemark]
        closing := ["test"].map ascii },
    .remark ⟨["#", "the", "clients"].map ascii, by decide⟩,
    .client
      { name := ascii "logparser"
        opening := noRemark
        lines := [["class", "test"].map ascii]
        not_end := by
          rintro _ hws w more rfl
          obtain ⟨rfl, rfl⟩ := List.cons.inj (List.mem_singleton.mp hws)
          decide
        closing := ["logparser"].map ascii },
    .state
      { opening := noRemark
        items := [.name (ascii "end") ⟨["#", "of", "the", "day"].map ascii, by decide⟩]
        closing := []
        name := ascii "end"
        names_eq := rfl }]
  isText := by decide
  words_eq := by decide
  path := ascii "/sounds"
  path_eq := by decide

/-- The example of a class in the documentation. -/
def classFile : ConfigFile where
  lines := ["class test", "  port 2000                   # Broadcast to clients use port 2000",
    "  server darktower:2001       # This says that server darktower is",
    "                              # responsible for this class and runs",
    "                              # on port 2001", "end class test"].map ascii
  last := []
  sections := [
    .cls
      { name := ascii "test"
        opening := noRemark
        lines := [
          .ports [⟨ascii "2000", by decide⟩]
            ⟨["#", "Broadcast", "to", "clients", "use", "port", "2000"].map ascii, by decide⟩,
          .servers [⟨ascii "darktower", by decide, ascii "2001"⟩]
            ⟨["#", "This", "says", "that", "server", "darktower", "is"].map ascii, by decide⟩,
          .remark ⟨["#", "responsible", "for", "this", "class", "and", "runs"].map ascii,
            by decide⟩,
          .remark ⟨["#", "on", "port", "2001"].map ascii, by decide⟩]
        closing := ["test"].map ascii }]
  isText := by decide
  words_eq := by decide
  path := []
  path_eq := by decide

/-- The example is read as the documentation has it. -/
theorem parserParseConfigFile_registers_quiet :
    openConfigFile (oneFile quietFile.contents) (ascii "peep.conf") (Loader.start 12 4 2000)
        = (some (some (fgetsAll quietFile.contents)), Loader.start 12 4 2000) ∧
      quietFile.Clear (oneFile quietFile.contents) (Loader.start 12 4 2000) ∧
      Reaches (oneFile quietFile.contents)
        (parserParseConfigFile (oneFile quietFile.contents) (ascii "peep.conf")
          (Loader.start 12 4 2000))
        ⟨[], (registerSections (oneFile quietFile.contents) (ascii "/sounds/") quietFile.sections
            (Loader.start 12 4 2000)).1,
          (registerSections (oneFile quietFile.contents) (ascii "/sounds/") quietFile.sections
            (Loader.start 12 4 2000)).2⟩ := by
  have hopen : openConfigFile (oneFile quietFile.contents) (ascii "peep.conf")
      (Loader.start 12 4 2000)
        = (some (some (fgetsAll quietFile.contents)), Loader.start 12 4 2000) := rfl
  have hclear : quietFile.Clear (oneFile quietFile.contents) (Loader.start 12 4 2000) :=
    ⟨by decide, by decide, by decide, by decide⟩
  exact ⟨hopen, hclear, (parserParseConfigFile_registers _ quietFile _ _ _ hopen hclear).1⟩

/-- In the example of the documentation, the words of the comment are registered as ports. -/
theorem not_parserParseConfigFile_registers :
    ¬ ∀ (sys : System) (f : ConfigFile) (file : CString) (start s : Loader 12 4),
      openConfigFile sys file start = (some (some (fgetsAll f.contents)), s) →
      Reaches sys (parserParseConfigFile sys file start)
        ⟨[], (registerSections sys (f.path ++ [47]) f.sections s).1,
          (registerSections sys (f.path ++ [47]) f.sections s).2⟩ := by
  intro h
  have hdoc := h (oneFile classFile.contents) classFile (ascii "peep.conf") _ _
    (show openConfigFile _ _ (Loader.start 12 4 2000) = _ from rfl)
  have hports : (exec (configStep (oneFile classFile.contents))
      (parserParseConfigFile (oneFile classFile.contents) (ascii "peep.conf")
        (Loader.start 12 4 2000)) (List.replicate 9 ())).map
          (fun r => (r.frames.isEmpty, r.loader.ports))
      = some (true, [2000, 0, 0, 0, 0, 0, 2000]) := by decide +kernel
  have hlisted : (registerSections (oneFile classFile.contents) (ascii "/") classFile.sections
      (Loader.start 12 4 2000)).2.ports = [2000] := by decide
  obtain ⟨r, hr, hrports⟩ := Option.map_eq_some_iff.mp hports
  obtain ⟨hframes, hrports⟩ := Prod.mk.inj hrports
  have heq := hdoc.eq_of_nil ⟨_, hr⟩ rfl (List.isEmpty_iff.mp hframes)
  rw [← heq] at hrports
  exact absurd (hlisted.symm.trans hrports) (by decide)

end Peep
