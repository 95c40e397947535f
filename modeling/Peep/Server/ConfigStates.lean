import Peep.Server.ConfigRun

/-!
# The numbers of the states

The number of a state is the index of its channel in the mixer, whose arrays have `k` elements. In
the classic format as well as in a theme, a state is allocated with the number `state_cnt` without a
look at `k`; only `parserLoadStateSndDir` compares the two, and if no channel is left, then it
counts the state as if it had been registered.

## Choices

A theme may read an element of `thresholds` that was never written, or one behind the array. The run
ends there in the model. The program goes on with what is in memory, of which nothing is said.

## Main results

* `Loader.Stable.carries_parserParseState` — what a state in the classic format keeps
* `statesSafe_iff` — the runs in which all numbers of states are those of channels
-/

namespace Peep

open Bytes Decimal Program StepSystem

variable {n k : ℕ}

/-! ## What is asked of the numbers -/

/-- The mixer has been called for channels that there are, and the entries of states in the sound
table have such numbers, each its own. -/
structure Loader.StatesSafe (s : Loader n k) : Prop where
  /-- The calls. -/
  called_lt : ∀ j ∈ s.called, j < k
  /-- The entries. -/
  index_lt : ∀ e ∈ stateEntries s.table, e.2 < k
  /-- No number is used twice. -/
  nodup : ((stateEntries s.table).map Prod.snd).Nodup

/-- What is kept besides: the numbers that have been used are those below `state_cnt`. -/
structure Loader.StatesBelow (s : Loader n k) : Prop extends s.StatesSafe where
  /-- The entries. -/
  index_lt_stateCnt : ∀ e ∈ stateEntries s.table, e.2 < s.stateCnt

/-! ## What the parser keeps -/

/-- A predicate that, besides, does not depend on the paths and what the server is told. -/
structure Loader.Lasting (P : Loader n k → Prop) : Prop extends Loader.Stable P where
  /-- What the other sections set. -/
  settings : ∀ s path stack ports identifier port, P s →
    P { s with soundPath := path, importStack := stack, ports := ports, identifier := identifier,
               port := port }

section Carries

variable {P Q : Loader n k → Prop} {sys : System}

theorem carries_tokenize (r : Option CString) : Carries P P (tokenize r) :=
  carries_ofOption (fun _ h => h) _

theorem carries_isEndOf (tok : Tok) (keyword : String) : Carries P P (isEndOf tok keyword) :=
  carries_ite (fun _ => (carries_tokenize _).next fun _ => carries_pure (fun _ h => h) _)
    fun _ => carries_pure (fun _ h => h) _

theorem carries_parseName (tok : Tok) (name : Option CString) : Carries P P (parseName tok name) :=
  carries_ite (fun _ => (carries_tokenize _).next fun _ => carries_pure (fun _ h => h) _)
    fun _ => carries_pure (fun _ h => h) _

theorem carries_parsePath (tok : Tok) (path : Option CString) :
    Carries P P (parsePath tok path) := by
  refine carries_ite (fun _ => (carries_tokenize _).next fun tok => ?_)
    fun _ => carries_pure (fun _ h => h) _
  exact carries_get_bind fun s hs =>
    ((carries_ofOption (fun _ h => h) _).next fun _ => carries_pure (fun _ h => h) _) s hs

/-- The client section. -/
theorem carries_skipClient (tok : Tok) (lines : List CString) :
    Carries P P (skipClient tok lines) := by
  induction lines generalizing tok with
  | nil => exact carries_pure (fun _ h => h) _
  | cons line lines ih =>
    refine (carries_tokenize _).next fun tok => carries_ite (fun _ => ?_) fun _ => ih tok
    exact (carries_tokenize _).next fun tok =>
      carries_ite (fun _ => carries_pure (fun _ h => h) _) fun _ => ih tok

/-- The end of a state. -/
theorem carries_registerState_of (htable : ∀ s t, P s → P { s with table := t })
    (hcount : ∀ s j, P s → P { s with stateCnt := j }) (name : Option CString) :
    Carries P P (registerState name) := by
  cases name with
  | none => exact carries_pure (fun _ h => h) _
  | some name =>
    have hinsert : ∀ index, Carries P P (engineSoundTableInsertState name index) := by
      intro index s hs
      rw [engineSoundTableInsertState, callInsert]
      split
      · exact hs
      · exact htable s _ hs
    refine carries_get_bind fun s hs => ?_
    exact ((hinsert s.stateCnt).next fun _ => (carries_change fun s hs => hcount s _ hs).next
      fun _ => carries_pure (fun _ h => h) _) s hs

/-- **The general section.** -/
theorem carries_parserParseGeneral (hP : ∀ s path, P s → P { s with soundPath := path })
    (lines : List CString) : Carries P P (parserParseGeneral sys lines) := by
  have hversion : ∀ tok, Carries P P (parseVersion sys tok) := fun tok =>
    carries_ite (fun _ => (carries_tokenize _).next fun _ =>
      (carries_ofOption (fun _ h => h) _).next fun _ => carries_pure (fun _ h => h) _)
      fun _ => carries_pure (fun _ h => h) _
  have hpath : ∀ tok, Carries P P (parseSoundPath tok) := fun tok =>
    carries_ite (fun _ => (carries_tokenize _).next fun _ =>
      (carries_change fun s hs => hP s _ hs).next fun _ => carries_pure (fun _ h => h) _)
      fun _ => carries_pure (fun _ h => h) _
  induction lines with
  | nil => exact carries_pure (fun _ h => h) _
  | cons line lines ih =>
    refine (carries_tokenize _).next fun tok => (hversion tok).next fun version => ?_
    cases version with
    | none => exact carries_pure (fun _ h => h) _
    | some tok =>
      exact (hpath tok).next fun tok => (carries_isEndOf tok _).next fun ends =>
        carries_ite (fun _ => carries_pure (fun _ h => h) _) fun _ => ih

/-- **A class.** -/
theorem carries_parserParseClass (hP : ∀ s ports identifier port, P s →
      P { s with ports := ports, identifier := identifier, port := port })
    (cls : CString) (lines : List CString) : Carries P P (parserParseClass sys cls lines) := by
  have hport : ∀ port, Carries P P (serverAddBroadcastPort port) := fun port =>
    carries_change fun s hs => hP s _ s.identifier s.port hs
  have hports : ∀ toks, Carries P P (parsePortsLoop toks) := by
    intro toks
    induction toks with
    | nil => exact carries_crash fun _ h => h
    | cons tok toks ih =>
      exact carries_ite (fun _ => ih) fun _ => carries_ite (fun _ => carries_pure (fun _ h => h) _)
        fun _ => (hport _).next fun _ => ih
  have hentry : ∀ host entry, Carries P P (parseServerEntry sys cls host entry) := by
    intro host entry
    induction entry with
    | nil => exact carries_pure (fun _ h => h) _
    | cons c q ih =>
      exact carries_ite (fun _ => carries_change fun s hs => hP s s.ports _ _ hs) fun _ => ih
  have hservers : ∀ toks, Carries P P (parseServersLoop sys cls toks) := by
    intro toks
    induction toks with
    | nil => exact carries_crash fun _ h => h
    | cons tok toks ih =>
      exact (hentry _ _).next fun _ =>
        carries_ite (fun _ => carries_pure (fun _ h => h) _) fun _ => ih
  induction lines with
  | nil => exact carries_pure (fun _ h => h) _
  | cons line lines ih =>
    refine (carries_tokenize _).next fun tok => carries_ite (fun _ => ih) fun _ => ?_
    refine Carries.next (carries_ite (fun _ => hports _) fun _ => carries_pure (fun _ h => h) _)
      fun tok => ?_
    refine Carries.next (carries_ite (fun _ => hservers _) fun _ => carries_pure (fun _ h => h) _)
      fun tok => ?_
    exact (carries_isEndOf tok _).next fun ends =>
      carries_ite (fun _ => carries_pure (fun _ h => h) _) fun _ => ih

/-- A file that is opened. -/
theorem Loader.Lasting.carries_openConfigFile (hP : Lasting P) (file : CString) :
    Carries P P (openConfigFile sys file) := by
  rw [openConfigFile]
  cases parserDirname file with
  | none => exact carries_get_bind fun s hs => carries_pure (fun _ h => h) _ s hs
  | some dir =>
    refine (carries_change fun s hs => ?_).next fun _ => carries_pure (fun _ h => h) _
    split_ifs
    · exact hs
    · exact hP.settings s s.soundPath _ s.ports s.identifier s.port hs

namespace Loader.Stable

/-- **An event.** -/
theorem carries_parserParseEvent (hP : Stable P) (lines : List CString)
    (name path : Option CString) : Carries P P (parserParseEvent sys lines name path) := by
  induction lines generalizing name path with
  | nil => exact carries_pure (fun _ h => h) _
  | cons line lines ih =>
    refine (carries_tokenize _).next fun tok => carries_ite (fun _ => ih name path) fun _ => ?_
    refine (carries_parseName tok name).next fun ⟨tok, name⟩ => ?_
    refine (carries_parsePath tok path).next fun ⟨tok, path⟩ => ?_
    refine (carries_isEndOf tok _).next fun ends => carries_ite (fun _ => ?_) fun _ => ih name path
    rcases name with - | name
    · exact carries_pure (fun _ h => h) _
    · rcases path with - | path
      · exact carries_pure (fun _ h => h) _
      · exact (hP.carries_parserLoadEventSndDir sys name path).next fun _ =>
          carries_pure (fun _ h => h) _

/-- **A threshold.** -/
theorem carries_parserParseThreshold (hP : Stable P) (threshCnt : ℕ) (lines : List CString)
    (v : ThresholdVars) : Carries P P (parserParseThreshold sys threshCnt lines v) := by
  have hlower : Carries P P (lowerBound threshCnt) :=
    carries_get_bind fun s hs => carries_ite (fun _ => carries_ofOption (fun _ h => h) _)
      (fun _ => carries_pure (fun _ h => h) _) s hs
  have hlevel : ∀ tok v, Carries P P (parseLevel sys threshCnt tok v) := fun tok v =>
    carries_ite (fun _ => (carries_tokenize _).next fun _ => hlower.next fun _ =>
      carries_pure (fun _ h => h) _) fun _ => carries_pure (fun _ h => h) _
  have hfade : ∀ tok v, Carries P P (parseFade sys tok v) := fun tok v =>
    carries_ite (fun _ => (carries_tokenize _).next fun _ => carries_pure (fun _ h => h) _)
      fun _ => carries_pure (fun _ h => h) _
  induction lines generalizing v with
  | nil => exact carries_pure (fun _ h => h) _
  | cons line lines ih =>
    refine (carries_tokenize _).next fun tok => carries_ite (fun _ => ih v) fun _ => ?_
    refine (hlevel tok v).next fun ⟨tok, v⟩ => ?_
    refine (carries_parsePath tok v.path).next fun ⟨tok, path⟩ => ?_
    refine (hfade tok _).next fun ⟨tok, v⟩ => ?_
    refine (carries_isEndOf tok _).next fun ends => carries_ite (fun _ => ?_) fun _ => ih v
    exact carries_ite (fun _ => (hP.carries_parserLoadStateSndDir sys _ _ _ _ _).next fun _ =>
      carries_pure (fun _ h => h) _) fun _ => carries_crash fun _ h => h

/-- The second loop of a state. -/
theorem carries_parseStateLoop (hP : Stable P) (hQ : ∀ s, P s → Q s)
    (hregister : ∀ name, Carries P Q (registerState name)) (turns : ℕ) (lines : List CString)
    (name : Option CString) (tCount : ℕ) :
    Carries P Q (parseStateLoop sys turns lines name tCount) := by
  induction turns generalizing lines name tCount with
  | zero =>
    cases lines with
    | nil => exact carries_pure hQ _
    | cons line lines => exact carries_crash hQ
  | succ turns ih =>
    cases lines with
    | nil => exact carries_pure hQ _
    | cons line lines =>
      refine (carries_tokenize _).bind (fun tok => ?_) hQ
      refine carries_ite (fun _ => ih lines name tCount) fun _ => ?_
      refine (carries_parseName tok name).bind (fun ⟨tok, name⟩ => ?_) hQ
      have hthreshold : Carries P P (parseThreshold sys tok lines tCount) :=
        carries_ite (fun _ => (hP.carries_parserParseThreshold tCount lines _).next fun _ =>
          carries_pure (fun _ h => h) _) fun _ => carries_pure (fun _ h => h) _
      refine hthreshold.bind (fun ⟨loaded, lines, tCount⟩ => ?_) hQ
      refine carries_ite (fun _ => carries_pure hQ _) fun _ => ?_
      refine (carries_isEndOf tok _).bind (fun ends => ?_) hQ
      refine carries_ite (fun _ => ?_) fun _ => ih lines name tCount
      exact (hregister name).bind (fun _ => carries_pure (fun _ h => h) _) fun _ h => h

/-- **A state.** -/
theorem carries_parserParseState (hP : Stable P) (hQ : ∀ s, P s → Q s)
    (hregister : ∀ name, Carries P Q (registerState name)) {s : Loader n k} {lines : List CString}
    (hs : (lookAhead lines 0).isSome = true →
      ∀ m, P { s with mixer := m, called := s.called ++ [s.stateCnt] })
    (hcrash : lookAhead lines 0 = none → Q s) : Q (parserParseState sys lines s).2 := by
  rw [parserParseState]
  cases hlook : lookAhead lines 0 with
  | none => exact hcrash hlook
  | some found =>
    obtain ⟨threshCnt, reset⟩ := found
    have halloc : Carries (· = s) P (callMixer s.stateCnt fun m =>
        m.mixerAllocNewState s.stateCnt threshCnt) := by
      rintro _ rfl
      exact callMixer_leads (hs (by rw [hlook]; rfl))
    exact halloc.bind (fun _ => hP.carries_parseStateLoop hQ hregister _ _ none 0) hQ s rfl

end Loader.Stable

end Carries

/-! ## Steps -/

section Steps

variable {s : Loader n k} {sys : System}

/-- Only a state that is registered changes the entries. -/
theorem statesBelow_of_perm {t : SoundTable SoundData} (h : s.StatesBelow)
    (hperm : (stateEntries t).Perm (stateEntries s.table)) :
    Loader.StatesBelow { s with table := t } where
  called_lt := h.called_lt
  index_lt e he := h.index_lt e (hperm.mem_iff.mp he)
  nodup := (hperm.map Prod.snd).nodup_iff.mpr h.nodup
  index_lt_stateCnt e he := h.index_lt_stateCnt e (hperm.mem_iff.mp he)

/-- A number that is left out. -/
theorem Loader.StatesBelow.skip (h : s.StatesBelow) :
    Loader.StatesBelow { s with stateCnt := s.stateCnt + 1 } :=
  ⟨⟨h.called_lt, h.index_lt, h.nodup⟩, fun e he => Nat.lt_succ_of_lt (h.index_lt_stateCnt e he)⟩

/-- **The invariant is kept** outside of the beginnings and the ends of states. -/
theorem lasting_statesBelow : Loader.Lasting (Loader.StatesBelow (n := n) (k := k)) where
  mixer _ _ h hlt :=
    ⟨⟨fun j hj => (List.mem_append.mp hj).elim (h.called_lt j) fun hj =>
      List.mem_singleton.mp hj ▸ hlt, h.index_lt, h.nodup⟩, h.index_lt_stateCnt⟩
  skip _ h _ := h.skip
  event _ _ _ _ _ h hinsert := statesBelow_of_perm h (stateEntries_insert_event hinsert)
  trans _ _ h := ⟨⟨h.called_lt, h.index_lt, h.nodup⟩, h.index_lt_stateCnt⟩
  count _ _ h := ⟨⟨h.called_lt, h.index_lt, h.nodup⟩, h.index_lt_stateCnt⟩
  settings _ _ _ _ _ _ h := ⟨⟨h.called_lt, h.index_lt, h.nodup⟩, h.index_lt_stateCnt⟩

/-- Inside a state, there is a channel for it. -/
theorem lasting_inState :
    Loader.Lasting fun s : Loader n k => s.StatesBelow ∧ s.stateCnt < k where
  mixer s m h hlt := ⟨lasting_statesBelow.mixer s m h.1 hlt, hlt⟩
  skip _ h hle := absurd h.2 hle.not_gt
  event s name event status t h hinsert :=
    ⟨lasting_statesBelow.event s name event status t h.1 hinsert, h.2⟩
  trans s t h := ⟨lasting_statesBelow.trans s t h.1, h.2⟩
  count s c h := ⟨lasting_statesBelow.count s c h.1, h.2⟩
  settings s path stack ports identifier port h :=
    ⟨lasting_statesBelow.settings s path stack ports identifier port h.1, h.2⟩

/-- The mixer has been called for a channel that there is not. -/
def Loader.Strays (s : Loader n k) : Prop := ∃ j ∈ s.called, k ≤ j

/-- This is not forgotten. -/
theorem lasting_strays : Loader.Lasting (Loader.Strays (n := n) (k := k)) where
  mixer _ _ := fun ⟨j, hj, hle⟩ _ => ⟨j, List.mem_append_left _ hj, hle⟩
  skip _ h _ := h
  event _ _ _ _ _ h _ := h
  trans _ _ h := h
  count _ _ h := h
  settings _ _ _ _ _ _ h := h

/-- **A state is registered.** -/
theorem Loader.StatesBelow.register {name : CString} {result : EngineStatus × SoundTable SoundData}
    (h : s.StatesBelow) (hk : result.1 = .success → s.stateCnt < k)
    (hinsert : engineSoundTableInsert s.table ⟨name, STATE_T, .state s.stateCnt⟩ = some result) :
    Loader.StatesBelow { s with table := result.2, stateCnt := s.stateCnt + 1 } := by
  have hperm := stateEntries_insert hinsert
  have hentry : (stateEntry ⟨name, STATE_T, .state s.stateCnt⟩).toList = [(name, s.stateCnt)] := rfl
  rw [hentry] at hperm
  by_cases hsuccess : result.1 = .success
  · rw [if_pos hsuccess] at hperm
    have hmem : ∀ e ∈ stateEntries result.2, e = (name, s.stateCnt) ∨ e ∈ stateEntries s.table :=
      fun e he => List.mem_cons.mp (hperm.mem_iff.mp he)
    refine ⟨⟨h.called_lt, fun e he => ?_, ?_⟩, fun e he => ?_⟩
    · rcases hmem e he with rfl | he
      · exact hk hsuccess
      · exact h.index_lt e he
    · refine (hperm.map Prod.snd).nodup_iff.mpr (List.nodup_cons.mpr ⟨fun hmem => ?_, h.nodup⟩)
      obtain ⟨e, he, heq⟩ := List.mem_map.mp hmem
      exact (h.index_lt_stateCnt e he).ne heq
    · rcases hmem e he with rfl | he
      · exact Nat.lt_succ_self _
      · exact Nat.lt_succ_of_lt (h.index_lt_stateCnt e he)
  · rw [if_neg hsuccess] at hperm
    exact statesBelow_of_perm h.skip hperm

/-- The end of a state in the classic format. -/
theorem carries_registerState (name : Option CString) :
    Carries (fun s : Loader n k => s.StatesBelow ∧ s.stateCnt < k) Loader.StatesBelow
      (registerState name) := by
  rintro s ⟨hs, hlt⟩
  rcases name with - | name
  · exact hs
  · cases hinsert : engineSoundTableInsert s.table ⟨name, STATE_T, .state s.stateCnt⟩ with
    | none =>
      have hcall : engineSoundTableInsertState name s.stateCnt s = (none, s) :=
        callInsert_of_none hinsert
      show Loader.StatesBelow ((engineSoundTableInsertState name s.stateCnt >>= fun _ => _) s).2
      rw [bind_of_none hcall]
      exact hs
    | some result =>
      have hcall : engineSoundTableInsertState name s.stateCnt s
          = (some result.1, { s with table := result.2 }) := callInsert_of_some hinsert
      show Loader.StatesBelow ((engineSoundTableInsertState name s.stateCnt >>= fun _ => _) s).2
      rw [bind_of_some hcall]
      exact hs.register (fun _ => hlt) hinsert

/-! ## Runs -/

/-- The call of a handler begins a state. -/
def SecondPassInfo.beginsState (info : SecondPassInfo) (call : XmlCall) : Prop :=
  match call.token with
  | .start tag => info.context = .state ∧ strcaseeq tag (ascii "state") = true ∧
      (intAt info.thresholds info.threshIndex).isSome
  | _ => False

/-- The call of a handler puts a state in the sound table. -/
def SecondPassInfo.putsState (info : SecondPassInfo) (s : Loader n k) (call : XmlCall) : Prop :=
  match call.token with
  | .stop tag => info.registers tag ∧ ∀ name ∈ info.name,
      (engineSoundTableInsert s.table ⟨name, STATE_T, .state s.stateCnt⟩).map Prod.fst
        = some .success
  | _ => False

/-- The next step of a run begins a state, or it puts one in the sound table. -/
def ConfigRun.usesState (r : ConfigRun n k) : Prop :=
  match r.frames with
  | .test .state tok lines :: _ => tok.is "state" = true ∧ (lookAhead lines 0).isSome
  | .secondPass info (call :: _) :: _ => info.beginsState call ∨ info.putsState r.loader call
  | _ => False

/-- The run has a channel for the state of the next step. -/
def ConfigRun.Fits (r : ConfigRun n k) : Prop := r.usesState → r.loader.stateCnt < k

/-- A step is one of the innermost call. -/
theorem configStep_cons (sys : System) (frame : ConfigFrame) (below : List ConfigFrame)
    (status : Option ParserStatus) (s : Loader n k) :
    ∃ r, configStep sys ⟨frame :: below, status, s⟩ () = some r ∧
      r.loader = (stepFrame sys frame s).2 := by
  rcases hstep : stepFrame sys frame s with ⟨_ | ⟨frames | error⟩, s'⟩
  · exact ⟨_, configStep_of_none hstep, rfl⟩
  · exact ⟨_, configStep_of_goesOn hstep, rfl⟩
  · exact ⟨_, configStep_of_fails hstep, rfl⟩

/-- A call of a handler of the second pass. -/
theorem statesBelow_secondPass {info : SecondPassInfo} {call : XmlCall} (hs : s.StatesBelow)
    (hfits : info.beginsState call ∨ info.putsState s call → s.stateCnt < k) :
    ((secondPassHandlers sys).call info call s).2.StatesBelow := by
  have hP := (lasting_statesBelow (n := n) (k := k)).toStable
  obtain ⟨token, behind⟩ := call
  cases token with
  | start tag =>
    exact keeps_secondPassStart info tag hs fun hcontext htag hcount m =>
      hP.mixer s m hs (hfits (.inl ⟨hcontext, htag, hcount⟩))
  | text text =>
    rw [XmlHandlers.call_text]
    cases createXmlNormalizedString (text ++ behind) text.length with
    | none => exact hs
    | some string => exact hP.carries_secondPassChar info string s hs
  | stop tag =>
    show (xmlParseSecondPassEnd sys info tag s).2.StatesBelow
    by_cases hregisters : info.registers tag
    · obtain ⟨name, hname, hend⟩ := secondPassEnd_of_registers hregisters sys s
      rw [hend]
      cases hinsert : engineSoundTableInsert s.table ⟨name, STATE_T, .state s.stateCnt⟩ with
      | none => exact hs
      | some result =>
        refine hs.register (fun hsuccess => hfits (.inr ⟨hregisters, fun name' hname' => ?_⟩))
          hinsert
        obtain rfl := Option.some.inj (hname.symm.trans hname')
        rw [hinsert, Option.map_some, hsuccess]
    · exact hP.carries_secondPassEnd hregisters s hs

/-- **What a step keeps** that does not open a file, parse a state or call a handler of the second
pass. -/
theorem Loader.Stable.keeps_stepFrame {P : Loader n k → Prop} (hP : Stable P)
    (hpath : ∀ s path, P s → P { s with soundPath := path })
    (hset : ∀ s ports identifier port, P s →
      P { s with ports := ports, identifier := identifier, port := port })
    {frame : ConfigFrame} (hs : P s)
    (himport : ∀ tok lines, frame = .test .import tok lines → P (stepFrame sys frame s).2)
    (hstate : ∀ tok lines, frame = .test .state tok lines → P (stepFrame sys frame s).2)
    (hsecond : ∀ info call left, frame = .secondPass info (call :: left) →
      P (stepFrame sys frame s).2) : P (stepFrame sys frame s).2 := by
  have hpure : ∀ outcome : ConfigOutcome, Carries P P (pure outcome : Program (Loader n k) _) :=
    fun outcome => carries_pure (fun _ h => h) outcome
  cases frame with
  | line lines =>
    cases lines with
    | nil => exact hs
    | cons line lines =>
      exact ((carries_tokenize _).next fun tok =>
        carries_ite (fun _ => hpure _) fun _ => hpure _ : Carries _ _ _) s hs
  | test test tok lines =>
    cases test with
    | general =>
      exact (carries_ite (fun _ => (carries_parserParseGeneral hpath lines).next fun _ => hpure _)
        fun _ => hpure _ : Carries _ _ _) s hs
    | cls =>
      exact (carries_ite (fun _ => (carries_tokenize _).next fun tok =>
        (carries_parserParseClass hset _ lines).next fun _ => hpure _) fun _ => hpure _ :
          Carries _ _ _) s hs
    | client =>
      exact (carries_ite (fun _ => (carries_tokenize _).next fun tok =>
        (carries_skipClient _ lines).next fun _ => hpure _) fun _ => hpure _ : Carries _ _ _) s hs
    | event =>
      exact (carries_ite (fun _ => (hP.carries_parserParseEvent lines none none).next
        fun _ => hpure _) fun _ => hpure _ : Carries _ _ _) s hs
    | state => exact hstate tok lines rfl
    | «import» => exact himport tok lines rfl
    | theme =>
      exact (carries_ite (fun _ => (carries_tokenize _).next fun tok => by
        cases sys.contents tok.token with
        | none => exact hpure _
        | some contents =>
          exact carries_ite (fun _ => carries_crash fun _ h => h)
            fun _ => carries_get_bind fun s hs => hpure _ s hs) fun _ => hpure _ :
              Carries _ _ _) s hs
  | firstPass info left calls parsed =>
    cases left with
    | nil => exact hs
    | cons call left => exact ((hP.carries_firstPass info call).next fun _ => hpure _) s hs
  | secondPass info left =>
    cases left with
    | nil =>
      exact (Carries.next (carries_get_bind fun s hs => carries_ite
        (fun _ => carries_pure (fun _ h => h) _) (fun _ => carries_crash fun _ h => h) s hs)
        fun _ => hpure _ : Carries _ _ _) s hs
    | cons call left => exact hsecond info call left rfl

/-- **A step whose state has a channel.** -/
theorem statesBelow_stepFrame {frame : ConfigFrame} {below : List ConfigFrame}
    {status : Option ParserStatus} (hs : s.StatesBelow)
    (hfits : ConfigRun.Fits ⟨frame :: below, status, s⟩) :
    (stepFrame sys frame s).2.StatesBelow := by
  have hP := lasting_statesBelow (n := n) (k := k)
  have hpure : ∀ outcome : ConfigOutcome,
      Carries Loader.StatesBelow Loader.StatesBelow (pure outcome : Program (Loader n k) _) :=
    fun outcome => carries_pure (fun _ h => h) outcome
  refine hP.keeps_stepFrame
    (fun s path => hP.settings s path s.importStack s.ports s.identifier s.port)
    (fun s => hP.settings s s.soundPath s.importStack) hs ?_ ?_ ?_
  · rintro tok lines rfl
    exact (carries_ite (fun _ => (carries_tokenize _).next fun tok =>
      (hP.carries_openConfigFile tok.token).next fun lines => by
        cases lines <;> exact hpure _) fun _ => hpure _ : Carries _ _ _) s hs
  · rintro tok lines rfl
    show (stepTest sys tok lines .state s).2.StatesBelow
    by_cases hstate : tok.is "state" = true
    · have hparse : Carries (· = s) Loader.StatesBelow (parserParseState sys lines) := by
        rintro _ rfl
        refine lasting_inState.carries_parserParseState (fun _ h => h.1) carries_registerState
          (fun hlook m => ?_) fun _ => hs
        have hlt := hfits ⟨hstate, hlook⟩
        exact ⟨hP.mixer _ m hs hlt, hlt⟩
      rw [stepTest, if_pos hstate]
      exact hparse.bind (fun _ => hpure _) (fun _ h => h) s rfl
    · rw [stepTest, if_neg hstate]
      exact hs
  · rintro info call left rfl
    have hcall : Carries (· = s) Loader.StatesBelow
        ((secondPassHandlers sys).call info call) := by
      rintro _ rfl
      exact statesBelow_secondPass hs hfits
    exact hcall.bind (fun _ => hpure _) (fun _ h => h) s rfl

/-- What `<state>` calls. -/
theorem secondPassStart_of_state {info : SecondPassInfo} {tag : CString} {count : ℕ}
    (hcontext : info.context = .state) (htag : strcaseeq tag (ascii "state") = true)
    (hcount : intAt info.thresholds info.threshIndex = some count) (s : Loader n k) :
    (xmlParseSecondPassStart info tag s).2
      = (callMixer s.stateCnt (fun m => m.mixerAllocNewState s.stateCnt count) s).2 := by
  have hother : ∀ name, strcaseeq tag name = strcaseeq (ascii "state") name := fun name => by
    rw [strcaseeq_comm, strcaseeq_congr htag, strcaseeq_comm]
  have htheme : ¬ strcaseeq (ascii "state") (ascii "theme") = true := by decide
  have hevents : ¬ strcaseeq (ascii "state") (ascii "events") = true := by decide
  have hstates : ¬ strcaseeq (ascii "state") (ascii "states") = true := by decide
  have hevent : ¬ XmlContext.state = .event := by decide
  simp only [xmlParseSecondPassStart, hother, hcontext, hcount, ofOption_some, if_neg htheme,
    if_neg hevents, if_neg hstates, if_neg hevent, strcaseeq_self, if_true, pure_bind_apply,
    get_bind]
  rcases hcall : callMixer s.stateCnt (fun m => m.mixerAllocNewState s.stateCnt count) s with
    ⟨- | status, s'⟩
  · rw [bind_of_none hcall]
  · rw [bind_of_some hcall]
    rfl

/-- A call for a channel that there is not. -/
theorem Loader.Strays.not_statesSafe (h : s.Strays) : ¬ s.StatesSafe := by
  obtain ⟨j, hj, hle⟩ := h
  exact fun hsafe => (hsafe.called_lt j hj).not_ge hle

/-- A call for a state that has no channel. -/
theorem strays_called (hk : k ≤ s.stateCnt) (m : Mixer n k) :
    Loader.Strays { s with mixer := m, called := s.called ++ [s.stateCnt] } :=
  ⟨s.stateCnt, List.mem_append_right _ (List.mem_singleton_self _), hk⟩

/-- A state of the configuration file that has no channel. -/
theorem carries_parserParseState_strays (sys : System) {lines : List CString}
    (hk : k ≤ s.stateCnt) (hlook : (lookAhead lines 0).isSome) :
    Carries (· = s) Loader.Strays (parserParseState sys lines) := by
  rintro _ rfl
  have hregister : ∀ name, Carries (Loader.Strays (n := n) (k := k)) Loader.Strays
      (registerState name) := carries_registerState_of (fun _ _ h => h) fun _ _ h => h
  refine lasting_strays.carries_parserParseState (fun _ h => h) hregister
    (fun _ m => strays_called hk m) fun hnone => ?_
  rw [hnone] at hlook
  cases hlook

/-- A state of a theme that has no channel. -/
theorem not_statesSafe_call {info : SecondPassInfo} {call : XmlCall}
    (huses : info.beginsState call ∨ info.putsState s call) (hk : k ≤ s.stateCnt) :
    ¬ ((secondPassHandlers sys).call info call s).2.StatesSafe := by
  obtain ⟨token, behind⟩ := call
  rcases huses with hbegins | hputs
  · cases token with
    | start tag =>
      obtain ⟨hcontext, htag, hcount⟩ := hbegins
      obtain ⟨count, hcount⟩ := Option.isSome_iff_exists.mp hcount
      show ¬ (xmlParseSecondPassStart info tag _).2.StatesSafe
      rw [secondPassStart_of_state hcontext htag hcount]
      exact (callMixer_leads (P := Loader.Strays) (strays_called hk)).not_statesSafe
    | text text => exact hbegins.elim
    | stop tag => exact hbegins.elim
  · cases token with
    | start tag => exact hputs.elim
    | text text => exact hputs.elim
    | stop tag =>
      obtain ⟨hregisters, htakes⟩ := hputs
      obtain ⟨name, hname, hend⟩ := secondPassEnd_of_registers hregisters sys _
      obtain ⟨result, hinsert, hsuccess⟩ := Option.map_eq_some_iff.mp (htakes name hname)
      show ¬ (xmlParseSecondPassEnd sys info tag _).2.StatesSafe
      rw [hend, hinsert]
      have hperm := stateEntries_insert hinsert
      rw [if_pos hsuccess] at hperm
      intro hsafe
      exact (hsafe.index_lt (name, _) (hperm.mem_iff.mpr List.mem_cons_self)).not_ge hk

/-- **A step whose state has no channel.** -/
theorem not_statesSafe_stepFrame {frame : ConfigFrame} {below : List ConfigFrame}
    {status : Option ParserStatus} (huses : ConfigRun.usesState ⟨frame :: below, status, s⟩)
    (hk : k ≤ s.stateCnt) : ¬ (stepFrame sys frame s).2.StatesSafe := by
  cases frame with
  | line lines => exact huses.elim
  | test test tok lines =>
    cases test with
    | state =>
      obtain ⟨hstate, hlook⟩ := huses
      show ¬ (stepTest sys tok lines .state s).2.StatesSafe
      rw [stepTest, if_pos hstate]
      have hparse := carries_parserParseState_strays sys hk hlook
      exact (hparse.bind (fun _ => carries_pure (fun _ h => h) _)
        (fun _ h => h) s rfl).not_statesSafe
    | general => exact huses.elim
    | cls => exact huses.elim
    | client => exact huses.elim
    | event => exact huses.elim
    | «import» => exact huses.elim
    | theme => exact huses.elim
  | firstPass info left calls parsed => exact huses.elim
  | secondPass info left =>
    rcases left with - | ⟨call, left⟩
    · exact huses.elim
    · have hcall : Carries (· = s) (fun s => ¬ s.StatesSafe)
          ((secondPassHandlers sys).call info call) := by
        rintro _ rfl
        exact not_statesSafe_call huses hk
      exact hcall.bind (fun _ => carries_pure (fun _ h => h) _) (fun _ h => h) s rfl

/-- **The runs in which all numbers of states are those of channels.** -/
theorem statesSafe_iff (sys : System) (file : CString) (port : Int32) (run : List Unit) :
    (∀ before after r, run = before ++ after →
      exec (configStep sys) (parserParseConfigFile sys file (Loader.start n k port)) before
        = some r → r.loader.StatesSafe) ↔
      Along (configStep sys) (fun r _ => r.Fits)
        (parserParseConfigFile sys file (Loader.start n k port)) run := by
  have hempty : stateEntries (Loader.start n k port).table = [] := stateEntries_empty
  have hstart : (Loader.start n k port).StatesBelow :=
    ⟨⟨fun _ hj => (List.not_mem_nil hj).elim,
      fun _ he => (List.not_mem_nil (hempty ▸ he)).elim, by rw [hempty]; exact List.nodup_nil⟩,
      fun _ he => (List.not_mem_nil (hempty ▸ he)).elim⟩
  have hopen : (parserParseConfigFile sys file (Loader.start n k port)).loader.StatesBelow := by
    have hleads : (openConfigFile sys file (Loader.start n k port)).2.StatesBelow :=
      lasting_statesBelow.carries_openConfigFile file _ hstart
    rw [parserParseConfigFile]
    rcases hfile : openConfigFile sys file (Loader.start n k port) with ⟨_ | - | lines, s⟩
    all_goals
      rw [hfile] at hleads
      exact hleads
  rw [forall_prefix_iff, and_iff_right hopen.toStatesSafe]
  refine along_iff_of_invariant (I := fun r => r.loader.StatesBelow) ?_ ?_ hopen
  · rintro ⟨frames, status, s⟩ ⟨⟩ r' hs hfits hstep
    rcases frames with - | ⟨frame, below⟩
    · cases hstep
    · obtain ⟨r, hr, hloader⟩ := configStep_cons sys frame below status s
      obtain rfl := Option.some.inj (hr.symm.trans hstep)
      rw [hloader]
      exact statesBelow_stepFrame hs hfits
  · rintro ⟨frames, status, s⟩ ⟨⟩ hs
    rcases frames with - | ⟨frame, below⟩
    · exact ⟨fun _ huses => huses.elim, fun _ r' hstep => nomatch hstep⟩
    · obtain ⟨r, hr, hloader⟩ := configStep_cons sys frame below status s
      constructor
      · intro hsafe huses
        by_contra hlt
        have hstray : ¬ (stepFrame sys frame s).2.StatesSafe :=
          not_statesSafe_stepFrame huses (not_lt.mp hlt)
        exact hstray (hloader ▸ hsafe r hr)
      · intro hfits r' hstep
        obtain rfl := Option.some.inj (hr.symm.trans hstep)
        rw [hloader]
        exact (statesBelow_stepFrame hs hfits).toStatesSafe

/-- A system in which each file has these contents, and there is nothing else. -/
def oneFile (contents : List UInt8) : System where
  readdir := fun _ => none
  contents := fun _ => some contents
  strtod := fun _ => 0
  expat := fun _ => ([], true)
  hostent := none
  inetAton := fun _ => none
  packageVersion := ascii "0.5.1"

/-- States without thresholds. -/
def statesFile (names : List String) : List UInt8 :=
  names.flatMap fun name => ascii "state\nname " ++ ascii name ++ ascii "\nend state\n"

/-- A file with five states, if there are four channels. -/
theorem not_statesSafe_five : ¬ ∀ before after r, List.replicate 38 () = before ++ after →
    exec (configStep (oneFile (statesFile ["a", "b", "c", "d", "e"])))
      (parserParseConfigFile (oneFile (statesFile ["a", "b", "c", "d", "e"])) (ascii "peep.conf")
        (Loader.start 12 4 2000)) before = some r → r.loader.StatesSafe := by
  intro h
  have hcalled : (exec (configStep (oneFile (statesFile ["a", "b", "c", "d", "e"])))
      (parserParseConfigFile (oneFile (statesFile ["a", "b", "c", "d", "e"])) (ascii "peep.conf")
        (Loader.start 12 4 2000)) (List.replicate 38 ())).map
          (fun r => r.loader.called) = some [0, 1, 2, 3, 4] := by decide +kernel
  obtain ⟨r, hr, hcalled⟩ := Option.map_eq_some_iff.mp hcalled
  have hlt := (h _ [] r (List.append_nil _).symm hr).called_lt 4 (by rw [hcalled]; decide)
  exact absurd hlt (by decide)

end Steps

end Peep
