import Peep.Server.ThemeFormat

/-!
# The states of a theme

The second pass loads the sounds of the events and of the thresholds, with the counts of the first
pass, and registers the states. What registers a state, in `xmlParseSecondPassEnd`, stands under
`</states>`, and not under `</state>`: it registers the name that was set last, once, and
`state_cnt` is incremented there. So the states of a theme share one channel of the mixer.

## Choices

The theorem is about the themes whose thresholds resolve and load. Events need not: the name of an
event whose sounds cannot be loaded is kept, and registered as a state if there is none.

## Main results

* `secondPass_state` — what a state does to its channel
* `length_states_le` — at most one state is registered
* `registersStates_iff` — when the states of a theme are registered
-/

namespace Peep

open Bytes Decimal Program

variable {n k : ℕ} {sys : System}

/-! ## What is registered -/

/-- The thresholds of a state, from a lower bound on, with the sounds of the directories that
`find` says. -/
def themeThresholds (sys : System) (find : CString → Option CString) :
    ℚ → List ThemeThreshold → List Threshold
  | _, [] => []
  | lBound, t :: ts =>
    let hBound := sys.strtod t.level.text
    thresholdOf lBound hBound (((find t.sound.text).bind (directorySounds sys)).getD []) ::
      themeThresholds sys find hBound ts

/-- The events whose sounds are found and can be loaded. -/
def loadedEvents (sys : System) (events : List (CString × Option CString)) :
    List (CString × List Sound) :=
  events.filterMap fun e => (e.2.bind (directorySounds sys)).map fun sounds => (e.1, sounds)

/-- The sound table with some events. -/
def insertEvents (t : SoundTable SoundData) (events : List (CString × List Sound)) :
    Option (SoundTable SoundData) :=
  events.foldlM (fun t e => (engineSoundTableInsert t
    ⟨e.1, EVENT_T, .event (eventEntryOf e.2 0)⟩).map Prod.snd) t

/-- What is left of the name of an event after it: the name, if its sounds cannot be loaded. -/
def staleAfter (sys : System) (name : CString) (path : Option CString) : Option CString :=
  if path.any fun p => (directorySounds sys p).isNone then some name else none

/-- What is left of a name after some events. -/
def staleName (sys : System) : Option CString → List (CString × Option CString) → Option CString
  | name, [] => name
  | _, (name, path) :: rest => staleName sys (staleAfter sys name path) rest

section Events

variable {name : CString} {path : Option CString} {rest : List (CString × Option CString)}
  {sounds : List Sound} {table : SoundTable SoundData}

/-- An event whose sounds cannot be loaded. -/
theorem loadedEvents_cons_none (h : path.bind (directorySounds sys) = none) :
    loadedEvents sys ((name, path) :: rest) = loadedEvents sys rest :=
  List.filterMap_cons_none (by rw [h]; rfl)

/-- An event whose sounds are loaded. -/
theorem loadedEvents_cons_some (h : path.bind (directorySounds sys) = some sounds) :
    loadedEvents sys ((name, path) :: rest) = (name, sounds) :: loadedEvents sys rest :=
  List.filterMap_cons_some (by rw [h]; rfl)

/-- Its name is gone when it is over. -/
theorem staleAfter_of_some (h : path.bind (directorySounds sys) = some sounds) :
    staleAfter sys name path = none := by
  obtain ⟨p, rfl, hp⟩ := Option.bind_eq_some_iff.mp h
  rw [staleAfter, if_neg]
  rw [Option.any_some, hp]
  exact Bool.false_ne_true

/-- One event after the other. -/
theorem insertEvents_cons (events : List (CString × List Sound)) :
    insertEvents table ((name, sounds) :: events)
      = (engineSoundTableInsert table ⟨name, EVENT_T, .event (eventEntryOf sounds 0)⟩).bind
          fun result => insertEvents result.2 events := by
  rw [insertEvents, List.foldlM_cons]
  cases engineSoundTableInsert table ⟨name, EVENT_T, .event (eventEntryOf sounds 0)⟩ <;> rfl

end Events

/-! ## The second pass -/

section SecondPass

variable {info i : SecondPassInfo} {s s₁ : Loader n k} {tokens : List Token}
  {P : Loader n k → Prop}

/-- The second pass is in a state, whatever the last tag was. -/
def SecondAt (i : SecondPassInfo) (P : Loader n k → Prop) (info : SecondPassInfo)
    (s : Loader n k) : Prop :=
  (∃ tag, info = { i with currentTag := tag }) ∧ P s

/-- A token without a tag that the second pass looks at outside of events and states. -/
def Token.isQuietSecond : Token → Bool
  | .text _ => true
  | .start tag | .stop tag =>
    !(["events", "states"].any fun name => strcaseeq tag (ascii name))

/-- A part of the document that the second pass does not look at. -/
theorem secondPass_quiet (hi : i.context = .no) (h : tokens.all Token.isQuietSecond = true)
    (hinfo : SecondAt i P info s) :
    RunsTo (secondPassHandlers sys) tokens info s (SecondAt i P) := by
  refine RunsTo.of_keeps ?_ ?_ ?_ h hinfo
  · rintro name _ s hname ⟨⟨tag, rfl⟩, hP⟩
    simp [Token.isQuietSecond] at hname
    refine ⟨_, s, ?_, ⟨some name, rfl⟩, hP⟩
    show xmlParseSecondPassStart _ name s = _
    simp [xmlParseSecondPassStart, hname, hi]
  · rintro name _ s - ⟨⟨tag, rfl⟩, hP⟩
    refine ⟨_, s, ?_, ⟨tag, rfl⟩, hP⟩
    show xmlParseSecondPassEnd sys _ name s = _
    simp [xmlParseSecondPassEnd, hi]
  · rintro string _ s ⟨⟨tag, rfl⟩, hP⟩
    refine ⟨_, s, ?_, ⟨tag, rfl⟩, hP⟩
    show xmlParseSecondPassChar sys _ string s = _
    simp [xmlParseSecondPassChar, hi]

/-- A lookup that returns. -/
theorem callLookup_of_some {name : CString} {path : Option CString} {trans : List TransEntry}
    (h : xmlThemeLookupTransPath s.transTable name = some (path, trans)) :
    callLookup name s = (some path, s.withTrans trans) := by
  rw [callLookup, get_bind, h]
  rfl

/-! ### Events -/

/-- The loader with some events. -/
def Loader.withEvents (s : Loader n k) (trans : List TransEntry) (table : SoundTable SoundData)
    (count : ℕ) : Loader n k :=
  { s with transTable := trans, table := table, eventCnt := count }

/-- The data of the second pass between two events. -/
def SecondPassInfo.betweenEvents (thresholds : List (Option ℕ)) (name path : Option CString) :
    SecondPassInfo :=
  { SecondPassInfo.start thresholds with context := .event, name := name, path := path }

/-- The element of an event up to its end. -/
theorem secondPass_event_content (sys : System) (e : ThemeEvent) {trans trans' : List TransEntry}
    {found : Option CString}
    (hlook : xmlThemeLookupTransPath trans e.sound.text = some (found, trans'))
    (thresholds : List (Option ℕ)) (name path tag : Option CString) (s₁ : Loader n k)
    (table : SoundTable SoundData) (count : ℕ) :
    RunsTo (secondPassHandlers sys)
      (wordElement "name" e.name ++ wordElement "sound" e.sound ++
        textElement "description" e.description)
      { SecondPassInfo.betweenEvents thresholds name path with currentTag := tag }
      (s₁.withEvents trans table count)
      (SecondAt (.betweenEvents thresholds (some e.name.text) found)
        (· = s₁.withEvents trans' table count)) := by
  have hname : RunsTo (secondPassHandlers sys) (wordElement "name" e.name)
      { SecondPassInfo.betweenEvents thresholds name path with currentTag := tag }
      (s₁.withEvents trans table count)
      (SecondAt (.betweenEvents thresholds (some e.name.text) path)
        (· = s₁.withEvents trans table count)) :=
    RunsTo.wordElement rfl rfl rfl ⟨⟨_, rfl⟩, rfl⟩
  refine RunsTo.append (R := SecondAt (.betweenEvents thresholds (some e.name.text) found)
    (· = s₁.withEvents trans' table count)) (RunsTo.append hname ?_) ?_
  · rintro _ _ ⟨⟨tag, rfl⟩, rfl⟩
    have hchar : (secondPassHandlers sys).char
        { SecondPassInfo.betweenEvents thresholds (some e.name.text) path with
          currentTag := some (ascii "sound") } e.sound.text (s₁.withEvents trans table count)
        = (some { SecondPassInfo.betweenEvents thresholds (some e.name.text) found with
            currentTag := some (ascii "sound") }, s₁.withEvents trans' table count) :=
      bind_of_some (callLookup_of_some hlook)
    exact RunsTo.wordElement rfl hchar rfl ⟨⟨_, rfl⟩, rfl⟩
  · rintro _ _ ⟨⟨tag, rfl⟩, rfl⟩
    exact RunsTo.textElement rfl (fun _ => rfl) rfl ⟨⟨_, rfl⟩, rfl⟩

/-- The end of an event that is not loaded. -/
theorem secondPass_event_skip {thresholds : List (Option ℕ)} {name : CString}
    {path tag : Option CString} (h : path.bind (directorySounds sys) = none) (s : Loader n k) :
    ∃ path', xmlParseSecondPassEnd sys
      { SecondPassInfo.betweenEvents thresholds (some name) path with currentTag := tag }
        (ascii "event") s
      = (some { SecondPassInfo.betweenEvents thresholds (staleAfter sys name path) path' with
          currentTag := tag }, s) := by
  cases path with
  | none => exact ⟨none, rfl⟩
  | some path =>
    have hload := parserLoadEventSndDir_of_none name s h
    have hnone : directorySounds sys path = none := h
    have hstale : staleAfter sys name (some path) = some name := by
      rw [staleAfter, if_pos]
      rw [Option.any_some, hnone]
      rfl
    rw [hstale]
    exact ⟨some path, bind_of_some hload⟩

/-- The end of an event that is loaded. -/
theorem secondPass_event_load {path : Option CString} {sounds : List Sound}
    (h : path.bind (directorySounds sys) = some sounds) (thresholds : List (Option ℕ))
    (name : CString) (tag : Option CString) (s₁ : Loader n k) (trans : List TransEntry)
    (table : SoundTable SoundData) (count : ℕ) :
    (secondPassHandlers sys).stop
      { SecondPassInfo.betweenEvents thresholds (some name) path with currentTag := tag }
        (ascii "event") (s₁.withEvents trans table count)
      = match engineSoundTableInsert table
            ⟨name, EVENT_T, .event (eventEntryOf sounds 0)⟩ with
        | none => (none, s₁.withEvents trans table (count + 1))
        | some (_, table) =>
          (some { SecondPassInfo.betweenEvents thresholds none none with currentTag := tag },
            s₁.withEvents trans table (count + 1)) := by
  obtain ⟨path, rfl, hsounds⟩ := Option.bind_eq_some_iff.mp h
  have hload := parserLoadEventSndDir_of_some name (s₁.withEvents trans table count) hsounds
  show (parserLoadEventSndDir sys name path >>= _) (s₁.withEvents trans table count) = _
  cases hinsert : engineSoundTableInsert table ⟨name, EVENT_T, .event (eventEntryOf sounds 0)⟩ with
  | none =>
    have hcall : callInsert ⟨name, EVENT_T, .event (eventEntryOf sounds 0)⟩
        (s₁.withEvents trans table (count + 1)) = (none, s₁.withEvents trans table (count + 1)) :=
      callInsert_of_none hinsert
    exact bind_of_none (hload.trans (bind_of_none hcall))
  | some result =>
    have hcall : callInsert ⟨name, EVENT_T, .event (eventEntryOf sounds 0)⟩
        (s₁.withEvents trans table (count + 1))
        = (some result.1, s₁.withEvents trans result.2 (count + 1)) :=
      callInsert_of_some hinsert
    exact bind_of_some (hload.trans (bind_of_some hcall))

/-- An event that is not loaded. -/
theorem secondPass_event_of_none (e : ThemeEvent) {trans trans' : List TransEntry}
    {found : Option CString}
    (hlook : xmlThemeLookupTransPath trans e.sound.text = some (found, trans'))
    (hsounds : found.bind (directorySounds sys) = none) {thresholds : List (Option ℕ)}
    {name path : Option CString} {table : SoundTable SoundData} {count : ℕ}
    (hinfo : SecondAt (.betweenEvents thresholds name path)
      (· = s₁.withEvents trans table count) info s) :
    RunsTo (secondPassHandlers sys) e.tokens info s fun info s => ∃ path, SecondAt
      (.betweenEvents thresholds (staleAfter sys e.name.text found) path)
      (· = s₁.withEvents trans' table count) info s := by
  obtain ⟨⟨tag, rfl⟩, rfl⟩ := hinfo
  refine RunsTo.element rfl (secondPass_event_content sys e hlook thresholds name path _ s₁ table
    count) ?_
  rintro _ _ ⟨⟨tag, rfl⟩, rfl⟩
  obtain ⟨path', hstop⟩ := secondPass_event_skip hsounds (s₁.withEvents trans' table count)
  exact ⟨_, _, hstop, path', ⟨_, rfl⟩, rfl⟩

/-- An event that is loaded, unless the table cannot be accessed. -/
theorem secondPass_event_of_some (e : ThemeEvent) {trans trans' : List TransEntry}
    {found : Option CString} {sounds : List Sound}
    (hlook : xmlThemeLookupTransPath trans e.sound.text = some (found, trans'))
    (hsounds : found.bind (directorySounds sys) = some sounds) {thresholds : List (Option ℕ)}
    {name path : Option CString} {table : SoundTable SoundData} {count : ℕ}
    (hinfo : SecondAt (.betweenEvents thresholds name path)
      (· = s₁.withEvents trans table count) info s) :
    (∀ result, engineSoundTableInsert table
        ⟨e.name.text, EVENT_T, .event (eventEntryOf sounds 0)⟩ = some result →
      RunsTo (secondPassHandlers sys) e.tokens info s (SecondAt
        (.betweenEvents thresholds none none) (· = s₁.withEvents trans' result.2 (count + 1)))) ∧
    (engineSoundTableInsert table
        ⟨e.name.text, EVENT_T, .event (eventEntryOf sounds 0)⟩ = none →
      Crashes (secondPassHandlers sys) e.tokens info s) := by
  obtain ⟨⟨tag, rfl⟩, rfl⟩ := hinfo
  have hcontent := secondPass_event_content sys e hlook thresholds name path
    (some (ascii "event")) s₁ table count
  have hstop := fun tag =>
    secondPass_event_load hsounds thresholds e.name.text tag s₁ trans' table count
  constructor
  · intro result hinsert
    refine RunsTo.element rfl hcontent ?_
    rintro _ _ ⟨⟨tag, rfl⟩, rfl⟩
    exact ⟨_, _, (hstop tag).trans (by rw [hinsert]), ⟨_, rfl⟩, rfl⟩
  · intro hinsert
    refine Crashes.element_stop rfl hcontent ?_
    rintro _ _ ⟨⟨tag, rfl⟩, rfl⟩
    exact ⟨_, (hstop tag).trans (by rw [hinsert])⟩

/-- The first of some lookups. -/
theorem lookups_cons_eq_some {table : List TransEntry} {name : CString} {names : List CString}
    {p : Option CString} {ps : List (Option CString)}
    (h : lookups table (name :: names) = some (p :: ps)) :
    ∃ after, xmlThemeLookupTransPath table name = some (p, after) ∧
      lookups after names = some ps := by
  obtain ⟨⟨path, after⟩, hlook, hrest⟩ := Option.bind_eq_some_iff.mp h
  obtain ⟨rfl, hafter⟩ := (lookups_cons_iff hlook).mp h
  exact ⟨after, hlook, hafter⟩

/-- The names and the paths of some events. -/
def eventPairs (events : List ThemeEvent) (paths : List (Option CString)) :
    List (CString × Option CString) :=
  (events.map fun e => e.name.text).zip paths

/-- **The events of a theme.** -/
theorem secondPass_events {thresholds : List (Option ℕ)} {more : List CString}
    {morePaths : List (Option CString)} (events : List ThemeEvent) :
    ∀ (paths : List (Option CString)) (trans : List TransEntry), paths.length = events.length →
      lookups trans ((events.map fun e => e.sound.text) ++ more) = some (paths ++ morePaths) →
      ∃ trans', lookups trans' more = some morePaths ∧
        ∀ name path table count info s, SecondAt (.betweenEvents thresholds name path)
          (· = s₁.withEvents trans table count) info s →
        (∀ table', insertEvents table (loadedEvents sys (eventPairs events paths)) = some table' →
          RunsTo (secondPassHandlers sys) (events.flatMap ThemeEvent.tokens) info s
            fun info s => ∃ path count', SecondAt (.betweenEvents thresholds
              (staleName sys name (eventPairs events paths)) path)
              (· = s₁.withEvents trans' table' count') info s) ∧
        (insertEvents table (loadedEvents sys (eventPairs events paths)) = none →
          Crashes (secondPassHandlers sys) (events.flatMap ThemeEvent.tokens) info s) := by
  induction events with
  | nil =>
    intro paths trans hlength hlook
    obtain rfl := List.length_eq_zero_iff.mp hlength
    refine ⟨trans, hlook, fun name path table count info s hinfo => ⟨?_, nofun⟩⟩
    rintro table' ⟨⟩
    exact RunsTo.nil ⟨path, count, hinfo⟩
  | cons e events ih =>
    intro paths trans hlength hlook
    obtain ⟨found, paths, rfl⟩ := List.exists_cons_of_length_eq_add_one hlength
    obtain ⟨after, hfirst, hafter⟩ := lookups_cons_eq_some hlook
    obtain ⟨trans', htrans', hrest⟩ := ih paths after (Nat.succ.inj hlength) hafter
    refine ⟨trans', htrans', fun name path table count info s hinfo => ?_⟩
    have hpairs : eventPairs (e :: events) (found :: paths)
        = (e.name.text, found) :: eventPairs events paths := rfl
    rw [hpairs, List.flatMap_cons]
    cases hsounds : found.bind (directorySounds sys) with
    | none =>
      have hthis := secondPass_event_of_none e hfirst hsounds hinfo
      rw [loadedEvents_cons_none hsounds]
      refine ⟨fun table' htable => hthis.append ?_, fun hnone => hthis.crashes ?_⟩
      · rintro info s ⟨path, hinfo⟩
        exact (hrest _ _ _ _ _ _ hinfo).1 table' htable
      · rintro info s ⟨path, hinfo⟩
        exact (hrest _ _ _ _ _ _ hinfo).2 hnone
    | some sounds =>
      obtain ⟨hruns, hcrashes⟩ := secondPass_event_of_some e hfirst hsounds hinfo
      rw [loadedEvents_cons_some hsounds, staleName, staleAfter_of_some hsounds, insertEvents_cons]
      cases hinsert : engineSoundTableInsert table
          ⟨e.name.text, EVENT_T, .event (eventEntryOf sounds 0)⟩ with
      | none => exact ⟨nofun, fun _ => (hcrashes hinsert).append _⟩
      | some result =>
        have hthis := hruns result hinsert
        exact ⟨fun table' htable => hthis.append fun info s hinfo =>
            (hrest _ _ _ _ _ _ hinfo).1 table' htable,
          fun hnone => hthis.crashes fun info s hinfo => (hrest _ _ _ _ _ _ hinfo).2 hnone⟩

/-! ### States -/

/-- The second pass is in `<states>`, and `name` was read last. In the state that was opened last,
`cnt` thresholds have been read; `idx` states have been closed. -/
def InState (thresholds : List (Option ℕ)) (name : Option CString) (cnt idx : ℕ)
    (info : SecondPassInfo) : Prop :=
  ∃ tag lBound hBound fade path,
    info = ⟨some tag, .state, name, path, thresholds, cnt, idx, lBound, hBound, fade⟩

/-- The loader when some thresholds of a state are filled, and `m` are not. -/
structure FilledUpTo (i : Fin k) (done : List Threshold) (m : ℕ) (trans : List TransEntry)
    (table : SoundTable SoundData) (s : Loader n k) : Prop where
  /-- The number of the state. -/
  stateCnt : s.stateCnt = i
  /-- Its thresholds. -/
  thresh : (s.mixer.states i).buf.thresh = some (partly done m blankThreshold)
  /-- The sounds that have not been looked up. -/
  trans_eq : s.transTable = trans
  /-- The sound table. -/
  table_eq : s.table = table

/-- The lower bound of the next threshold. -/
def lastBound (done : List Threshold) : ℚ := (done.getLast?.map Threshold.hBound).getD 0

variable {thresholds : List (Option ℕ)} {name : Option CString} {idx m : ℕ} {j : Fin k}
  {done : List Threshold} {trans trans' : List TransEntry} {table : SoundTable SoundData}

theorem lowerBound_eq (h : FilledUpTo j done m trans table s) :
    lowerBound done.length s = (some (lastBound done), s) := by
  rw [lowerBound, get_bind]
  rcases List.eq_nil_or_concat' done with rfl | ⟨done, t, rfl⟩
  · rfl
  · have hbound : getHBound s.mixer s.stateCnt ((done ++ [t]).length - 1) = some t.hBound := by
      rw [h.stateCnt, getHBound_eq h.thresh, List.length_append, List.length_singleton,
        Nat.add_sub_cancel]
      simp [partly, List.append_assoc]
    rw [if_pos (by simp), hbound, lastBound]
    simp

/-- What is in a threshold, up to its end. -/
theorem secondPass_inThreshold (t : ThemeThreshold) {path : CString} {tag : CString} {l h f : ℚ}
    {path₀ : Option CString}
    (hlook : xmlThemeLookupTransPath trans t.sound.text = some (some path, trans'))
    (hs : FilledUpTo j done (m + 1) trans table s) :
    RunsTo (secondPassHandlers sys) (wordElement "level" t.level ++ wordElement "fade" t.fade ++
        wordElement "sound" t.sound)
      ⟨some tag, .threshold, name, path₀, thresholds, done.length, idx, l, h, f⟩ s
      fun info s' => info = ⟨some (ascii "sound"), .threshold, name, some path, thresholds,
        done.length, idx, lastBound done, sys.strtod t.level.text, sys.strtod t.fade.text⟩ ∧
        s' = s.withTrans trans' := by
  have hlevel : (secondPassHandlers sys).char
      ⟨some (ascii "level"), .threshold, name, path₀, thresholds, done.length, idx, l, h, f⟩
        t.level.text s
      = (some ⟨some (ascii "level"), .threshold, name, path₀, thresholds, done.length, idx,
          lastBound done, sys.strtod t.level.text, f⟩, s) := bind_of_some (lowerBound_eq hs)
  have hfound : callLookup t.sound.text s = (some (some path), s.withTrans trans') :=
    callLookup_of_some (by rw [hs.trans_eq, hlook])
  have hsound : (secondPassHandlers sys).char
      ⟨some (ascii "sound"), .threshold, name, path₀, thresholds, done.length, idx,
        lastBound done, sys.strtod t.level.text, sys.strtod t.fade.text⟩ t.sound.text s
      = (some ⟨some (ascii "sound"), .threshold, name, some path, thresholds, done.length, idx,
          lastBound done, sys.strtod t.level.text, sys.strtod t.fade.text⟩, s.withTrans trans') :=
    bind_of_some hfound
  refine RunsTo.append (R := fun info s' => info = ⟨some (ascii "fade"), .threshold, name, path₀,
    thresholds, done.length, idx, lastBound done, sys.strtod t.level.text,
    sys.strtod t.fade.text⟩ ∧ s' = s) (RunsTo.append (R := fun info s' =>
      info = ⟨some (ascii "level"), .threshold, name, path₀, thresholds, done.length, idx,
        lastBound done, sys.strtod t.level.text, f⟩ ∧ s' = s) ?_ ?_) ?_
  · exact RunsTo.wordElement rfl hlevel rfl ⟨rfl, rfl⟩
  · rintro _ _ ⟨rfl, rfl⟩
    exact RunsTo.wordElement rfl rfl rfl ⟨rfl, rfl⟩
  · rintro _ _ ⟨rfl, rfl⟩
    exact RunsTo.wordElement rfl hsound rfl ⟨rfl, rfl⟩

/-- **A threshold of a state.** -/
theorem secondPass_threshold (t : ThemeThreshold) {path : CString} {sounds : List Sound}
    (hlook : xmlThemeLookupTransPath trans t.sound.text = some (some path, trans'))
    (hsounds : directorySounds sys path = some sounds)
    (hinfo : InState thresholds name done.length idx info)
    (hs : FilledUpTo j done (m + 1) trans table s) :
    RunsTo (secondPassHandlers sys) t.tokens info s fun info s =>
      InState thresholds name (done.length + 1) idx info ∧
      FilledUpTo j (done ++ [thresholdOf (lastBound done) (sys.strtod t.level.text) sounds]) m
        trans' table s := by
  obtain ⟨tag, l, h, f, path₀, rfl⟩ := hinfo
  refine RunsTo.element rfl (secondPass_inThreshold t hlook hs) ?_
  rintro _ _ ⟨rfl, rfl⟩
  have hsize : done.length < (partly done (m + 1) blankThreshold).size := by
    rw [size_partly]
    omega
  have hload : parserLoadStateSndDir sys done.length (lastBound done) (sys.strtod t.level.text)
      (some path) (sys.strtod t.fade.text) (s.withTrans trans') = _ :=
    parserLoadStateSndDir_of_some hs.stateCnt hs.thresh hsize hsounds
  refine ⟨_, _, bind_of_some hload, ⟨_, _, _, _, _, rfl⟩, hs.stateCnt, ?_, rfl, hs.table_eq⟩
  have hput : putThreshold (partly done (m + 1) blankThreshold) done.length
      (thresholdOf (lastBound done) (sys.strtod t.level.text) sounds)
      = partly (done ++ [thresholdOf (lastBound done) (sys.strtod t.level.text) sounds]) m
        blankThreshold := modify_partly _ _ _ _
  rw [← hput]
  exact Mixer.thresh_withState ..

@[simp] theorem lastBound_append (done : List Threshold) (t : Threshold) :
    lastBound (done ++ [t]) = t.hBound := by simp [lastBound]

/-- **The thresholds of a state**, from some of them on. -/
theorem secondPass_thresholds {find : CString → Option CString} (ts : List ThemeThreshold) :
    ∀ (done : List Threshold) (trans : List TransEntry) (info : SecondPassInfo) (s : Loader n k),
      lookups trans (ts.map fun t => t.sound.text) = some (ts.map fun t => find t.sound.text) →
      (∀ t ∈ ts, ((find t.sound.text).bind (directorySounds sys)).isSome) →
      InState thresholds name done.length idx info →
      FilledUpTo j done ts.length trans table s →
      RunsTo (secondPassHandlers sys) (ts.flatMap ThemeThreshold.tokens) info s fun info s =>
        InState thresholds name (done.length + ts.length) idx info ∧ ∃ trans',
        FilledUpTo j (done ++ themeThresholds sys find (lastBound done) ts) 0 trans' table s := by
  induction ts with
  | nil =>
    intro done trans info s _ _ hinfo hs
    exact RunsTo.nil ⟨hinfo, trans, by rwa [themeThresholds, List.append_nil]⟩
  | cons t ts ih =>
    intro done trans info s hlook hload hinfo hs
    obtain ⟨after, hfirst, hafter⟩ := lookups_cons_eq_some hlook
    obtain ⟨sounds, hsounds⟩ := Option.isSome_iff_exists.mp (hload t List.mem_cons_self)
    obtain ⟨path, hpath, hdir⟩ := Option.bind_eq_some_iff.mp hsounds
    have hrest : ∀ t ∈ ts, ((find t.sound.text).bind (directorySounds sys)).isSome :=
      fun u hu => hload u (List.mem_cons_of_mem t hu)
    have hfound : xmlThemeLookupTransPath trans t.sound.text = some (some path, after) := by
      rw [← hpath]
      exact hfirst
    refine RunsTo.append (secondPass_threshold t hfound hdir hinfo hs) fun info s hthis => ?_
    have hlength : (done ++ [thresholdOf (lastBound done) (sys.strtod t.level.text) sounds]).length
        = done.length + 1 := by rw [List.length_append, List.length_singleton]
    rw [← hlength] at hthis
    refine (ih _ after info s hafter hrest hthis.1 hthis.2).mono fun info s hall => ?_
    rw [List.append_assoc, hlength, lastBound_append] at hall
    rw [themeThresholds, hsounds, List.length_cons, Nat.add_comm ts.length, ← Nat.add_assoc]
    exact hall

/-- **A state.** -/
theorem secondPass_state {find : CString → Option CString} (x : ThemeState)
    (hcount : intAt thresholds idx = some x.thresholds.length)
    (hlook : lookups trans (x.thresholds.map fun t => t.sound.text)
      = some (x.thresholds.map fun t => find t.sound.text))
    (hload : ∀ t ∈ x.thresholds, ((find t.sound.text).bind (directorySounds sys)).isSome)
    {cnt : ℕ} (hinfo : InState thresholds name cnt idx info) (hcnt : s.stateCnt = j)
    (hfree : (s.mixer.states j).buf.thresh = none) (htrans : s.transTable = trans)
    (htable : s.table = table) :
    RunsTo (secondPassHandlers sys) x.tokens info s fun info s =>
      InState thresholds (some x.name.text) x.thresholds.length (idx + 1) info ∧ ∃ trans',
      FilledUpTo j (themeThresholds sys find 0 x.thresholds) 0 trans' table s := by
  obtain ⟨tag, l, h, f, path, rfl⟩ := hinfo
  obtain ⟨mixer, halloc, hthresh⟩ := mixerAllocNewState_eq hfree x.thresholds.length
  have hcall : callMixer s.stateCnt (fun m =>
      m.mixerAllocNewState s.stateCnt x.thresholds.length) s
        = (some .success, { s with mixer := mixer, called := s.called ++ [s.stateCnt] }) := by
    refine callMixer_of_some ?_
    rw [hcnt]
    exact halloc
  have hstart : xmlParseSecondPassStart
      ⟨some tag, .state, name, path, thresholds, cnt, idx, l, h, f⟩ (ascii "state") s
      = (some ⟨some (ascii "state"), .state, name, path, thresholds, 0, idx, l, h, f⟩,
          { s with mixer := mixer, called := s.called ++ [s.stateCnt] }) := by
    refine (bind_of_some (congrFun (congrArg ofOption hcount) s)).trans ?_
    exact bind_of_some hcall
  refine RunsTo.element (R := fun info s =>
    InState thresholds (some x.name.text) x.thresholds.length idx info ∧ ∃ trans',
      FilledUpTo j (themeThresholds sys find 0 x.thresholds) 0 trans' table s) hstart ?_ ?_
  · have hname : RunsTo (secondPassHandlers sys) (wordElement "name" x.name)
        ⟨some (ascii "state"), .state, name, path, thresholds, 0, idx, l, h, f⟩
        { s with mixer := mixer, called := s.called ++ [s.stateCnt] }
        fun info s => InState thresholds (some x.name.text) 0 idx info ∧
          FilledUpTo j [] x.thresholds.length trans table s :=
      RunsTo.wordElement rfl rfl rfl ⟨⟨_, _, _, _, _, rfl⟩, hcnt, hthresh, htrans, htable⟩
    refine RunsTo.append (R := fun info s => InState thresholds (some x.name.text) 0 idx info ∧
      FilledUpTo j [] x.thresholds.length trans table s) (RunsTo.append hname ?_) ?_
    · rintro _ s ⟨⟨tag, l, h, f, path, rfl⟩, hs⟩
      exact RunsTo.textElement rfl (fun _ => rfl) rfl ⟨⟨_, _, _, _, _, rfl⟩, hs⟩
    · rintro info s ⟨hinfo, hs⟩
      refine (secondPass_thresholds x.thresholds [] trans info s hlook hload hinfo hs).mono ?_
      intro info s hall
      rwa [List.length_nil, Nat.zero_add] at hall
  · rintro _ s ⟨⟨tag, l, h, f, path, rfl⟩, hs⟩
    exact ⟨_, _, rfl, ⟨_, _, _, _, _, rfl⟩, hs⟩

/-- The end of `<states>` when a name has been read. -/
theorem secondPass_states_stop {name : CString} {cnt : ℕ}
    (hinfo : InState thresholds (some name) cnt idx info) (s : Loader n k) :
    (∀ result, engineSoundTableInsert s.table ⟨name, STATE_T, .state s.stateCnt⟩ = some result →
      ∃ info', (secondPassHandlers sys).stop info (ascii "states") s
        = (some info', { s with table := result.2, stateCnt := s.stateCnt + 1 }) ∧
        info'.context = .no ∧ info'.currentTag.isSome) ∧
    (engineSoundTableInsert s.table ⟨name, STATE_T, .state s.stateCnt⟩ = none →
      (secondPassHandlers sys).stop info (ascii "states") s = (none, s)) := by
  obtain ⟨tag, l, h, f, path, rfl⟩ := hinfo
  constructor
  · intro result hresult
    have hcall : engineSoundTableInsertState name s.stateCnt s
        = (some result.1, { s with table := result.2 }) := callInsert_of_some hresult
    exact ⟨_, bind_of_some hcall, rfl, rfl⟩
  · intro hnone
    have hcall : engineSoundTableInsertState name s.stateCnt s = (none, s) :=
      callInsert_of_none hnone
    exact (get_bind _ _).trans (bind_of_none hcall)

/-! ### Themes -/

/-- A token that the second pass does not act upon inside `<states>`. -/
def Token.isQuietInStates : Token → Bool
  | .text _ => true
  | .start tag | .stop tag =>
    !(["events", "states", "state", "threshold"].any fun name => strcaseeq tag (ascii name))

/-- The second pass is behind `<states>`, where it does not act. -/
def Behind (P : Loader n k → Prop) (info : SecondPassInfo) (s : Loader n k) : Prop :=
  (info.context = .no ∨ info.context = .state) ∧ info.currentTag.isSome ∧ P s

/-- A part of the document behind `<states>` changes the name at most. -/
theorem secondPass_behind (h : tokens.all Token.isQuietInStates = true)
    (hinfo : Behind P info s) : RunsTo (secondPassHandlers sys) tokens info s (Behind P) := by
  refine RunsTo.of_keeps ?_ ?_ ?_ h hinfo
  · rintro name info s hname ⟨hcontext, htag, hP⟩
    simp [Token.isQuietInStates] at hname
    refine ⟨{ info with currentTag := some name }, s, ?_, hcontext, rfl, hP⟩
    show xmlParseSecondPassStart info name s = _
    rcases hcontext with hcontext | hcontext <;>
      simp [xmlParseSecondPassStart, hname, hcontext]
  · rintro name info s hname ⟨hcontext, htag, hP⟩
    simp [Token.isQuietInStates] at hname
    refine ⟨info, s, ?_, hcontext, htag, hP⟩
    show xmlParseSecondPassEnd sys info name s = _
    rcases hcontext with hcontext | hcontext <;>
      simp [xmlParseSecondPassEnd, hname, hcontext]
  · rintro string info s ⟨hcontext, htag, hP⟩
    obtain ⟨tag, htag⟩ := Option.isSome_iff_exists.mp htag
    have hsome : info.currentTag.isSome = true := by rw [htag]; rfl
    rcases hcontext with hcontext | hcontext
    · refine ⟨info, s, ?_, .inl hcontext, hsome, hP⟩
      simp [secondPassHandlers, xmlParseSecondPassChar, hcontext]
    · by_cases hname : strcaseeq tag (ascii "name") = true
      · refine ⟨{ info with name := some string }, s, ?_, .inr hcontext, hsome, hP⟩
        simp [secondPassHandlers, xmlParseSecondPassChar, hcontext, htag, hname]
      · refine ⟨info, s, ?_, .inr hcontext, hsome, hP⟩
        simp [secondPassHandlers, xmlParseSecondPassChar, hcontext, htag, hname]

/-- Sounds are a part that only the first pass looks at. -/
theorem all_sounds (sounds : List ThemeSound) :
    (xmlElement "sounds" (sounds.flatMap ThemeSound.tokens)).all Token.isQuietSecond = true := by
  have hsounds : (sounds.flatMap ThemeSound.tokens).all Token.isQuietSecond = true := by
    refine List.all_flatMap.trans (List.all_eq_true.mpr fun x _ => ?_)
    rw [ThemeSound.tokens, xmlElement, List.all_cons, List.all_append, List.all_append,
      List.all_append, List.all_append, List.all_append, List.all_append,
      all_textElement _ _ rfl rfl fun _ => rfl, all_textElement _ _ rfl rfl fun _ => rfl,
      all_textElement _ _ rfl rfl fun _ => rfl, all_textElement _ _ rfl rfl fun _ => rfl]
    rfl
  rw [xmlElement, List.all_cons, List.all_append, hsounds]
  rfl

/-- The second pass is in front of `<states>`. -/
def AtStates (thresholds : List (Option ℕ)) (name : Option CString) (info : SecondPassInfo) :
    Prop :=
  ∃ tag path, info = ⟨tag, .no, name, path, thresholds, 0, 0, 0, 0, 0⟩

/-- **The sections in front of `<states>`.** -/
theorem secondPass_beforeStates (sys : System) (s₁ : Loader n k) (t : Theme)
    {paths morePaths : List (Option CString)} {more : List CString}
    (hpaths : paths.length = t.events.length)
    (hlook : lookups trans ((t.events.map fun e => e.sound.text) ++ more)
      = some (paths ++ morePaths)) (count : ℕ)
    (hinfo : AtStates thresholds none info) (hs : s = s₁.withEvents trans table count) :
    ∃ trans', lookups trans' more = some morePaths ∧
      (∀ table', insertEvents table (loadedEvents sys (eventPairs t.events paths)) = some table' →
        RunsTo (secondPassHandlers sys)
          (xmlElement "sounds" (t.sounds.flatMap ThemeSound.tokens) ++
            xmlElement "events" (t.events.flatMap ThemeEvent.tokens)) info s fun info s =>
          AtStates thresholds (staleName sys none (eventPairs t.events paths)) info ∧
            ∃ count, s = s₁.withEvents trans' table' count) ∧
      (insertEvents table (loadedEvents sys (eventPairs t.events paths)) = none →
        Crashes (secondPassHandlers sys)
          (xmlElement "sounds" (t.sounds.flatMap ThemeSound.tokens) ++
            xmlElement "events" (t.events.flatMap ThemeEvent.tokens)) info s) := by
  obtain ⟨tag, path, rfl⟩ := hinfo
  subst hs
  obtain ⟨trans', htrans', hevents⟩ := secondPass_events t.events paths trans hpaths hlook
  have hsounds : RunsTo (secondPassHandlers sys)
      (xmlElement "sounds" (t.sounds.flatMap ThemeSound.tokens))
      ⟨tag, .no, none, path, thresholds, 0, 0, 0, 0, 0⟩ (s₁.withEvents trans table count)
      (SecondAt ⟨tag, .no, none, path, thresholds, 0, 0, 0, 0, 0⟩
        (· = s₁.withEvents trans table count)) :=
    secondPass_quiet rfl (all_sounds t.sounds) ⟨⟨_, rfl⟩, rfl⟩
  have hbetween : SecondAt (.betweenEvents thresholds none path)
      (· = s₁.withEvents trans table count)
      ⟨some (ascii "events"), .event, none, path, thresholds, 0, 0, 0, 0, 0⟩
      (s₁.withEvents trans table count) := ⟨⟨_, rfl⟩, rfl⟩
  obtain ⟨hruns, hcrashes⟩ := hevents none path table count _ _ hbetween
  refine ⟨trans', htrans', fun table' htable => hsounds.append ?_,
    fun hnone => hsounds.crashes ?_⟩
  · rintro _ _ ⟨⟨tag, rfl⟩, rfl⟩
    refine RunsTo.element rfl (hruns table' htable) ?_
    rintro _ _ ⟨path, count, ⟨tag, rfl⟩, rfl⟩
    exact ⟨_, _, rfl, ⟨_, _, rfl⟩, count, rfl⟩
  · rintro _ _ ⟨⟨tag, rfl⟩, rfl⟩
    exact Crashes.element rfl (hcrashes hnone)

/-- The tokens of `<states>`. -/
def statesTokens (states : List ThemeState) : List Token :=
  xmlElement "states" (states.flatMap ThemeState.tokens)

/-- **`<states>` without states** and without a name that was left over. -/
theorem secondPass_states_nil (hinfo : AtStates thresholds none info) (hP : P s) :
    RunsTo (secondPassHandlers sys) (statesTokens []) info s (Behind P) := by
  obtain ⟨tag, path, rfl⟩ := hinfo
  refine RunsTo.element rfl (RunsTo.nil (Q := fun i t => i = ⟨some (ascii "states"), .state, none,
    path, thresholds, 0, 0, 0, 0, 0⟩ ∧ t = s) ⟨rfl, rfl⟩) ?_
  rintro _ _ ⟨rfl, rfl⟩
  exact ⟨_, _, rfl, .inr rfl, rfl, hP⟩

/-- **`<states>` with a name**, which is that of its state or was left over. -/
theorem secondPass_states_named {states : List ThemeState} {Q : Loader n k → Prop}
    {nm : CString} {cnt : ℕ} {info₁ : SecondPassInfo}
    (hstart : xmlParseSecondPassStart info (ascii "states") s = (some info₁, s))
    (hcontent : RunsTo (secondPassHandlers sys) (states.flatMap ThemeState.tokens) info₁ s
      fun info s => InState thresholds (some nm) cnt idx info ∧ s.table = table ∧
        s.stateCnt = 0 ∧ Q s)
    (hQ : ∀ s t, Q s → Q { s with table := t, stateCnt := s.stateCnt + 1 }) :
    (∀ result, engineSoundTableInsert table ⟨nm, STATE_T, .state 0⟩ = some result →
      RunsTo (secondPassHandlers sys) (statesTokens states) info s
        (Behind fun s => s.table = result.2 ∧ Q s)) ∧
    (engineSoundTableInsert table ⟨nm, STATE_T, .state 0⟩ = none →
      Crashes (secondPassHandlers sys) (statesTokens states) info s) := by
  constructor
  · intro result hresult
    refine RunsTo.element hstart hcontent ?_
    rintro info s ⟨hinfo, rfl, hcnt, hs⟩
    rw [← hcnt] at hresult
    obtain ⟨info', hstop, hcontext, htag⟩ := (secondPass_states_stop hinfo s).1 result hresult
    exact ⟨info', _, hstop, .inl hcontext, htag, rfl, hQ s result.2 hs⟩
  · intro hnone
    refine Crashes.element_stop hstart hcontent ?_
    rintro info s ⟨hinfo, rfl, hcnt, -⟩
    rw [← hcnt] at hnone
    exact ⟨s, (secondPass_states_stop hinfo s).2 hnone⟩

end SecondPass

/-! ### How many states can be registered -/

section Count

variable {info info' : SecondPassInfo} {s s' : Loader n k} {calls : List XmlCall}

/-- The end of `<states>`. -/
def Token.isStates : Token → Bool
  | .stop tag => strcaseeq tag (ascii "states")
  | _ => false

theorem stable_length_stateEntries (c : ℕ) :
    Loader.Stable fun s : Loader n k => (stateEntries s.table).length ≤ c where
  mixer _ _ h _ := h
  skip _ h _ := h
  event _ _ _ _ _ h hinsert := (stateEntries_insert_event hinsert).length_eq.trans_le h
  trans _ _ h := h
  count _ _ h := h

/-- A call of a handler registers one state at most, and only the end of `<states>` does. -/
theorem length_stateEntries_call {c : ℕ} (hs : (stateEntries s.table).length ≤ c) (call : XmlCall) :
    (stateEntries ((secondPassHandlers sys).call info call s).2.table).length
      ≤ c + if call.token.isStates then 1 else 0 := by
  have hstable := stable_length_stateEntries (n := n) (k := k) c
  obtain ⟨token, behind⟩ := call
  cases token with
  | start tag =>
    exact keeps_secondPassStart (P := fun s => (stateEntries s.table).length ≤ c) info tag hs
      fun _ _ _ _ => hs
  | text text =>
    rw [XmlHandlers.call_text]
    cases createXmlNormalizedString (text ++ behind) text.length with
    | none => exact hs
    | some string => exact hstable.carries_secondPassChar info string s hs
  | stop tag =>
    by_cases hregisters : info.registers tag
    · obtain ⟨name, -, hend⟩ := secondPassEnd_of_registers hregisters sys s
      have htag : (Token.stop tag).isStates = true := hregisters.2.1
      show (stateEntries (xmlParseSecondPassEnd sys info tag s).2.table).length ≤ _
      rw [hend, if_pos htag]
      cases hinsert : engineSoundTableInsert s.table ⟨name, STATE_T, .state s.stateCnt⟩ with
      | none => exact hs.trans (Nat.le_succ c)
      | some result =>
        have hlength := (stateEntries_insert hinsert).length_eq
        rw [List.length_append] at hlength
        have hone : (if result.1 = .success then
            (stateEntry ⟨name, STATE_T, .state s.stateCnt⟩).toList else []).length ≤ 1 := by
          split_ifs <;> simp [stateEntry]
        show (stateEntries result.2).length ≤ c + 1
        omega
    · refine (hstable.carries_secondPassEnd hregisters s hs).trans (Nat.le_add_right _ _)

/-- **How many states are registered.** -/
theorem length_stateEntries_parse {c : ℕ} (hs : (stateEntries s.table).length ≤ c)
    (hrun : (secondPassHandlers sys).parse info calls s = (some info', s')) :
    (stateEntries s'.table).length ≤ c + calls.countP fun call => call.token.isStates := by
  induction calls generalizing info s c with
  | nil =>
    obtain ⟨⟩ := hrun
    exact hs
  | cons call calls ih =>
    obtain ⟨info₁, s₁, hcall, hrest⟩ := bind_eq_some_iff.mp hrun
    have hfirst : (stateEntries ((secondPassHandlers sys).call info call s).2.table).length ≤ _ :=
      length_stateEntries_call hs call
    rw [hcall] at hfirst
    rw [List.countP_cons, Nat.add_comm (List.countP _ _), ← Nat.add_assoc]
    exact ih hfirst hrest

end Count

/-! ## What a theme registers -/

/-- The names of the sounds of all thresholds. -/
def Theme.thresholdSounds (t : Theme) : List CString :=
  t.states.flatMap fun x => x.thresholds.map fun th => th.sound.text

/-- The path that a theme declares for a sound. -/
def Theme.find (t : Theme) (path name : CString) : Option CString := (t.declared path).lookup name

/-- The sounds of the thresholds resolve and load. Of the sounds of the events, the lookups find
`paths`. -/
structure Theme.Loads (sys : System) (t : Theme) (path : CString)
    (paths : List (Option CString)) : Prop where
  /-- There is a lookup for each event. -/
  length_eq : paths.length = t.events.length
  /-- The lookups of the second pass. -/
  resolve : lookups (transTable (t.declared path))
    ((t.events.map fun e => e.sound.text) ++ t.thresholdSounds)
      = some (paths ++ t.thresholdSounds.map (t.find path))
  /-- The files. -/
  load : ∀ x ∈ t.states, ∀ th ∈ x.thresholds,
    ((t.find path th.sound.text).bind (directorySounds sys)).isSome

/-- What is asked of the passes. They return; the sound table has one entry for each state, each
with an index of its own; the first pass has counted the thresholds of each state; and the channel
of each state has its thresholds, each filled. -/
def RegistersStates (sys : System) (t : Theme) (path : CString) (calls : List XmlCall)
    (s : Loader n k) : Prop :=
  ∃ first s₁ second s₂, xmlFirstPass (some path) calls s = (some first, s₁) ∧
    xmlSecondPass sys first.thresholds calls s₁ = (some second, s₂) ∧
    ∃ indices : List ℕ, indices.length = t.states.length ∧ indices.Nodup ∧
      (stateEntries s₂.table).Perm ((t.states.map fun x => x.name.text).zip indices) ∧
      first.thresholds = t.counts ∧
      ∀ p ∈ t.states.zip indices, ∃ j : Fin k, (j : ℕ) = p.2 ∧
        (s₂.mixer.states j).buf.thresh
          = some (themeThresholds sys (t.find path) 0 p.1.thresholds).toArray

/-- The condition. There is one state, and the sound table with the events that are loaded takes its
name; or there is none, and no name of an event is left over, or the table refuses it. -/
def Theme.Accepted (sys : System) (t : Theme) (paths : List (Option CString)) : Prop :=
  ∃ table, insertEvents Chained.empty (loadedEvents sys (eventPairs t.events paths)) = some table ∧
    match t.states with
    | [] => ∀ name, staleName sys none (eventPairs t.events paths) = some name →
        (engineSoundTableInsert table ⟨name, STATE_T, .state 0⟩).map Prod.fst = some .soundExists
    | [x] => (engineSoundTableInsert table ⟨x.name.text, STATE_T, .state 0⟩).map Prod.fst
        = some .success
    | _ => False

/-- The loader in front of a theme, if only the path of the sounds has been set. -/
def Loader.beforeTheme (n k : ℕ) (port : Int32) (path : CString) : Loader n k :=
  { Loader.start n k port with soundPath := some path }

section Registers

variable {t : Theme} {path : CString} {paths : List (Option CString)} {calls : List XmlCall}
  {port : Int32} {P : Loader n k → Prop} {R : SecondPassInfo → Loader n k → Prop}
  {thresholds : List (Option ℕ)} {s : Loader n k}

/-- The sections in front of `<states>`. -/
def Theme.beforeStates (t : Theme) : List Token :=
  xmlElement "sounds" (t.sounds.flatMap ThemeSound.tokens) ++
    xmlElement "events" (t.events.flatMap ThemeEvent.tokens)

/-- The data of the second pass inside `<theme>`. -/
def SecondPassInfo.inTheme (thresholds : List (Option ℕ)) : SecondPassInfo :=
  { SecondPassInfo.start thresholds with currentTag := some (ascii "theme") }

/-- **The second pass.** -/
theorem secondPass_theme
    (hbefore : RunsTo (secondPassHandlers sys) t.beforeStates (.inTheme thresholds) s R)
    (hstates : ∀ info s, R info s →
      RunsTo (secondPassHandlers sys) (statesTokens t.states) info s (Behind P)) :
    RunsTo (secondPassHandlers sys) t.tokens (SecondPassInfo.start thresholds) s
      fun _ s => P s := by
  have hclients : t.clients.all Token.isQuietInStates = true :=
    t.all_clients _ (by decide) (by decide) fun _ => rfl
  refine RunsTo.element (R := Behind P) rfl ?_ ?_
  · exact (hbefore.append hstates).append fun _ _ => secondPass_behind hclients
  · rintro info s ⟨hcontext, -, hP⟩
    refine ⟨info, s, ?_, hP⟩
    show xmlParseSecondPassEnd sys info (ascii "theme") s = _
    rw [xmlParseSecondPassEnd]
    rcases hcontext with hcontext | hcontext <;> simp only [hcontext] <;> rfl

/-- A crash in front of `<states>` or in it. -/
theorem secondPass_theme_crashes
    (hcrash : Crashes (secondPassHandlers sys) (t.beforeStates ++ statesTokens t.states)
      (.inTheme thresholds) s) :
    Crashes (secondPassHandlers sys) t.tokens (SecondPassInfo.start thresholds) s :=
  Crashes.element rfl (hcrash.append _)

theorem countP_isStates_of_all {tokens : List Token} {q : Token → Bool} (h : tokens.all q = true)
    (hq : ∀ token, q token = true → token.isStates = false) : tokens.countP Token.isStates = 0 :=
  List.countP_eq_zero.mpr fun token htoken =>
    Bool.eq_false_iff.mp (hq token (List.all_eq_true.mp h token htoken))

/-- States do not contain the end of `<states>`. -/
theorem countP_isStates_states (states : List ThemeState) :
    (states.flatMap ThemeState.tokens).countP Token.isStates = 0 := by
  refine countP_isStates_of_all (q := fun token => !token.isStates) ?_ (by simp)
  refine List.all_flatMap.trans (List.all_eq_true.mpr fun x _ => ?_)
  have hthresholds : (x.thresholds.flatMap ThemeThreshold.tokens).all
      (fun token => !token.isStates) = true :=
    List.all_flatMap.trans (List.all_eq_true.mpr fun th _ => rfl)
  rw [ThemeState.tokens, xmlElement, List.all_cons, List.all_append, List.all_append,
    List.all_append, all_textElement _ _ rfl rfl fun _ => rfl, hthresholds]
  rfl

/-- `<states>` ends once. -/
theorem countP_isStates_tokens (t : Theme) : t.tokens.countP Token.isStates = 1 := by
  have hsounds := countP_isStates_of_all (all_sounds t.sounds) fun token h => by
    cases token <;> simp_all [Token.isQuietSecond, Token.isStates]
  have hevents := countP_isStates_of_all (all_events t.events) fun token h => by
    cases token <;> simp_all [Token.isQuietFirst, Token.isStates]
  have hclients := countP_isStates_of_all
    (t.all_clients Token.isQuietInStates (by decide) (by decide) fun _ => rfl) fun token h => by
      cases token <;> simp_all [Token.isQuietInStates, Token.isStates]
  have hstates : (xmlElement "states" (t.states.flatMap ThemeState.tokens)).countP Token.isStates
      = 1 := by
    rw [xmlElement, List.countP_cons, List.countP_append, countP_isStates_states]
    rfl
  rw [Theme.tokens, xmlElement, List.countP_cons, List.countP_append, List.countP_append,
    List.countP_append, List.countP_append, hsounds, hevents, hclients, hstates]
  rfl

/-- **More than one state cannot be registered.** -/
theorem length_states_le (hreports : Reports calls t.tokens)
    (h : RegistersStates sys t path calls (Loader.beforeTheme n k port path)) :
    t.states.length ≤ 1 := by
  obtain ⟨first, s₁, second, s₂, hfirst, hsecond, indices, hlength, -, hperm, -, -⟩ := h
  obtain ⟨info, s', hrun, -, hs'⟩ :=
    (firstPass_theme t path (Loader.beforeTheme n k port path)).of_reports hreports
  obtain ⟨-, rfl⟩ := Prod.mk.inj (hfirst.symm.trans hrun)
  have hnone : (stateEntries s₁.table).length ≤ 0 := by
    rw [hs']
    exact stateEntries_empty.symm ▸ le_rfl
  have hle := length_stateEntries_parse hnone hsecond
  have hcount : calls.countP (fun call => call.token.isStates) = 1 := by
    rw [← countP_isStates_tokens t]
    have hkept : ∀ tokens : List Token, tokens.countP Token.isStates
        = (tokens.filter Token.isKept).countP Token.isStates := by
      intro tokens
      rw [List.countP_filter]
      refine List.countP_congr fun token _ => ?_
      cases token <;> simp [Token.isStates, Token.isKept]
    rw [hkept t.tokens, ← hreports.tokens_eq, ← hkept, List.countP_map]
    rfl
  rw [hperm.length_eq, List.length_zip, List.length_map, hlength, min_self, hcount] at hle
  exact hle

/-- What the second pass has done in front of `<states>`. -/
def BeforeStates (t : Theme) (sys : System) (s₀ : Loader n k) (paths : List (Option CString))
    (trans : List TransEntry) (table : SoundTable SoundData) (info : SecondPassInfo)
    (s : Loader n k) : Prop :=
  AtStates t.counts (staleName sys none (eventPairs t.events paths)) info ∧
    ∃ count, s = s₀.withEvents trans table count

variable {trans : List TransEntry} {table : SoundTable SoundData} {info : SecondPassInfo}

/-- `<states>` of a theme without states, when a name is left over. -/
theorem statesTokens_stale {name : CString}
    (hstale : staleName sys none (eventPairs t.events paths) = some name)
    (hinfo : BeforeStates t sys (.beforeTheme n k port path) paths trans table info s) :
    (∀ result, engineSoundTableInsert table ⟨name, STATE_T, .state 0⟩ = some result →
      RunsTo (secondPassHandlers sys) (statesTokens []) info s
        (Behind fun s => s.table = result.2 ∧ True)) ∧
    (engineSoundTableInsert table ⟨name, STATE_T, .state 0⟩ = none →
      Crashes (secondPassHandlers sys) (statesTokens []) info s) := by
  rw [BeforeStates, hstale] at hinfo
  obtain ⟨⟨tag, p, rfl⟩, count, rfl⟩ := hinfo
  have hcontent : RunsTo (secondPassHandlers sys) (([] : List ThemeState).flatMap ThemeState.tokens)
      ⟨some (ascii "states"), .state, some name, p, t.counts, 0, 0, 0, 0, 0⟩
      ((Loader.beforeTheme n k port path).withEvents trans table count) fun info s =>
        InState t.counts (some name) 0 0 info ∧ s.table = table ∧ s.stateCnt = 0 ∧ True :=
    RunsTo.nil ⟨⟨_, _, _, _, _, rfl⟩, rfl, rfl, trivial⟩
  exact secondPass_states_named rfl hcontent fun _ _ h => h

/-- `<states>` of a theme with one state. -/
theorem statesTokens_one {x : ThemeState} (hstates : t.states = [x]) (hk : 0 < k)
    (hlook : lookups trans t.thresholdSounds = some (t.thresholdSounds.map (t.find path)))
    (hload : ∀ th ∈ x.thresholds, ((t.find path th.sound.text).bind (directorySounds sys)).isSome)
    (hinfo : BeforeStates t sys (.beforeTheme n k port path) paths trans table info s) :
    (∀ result, engineSoundTableInsert table ⟨x.name.text, STATE_T, .state 0⟩ = some result →
      RunsTo (secondPassHandlers sys) (statesTokens [x]) info s
        (Behind fun s => s.table = result.2 ∧ (s.mixer.states ⟨0, hk⟩).buf.thresh
          = some (themeThresholds sys (t.find path) 0 x.thresholds).toArray)) ∧
    (engineSoundTableInsert table ⟨x.name.text, STATE_T, .state 0⟩ = none →
      Crashes (secondPassHandlers sys) (statesTokens [x]) info s) := by
  obtain ⟨⟨tag, p, rfl⟩, count, rfl⟩ := hinfo
  have hsounds : t.thresholdSounds = x.thresholds.map fun th => th.sound.text := by
    rw [Theme.thresholdSounds, hstates, List.flatMap_singleton]
  have hcount : intAt t.counts 0 = some x.thresholds.length := by
    rw [Theme.counts, hstates]
    rfl
  rw [hsounds, List.map_map] at hlook
  have hcontent : RunsTo (secondPassHandlers sys) ([x].flatMap ThemeState.tokens)
      ⟨some (ascii "states"), .state, staleName sys none (eventPairs t.events paths), p,
        t.counts, 0, 0, 0, 0, 0⟩
      ((Loader.beforeTheme n k port path).withEvents trans table count) fun info s =>
        InState t.counts (some x.name.text) x.thresholds.length 1 info ∧ s.table = table ∧
          s.stateCnt = 0 ∧ (s.mixer.states ⟨0, hk⟩).buf.thresh
            = some (themeThresholds sys (t.find path) 0 x.thresholds).toArray := by
    rw [List.flatMap_singleton]
    refine (secondPass_state x hcount hlook hload ⟨_, _, _, _, _, rfl⟩ (j := ⟨0, hk⟩) rfl rfl rfl
      rfl).mono ?_
    rintro info s ⟨hinfo, trans', hs⟩
    exact ⟨hinfo, hs.table_eq, hs.stateCnt, by rw [hs.thresh]; simp [partly]⟩
  exact secondPass_states_named rfl hcontent fun _ _ h => h

/-- The second pass, if a name is registered or not. -/
theorem secondPass_theme_named {name : CString} {Q : Loader n k → Prop}
    (hbefore : RunsTo (secondPassHandlers sys) t.beforeStates (.inTheme thresholds) s R)
    (hnamed : ∀ info s, R info s →
      (∀ result, engineSoundTableInsert table ⟨name, STATE_T, .state 0⟩ = some result →
        RunsTo (secondPassHandlers sys) (statesTokens t.states) info s
          (Behind fun s => s.table = result.2 ∧ Q s)) ∧
      (engineSoundTableInsert table ⟨name, STATE_T, .state 0⟩ = none →
        Crashes (secondPassHandlers sys) (statesTokens t.states) info s))
    (hreports : Reports calls t.tokens) :
    (∀ result, engineSoundTableInsert table ⟨name, STATE_T, .state 0⟩ = some result →
      ∃ second s₂, xmlSecondPass sys thresholds calls s = (some second, s₂) ∧
        s₂.table = result.2 ∧ Q s₂) ∧
    (engineSoundTableInsert table ⟨name, STATE_T, .state 0⟩ = none →
      ∃ s₂, xmlSecondPass sys thresholds calls s = (none, s₂)) := by
  constructor
  · intro result hresult
    exact (secondPass_theme hbefore fun info s hR =>
      (hnamed info s hR).1 result hresult).of_reports hreports
  · intro hnone
    exact (secondPass_theme_crashes (hbefore.crashes fun info s hR =>
      (hnamed info s hR).2 hnone)).of_reports hreports

/-- The entry of a state that was registered, and that of one that was not. -/
theorem stateEntries_named {name : CString} {result : EngineStatus × SoundTable SoundData}
    (hnone : stateEntries table = [])
    (h : engineSoundTableInsert table ⟨name, STATE_T, .state 0⟩ = some result) :
    stateEntries result.2 = if result.1 = .success then [(name, 0)] else [] := by
  have hperm := stateEntries_insert h
  rw [hnone, List.append_nil] at hperm
  split_ifs at hperm ⊢
  · exact List.perm_singleton.mp hperm
  · exact List.perm_nil.mp hperm

theorem stateEntries_insertEvents {table' : SoundTable SoundData}
    {events : List (CString × List Sound)} (h : insertEvents table events = some table') :
    (stateEntries table').Perm (stateEntries table) := by
  induction events generalizing table with
  | nil =>
    obtain ⟨⟩ := h
    rfl
  | cons e events ih =>
    obtain ⟨result, hresult, hrest⟩ :=
      Option.bind_eq_some_iff.mp ((insertEvents_cons events).symm.trans h)
    exact (ih hrest).trans (stateEntries_insert_event hresult)

/-- What a name in the place of the state's does: `Q` is about what else is done. -/
def Named (sys : System) (t : Theme) (calls : List XmlCall) (table : SoundTable SoundData)
    (name : CString) (s : Loader n k) (Q : Loader n k → Prop) : Prop :=
  (∀ result, engineSoundTableInsert table ⟨name, STATE_T, .state 0⟩ = some result →
    ∃ second s₂, xmlSecondPass sys t.counts calls s = (some second, s₂) ∧
      s₂.table = result.2 ∧ Q s₂) ∧
  (engineSoundTableInsert table ⟨name, STATE_T, .state 0⟩ = none →
    ∃ s₂, xmlSecondPass sys t.counts calls s = (none, s₂))

/-- **What both passes do.** -/
theorem passes_theme (n k : ℕ) (port : Int32) (hreports : Reports calls t.tokens)
    (hloads : t.Loads sys path paths) :
    ∃ first s₁, xmlFirstPass (some path) calls (Loader.beforeTheme n k port path)
        = (some first, s₁) ∧ first.thresholds = t.counts ∧
      (insertEvents Chained.empty (loadedEvents sys (eventPairs t.events paths)) = none →
        ∃ s₂, xmlSecondPass sys t.counts calls s₁ = (none, s₂)) ∧
      ∀ table, insertEvents Chained.empty (loadedEvents sys (eventPairs t.events paths))
          = some table →
        (t.states = [] → staleName sys none (eventPairs t.events paths) = none →
          ∃ second s₂, xmlSecondPass sys t.counts calls s₁ = (some second, s₂) ∧
            s₂.table = table) ∧
        (∀ name, t.states = [] → staleName sys none (eventPairs t.events paths) = some name →
          Named sys t calls table name s₁ fun _ => True) ∧
        ∀ x, t.states = [x] → ∀ hk : 0 < k, Named sys t calls table x.name.text s₁ fun s =>
          (s.mixer.states ⟨0, hk⟩).buf.thresh
            = some (themeThresholds sys (t.find path) 0 x.thresholds).toArray := by
  obtain ⟨first, s₁, hfirst, ⟨tag, rfl⟩, rfl⟩ :=
    (firstPass_theme t path (Loader.beforeTheme n k port path)).of_reports hreports
  have hstart : AtStates t.counts none (.inTheme t.counts) := ⟨_, _, rfl⟩
  obtain ⟨trans, htrans, hruns, hcrashes⟩ := secondPass_beforeStates sys
    (Loader.beforeTheme n k port path) t hloads.length_eq hloads.resolve 0 hstart rfl
  refine ⟨_, _, hfirst, rfl, fun hnone => ?_, fun table htable => ⟨?_, ?_, ?_⟩⟩
  · exact (secondPass_theme_crashes ((hcrashes hnone).append _)).of_reports hreports
  · intro hstates hstale
    refine (secondPass_theme (P := fun s => s.table = table) (hruns table htable) ?_).of_reports
      hreports
    rintro info s ⟨hinfo, count, rfl⟩
    rw [hstates]
    rw [hstale] at hinfo
    exact secondPass_states_nil hinfo rfl
  · intro name hstates hstale
    refine secondPass_theme_named (hruns table htable) (fun info s hinfo => ?_) hreports
    rw [hstates]
    exact statesTokens_stale hstale hinfo
  · intro x hstates hk
    refine secondPass_theme_named (hruns table htable) (fun info s hinfo => ?_) hreports
    rw [hstates]
    exact statesTokens_one hstates hk htrans (hloads.load x (by rw [hstates]; simp)) hinfo

/-- Events leave no entries of states. -/
theorem stateEntries_of_events {events : List (CString × List Sound)}
    (h : insertEvents Chained.empty events = some table) : stateEntries table = [] :=
  List.perm_nil.mp ((stateEntries_insertEvents h).trans (by rw [stateEntries_empty]))

/-- What a name leads to, by the number of entries of states. -/
theorem Named.map_fst {name : CString} {s s₂ : Loader n k} {Q : Loader n k → Prop}
    {second : SecondPassInfo} (h : Named sys t calls table name s Q)
    (hnone : stateEntries table = [])
    (hsecond : xmlSecondPass sys t.counts calls s = (some second, s₂)) :
    (engineSoundTableInsert table ⟨name, STATE_T, .state 0⟩).map Prod.fst
      = some (if (stateEntries s₂.table).length = 1 then .success else .soundExists) := by
  obtain ⟨hreturns, hcrashes⟩ := h
  cases hresult : engineSoundTableInsert table ⟨name, STATE_T, .state 0⟩ with
  | none =>
    obtain ⟨s', hcrash⟩ := hcrashes hresult
    cases hsecond.symm.trans hcrash
  | some result =>
    obtain ⟨_, s', hrun, htable, -⟩ := hreturns result hresult
    obtain ⟨-, rfl⟩ := Prod.mk.inj (hsecond.symm.trans hrun)
    rw [htable, stateEntries_named hnone hresult, Option.map_some]
    cases result.1 <;> rfl

/-- The states are registered only if their names are accepted. -/
theorem accepted_of_registers (hreports : Reports calls t.tokens)
    (hchannels : t.states.length ≤ k) (hloads : t.Loads sys path paths) {port : Int32}
    (h : RegistersStates sys t path calls (Loader.beforeTheme n k port path)) :
    t.Accepted sys paths := by
  obtain ⟨first, s₁, hfirst, hcounts, hcrash, hruns⟩ := passes_theme n k port hreports hloads
  have hle := length_states_le hreports h
  obtain ⟨first', s₁', second, s₂, hfirst', hsecond, indices, hlength, -, hperm, -, -⟩ := h
  obtain ⟨hsome, rfl⟩ := Prod.mk.inj (hfirst'.symm.trans hfirst)
  obtain rfl := Option.some.inj hsome
  rw [hcounts] at hsecond
  have hlen : (stateEntries s₂.table).length = t.states.length := by
    rw [hperm.length_eq, List.length_zip, List.length_map, hlength, min_self]
  cases hinsert : insertEvents Chained.empty (loadedEvents sys (eventPairs t.events paths)) with
  | none =>
    obtain ⟨s', hnone⟩ := hcrash hinsert
    cases hsecond.symm.trans hnone
  | some table =>
    obtain ⟨-, hstale, hone⟩ := hruns table hinsert
    have hnone := stateEntries_of_events hinsert
    refine ⟨table, hinsert, ?_⟩
    rcases hstates : t.states with - | ⟨x, - | ⟨y, rest⟩⟩
    · intro name hname
      simpa [hlen, hstates] using (hstale name hstates hname).map_fst hnone hsecond
    · have hk : 0 < k := by
        rw [hstates] at hchannels
        exact hchannels
      simpa [hlen, hstates] using (hone x hstates hk).map_fst hnone hsecond
    · simp [hstates] at hle

/-- A theme without states registers none, if a name that is left over from its events is
refused. -/
theorem registers_of_no_state (hreports : Reports calls t.tokens)
    (hloads : t.Loads sys path paths) (hstates : t.states = []) (port : Int32)
    (h : t.Accepted sys paths) :
    RegistersStates sys t path calls (Loader.beforeTheme n k port path) := by
  obtain ⟨first, s₁, hfirst, hcounts, -, hruns⟩ := passes_theme n k port hreports hloads
  obtain ⟨table, hinsert, haccepted⟩ := h
  obtain ⟨hnil, hstale, -⟩ := hruns table hinsert
  have hentries := stateEntries_of_events hinsert
  have hsecond : ∃ second s₂, xmlSecondPass sys t.counts calls s₁ = (some second, s₂) ∧
      stateEntries s₂.table = [] := by
    cases hname : staleName sys none (eventPairs t.events paths) with
    | none =>
      obtain ⟨second, s₂, hrun, htable⟩ := hnil hstates hname
      exact ⟨second, s₂, hrun, by rw [htable, hentries]⟩
    | some name =>
      rw [hstates] at haccepted
      obtain ⟨result, hresult, hrefused⟩ := Option.map_eq_some_iff.mp (haccepted name hname)
      obtain ⟨second, s₂, hrun, htable, -⟩ := (hstale name hstates hname).1 result hresult
      refine ⟨second, s₂, hrun, ?_⟩
      rw [htable, stateEntries_named hentries hresult, hrefused]
      rfl
  obtain ⟨second, s₂, hrun, hnone⟩ := hsecond
  refine ⟨first, s₁, second, s₂, hfirst, by rw [hcounts]; exact hrun, [], ?_, List.nodup_nil,
    ?_, hcounts, ?_⟩
  · rw [hstates]
    rfl
  · rw [hnone, hstates]
    exact List.Perm.nil
  · rw [hstates]
    exact fun p hp => absurd hp List.not_mem_nil

/-- A state whose name is accepted is registered. -/
theorem registers_of_one_state {x : ThemeState} (hreports : Reports calls t.tokens)
    (hloads : t.Loads sys path paths) (hstates : t.states = [x]) (hk : 0 < k) (port : Int32)
    (h : t.Accepted sys paths) :
    RegistersStates sys t path calls (Loader.beforeTheme n k port path) := by
  obtain ⟨first, s₁, hfirst, hcounts, -, hruns⟩ := passes_theme n k port hreports hloads
  obtain ⟨table, hinsert, haccepted⟩ := h
  obtain ⟨-, -, hone⟩ := hruns table hinsert
  rw [hstates] at haccepted
  obtain ⟨result, hresult, hsuccess⟩ := Option.map_eq_some_iff.mp haccepted
  obtain ⟨second, s₂, hrun, htable, hthresh⟩ := (hone x hstates hk).1 result hresult
  refine ⟨first, s₁, second, s₂, hfirst, by rw [hcounts]; exact hrun, [0], ?_,
    List.nodup_singleton 0, ?_, hcounts, ?_⟩
  · rw [hstates]
    rfl
  · rw [htable, stateEntries_named (stateEntries_of_events hinsert) hresult, hsuccess, hstates]
    exact List.Perm.refl _
  · rw [hstates]
    intro p hp
    obtain rfl := List.mem_singleton.mp hp
    exact ⟨⟨0, hk⟩, rfl, hthresh⟩

/-- **When the states of a theme are registered.** -/
theorem registersStates_iff (sys : System) (t : Theme) (path : CString) (port : Int32)
    (calls : List XmlCall) (paths : List (Option CString)) (hreports : Reports calls t.tokens)
    (hchannels : t.states.length ≤ k) (hloads : t.Loads sys path paths) :
    RegistersStates sys t path calls (Loader.beforeTheme n k port path) ↔ t.Accepted sys paths := by
  refine ⟨accepted_of_registers hreports hchannels hloads, fun h => ?_⟩
  rcases hstates : t.states with - | ⟨x, - | ⟨y, rest⟩⟩
  · exact registers_of_no_state hreports hloads hstates port h
  · have hk : 0 < k := by
      rw [hstates] at hchannels
      exact hchannels
    exact registers_of_one_state hreports hloads hstates hk port h
  · obtain ⟨table, -, haccepted⟩ := h
    rw [hstates] at haccepted
    exact haccepted.elim

end Registers

/-! ## Examples -/

/-- The system of the examples: each directory has one sound. -/
def oneSound : System where
  readdir := fun _ => some ⟨[ascii ".", ascii "..", ascii "a"], by decide, by decide⟩
  contents := fun _ => some [1, 0]
  strtod := fun _ => 1
  expat := fun _ => ([], true)
  hostent := none
  inetAton := fun _ => none
  packageVersion := ascii "0.5.1"

theorem directorySounds_oneSound (path : CString) :
    (directorySounds oneSound path).isSome = true := by
  have h : ∀ names : List CString, (names.mapM fun name =>
      parserLoadSoundFile oneSound (inDir path name)).isSome = true := by
    intro names
    induction names with
    | nil => rfl
    | cons name names ih =>
      obtain ⟨sounds, hsounds⟩ := Option.isSome_iff_exists.mp ih
      rw [List.mapM_cons, hsounds]
      rfl
  exact h _

/-- A word of one letter. -/
def letterWord (c : UInt8) (h : isNameChar c = true) : XmlWord where
  text := [c]
  ne_nil := List.cons_ne_nil c []
  isNameChar_of_mem := fun _ hd => List.mem_singleton.mp hd ▸ h

/-- A theme whose states have one threshold each, with a sound of the same name. The sound that is
declared last is not used. -/
def themeOf (names : List XmlWord) : Theme where
  sounds := (names ++ [letterWord 122 (by decide)]).map fun name => ⟨name, [], [], [], [], name⟩
  events := []
  states := names.map fun name =>
    ⟨name, [], [⟨letterWord 49 (by decide), letterWord 49 (by decide), name⟩]⟩
  clients := []
  isClient_of_mem := fun _ h => absurd h List.not_mem_nil

/-- Each token in a call of its own. -/
def callsOf (tokens : List Token) : List XmlCall := tokens.map fun token => ⟨token, []⟩

/-- The names of the examples. -/
def someNames : List XmlWord := [letterWord 97 (by decide), letterWord 98 (by decide)]

/-- A theme with the event `e`, whose sound is `a`, and the state `s`, whose thresholds have the
sounds `b` and `c`. The sound that is declared last is not used. -/
def eventTheme : Theme where
  sounds := [letterWord 97 (by decide), letterWord 98 (by decide), letterWord 99 (by decide),
    letterWord 122 (by decide)].map fun name => ⟨name, [], [], [], [], name⟩
  events := [⟨letterWord 101 (by decide), letterWord 97 (by decide), []⟩]
  states := [⟨letterWord 115 (by decide), [],
    [⟨letterWord 49 (by decide), letterWord 49 (by decide), letterWord 98 (by decide)⟩,
      ⟨letterWord 49 (by decide), letterWord 49 (by decide), letterWord 99 (by decide)⟩]⟩]
  clients := []
  isClient_of_mem := fun _ h => absurd h List.not_mem_nil

/-- One state is registered, with both thresholds, behind an event. -/
theorem registersStates_two_thresholds : RegistersStates oneSound eventTheme (ascii "/")
    (callsOf eventTheme.tokens) (Loader.beforeTheme (n := 4) (k := 4) 2000 (ascii "/")) := by
  refine (registersStates_iff oneSound _ _ _ _ [some (ascii "/a")] ⟨by decide, by decide⟩
    (by decide) ⟨rfl, by decide, fun x hx th hth => ?_⟩).mpr ?_
  · obtain rfl := List.mem_singleton.mp hx
    rcases List.mem_pair.mp hth with rfl | rfl
    · exact directorySounds_oneSound _
    · exact directorySounds_oneSound _
  · obtain ⟨sounds, hsounds⟩ := Option.isSome_iff_exists.mp (directorySounds_oneSound (ascii "/a"))
    have hloaded : loadedEvents oneSound (eventPairs eventTheme.events [some (ascii "/a")])
        = [(ascii "e", sounds)] := by
      show List.filterMap _ [(ascii "e", some (ascii "/a"))] = _
      rw [List.filterMap_cons_some (b := (ascii "e", sounds))]
      · rfl
      · exact congrArg (Option.map _) hsounds
    have haccepted : ((insertEvents Chained.empty [(ascii "e", sounds)]).bind fun table =>
        (engineSoundTableInsert table ⟨ascii "s", STATE_T, .state 0⟩).map Prod.fst)
          = some .success := by
      have he : bucket? (engineSoundHash (ascii "e")) = some ⟨101, by decide⟩ := by decide
      have hs : bucket? (engineSoundHash (ascii "s")) = some ⟨115, by decide⟩ := by decide
      simp [insertEvents, engineSoundTableInsert, he, hs, Chained.empty, Chained.append, insertLoop]
    rw [← hloaded] at haccepted
    exact Option.bind_eq_some_iff.mp haccepted

/-- Two states are not. -/
theorem not_registersStates_two : (themeOf someNames).states.length ≤ 4 ∧
    (themeOf someNames).Loads oneSound (ascii "/") [] ∧
    Reports (callsOf (themeOf someNames).tokens) (themeOf someNames).tokens ∧
    ¬ RegistersStates oneSound (themeOf someNames) (ascii "/")
      (callsOf (themeOf someNames).tokens)
      (Loader.beforeTheme (n := 4) (k := 4) 2000 (ascii "/")) := by
  have hreports : Reports (callsOf (themeOf someNames).tokens) (themeOf someNames).tokens :=
    ⟨by decide, by decide⟩
  refine ⟨by decide, ⟨rfl, by decide, fun x hx th hth => ?_⟩, hreports, fun h =>
    absurd (length_states_le hreports h) (by decide)⟩
  obtain ⟨name, hname, rfl⟩ := List.mem_map.mp hx
  obtain rfl := List.mem_singleton.mp hth
  rcases List.mem_cons.mp hname with rfl | hname
  · exact directorySounds_oneSound _
  · obtain rfl := List.mem_singleton.mp hname
    exact directorySounds_oneSound _

end Peep
