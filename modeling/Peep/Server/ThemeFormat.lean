import Peep.Server.Theme

/-!
# The format of themes

A theme declares sounds, and then the events and states that refer to them; what clients need
follows. Of the sections, the first pass looks at the sounds, which it puts in `trans_table`, and at
the states, whose thresholds it counts.

## Choices

A theme is what the documents that come with the server consist of. Names, paths and numbers are
words; the other details of a sound, and all descriptions, are any text, which the parser may report
in pieces.

## Main results

* `firstPass_theme` — what the first pass finds in a theme
-/

namespace Peep

open Bytes Decimal Program

/-! ## The format -/

/-- A sound of a theme. -/
structure ThemeSound where
  /-- `name`. -/
  name : XmlWord
  /-- `category`. -/
  category : List (List UInt8)
  /-- `type`. -/
  type : List (List UInt8)
  /-- `format`. -/
  format : List (List UInt8)
  /-- `description`. -/
  description : List (List UInt8)
  /-- `path`. -/
  path : XmlWord

/-- The element of a sound. -/
def ThemeSound.tokens (s : ThemeSound) : List Token :=
  xmlElement "sound" (wordElement "name" s.name ++ textElement "category" s.category ++
    textElement "type" s.type ++ textElement "format" s.format ++
    textElement "description" s.description ++ wordElement "path" s.path)

/-- An event of a theme. -/
structure ThemeEvent where
  /-- `name`. -/
  name : XmlWord
  /-- `sound`. -/
  sound : XmlWord
  /-- `description`. -/
  description : List (List UInt8)

/-- The element of an event. -/
def ThemeEvent.tokens (e : ThemeEvent) : List Token :=
  xmlElement "event" (wordElement "name" e.name ++ wordElement "sound" e.sound ++
    textElement "description" e.description)

/-- A threshold of a state of a theme. -/
structure ThemeThreshold where
  /-- `level`. -/
  level : XmlWord
  /-- `fade`. -/
  fade : XmlWord
  /-- `sound`. -/
  sound : XmlWord

/-- The element of a threshold. -/
def ThemeThreshold.tokens (t : ThemeThreshold) : List Token :=
  xmlElement "threshold"
    (wordElement "level" t.level ++ wordElement "fade" t.fade ++ wordElement "sound" t.sound)

/-- A state of a theme. -/
structure ThemeState where
  /-- `name`. -/
  name : XmlWord
  /-- `description`. -/
  description : List (List UInt8)
  /-- The thresholds. -/
  thresholds : List ThemeThreshold

/-- The element of a state. -/
def ThemeState.tokens (s : ThemeState) : List Token :=
  xmlElement "state" (wordElement "name" s.name ++ textElement "description" s.description ++
    s.thresholds.flatMap ThemeThreshold.tokens)

/-- The tags of the clients of a theme. -/
def clientTags : List CString :=
  ["clients", "client", "options", "option", "name", "value", "configuration", "notification",
    "hosts", "host", "recipients", "recipient"].map ascii

/-- A token of the clients of a theme. -/
def Token.isClient : Token → Bool
  | .start tag => clientTags.contains tag
  | .text _ => true
  | .stop tag => clientTags.contains tag

/-- A theme in the format of the themes that come with the server. -/
structure Theme where
  /-- `sounds`. -/
  sounds : List ThemeSound
  /-- `events`. -/
  events : List ThemeEvent
  /-- `states`. -/
  states : List ThemeState
  /-- `clients`, which the server skips. -/
  clients : List Token
  /-- Its tags. -/
  isClient_of_mem : ∀ token ∈ clients, token.isClient = true

/-- The tokens of a theme. -/
def Theme.tokens (t : Theme) : List Token :=
  xmlElement "theme" (xmlElement "sounds" (t.sounds.flatMap ThemeSound.tokens) ++
    xmlElement "events" (t.events.flatMap ThemeEvent.tokens) ++
    xmlElement "states" (t.states.flatMap ThemeState.tokens) ++ t.clients)

variable {n k : ℕ}

/-! ## The first pass -/

section FirstPass

variable {info : FirstPassInfo} {s s₁ : Loader n k} {tokens : List Token} {c : XmlContext}
  {Q : FirstPassInfo → Loader n k → Prop} {root : Option CString} {ts : List (Option ℕ)} {st : ℕ}

/-- The first pass is in a context, whatever the last tag was. -/
def FirstAt (root : Option CString) (c : XmlContext) (ts : List (Option ℕ)) (st : ℕ)
    (s₁ : Loader n k) (info : FirstPassInfo) (s : Loader n k) : Prop :=
  (∃ tag, info = ⟨root, c, tag, ts, st⟩) ∧ s = s₁

/-- A token without a tag that the first pass looks at outside `<sounds>`. -/
def Token.isQuietFirst : Token → Bool
  | .text _ => true
  | .start tag | .stop tag =>
    !(["sounds", "states", "state", "threshold"].any fun name => strcaseeq tag (ascii name))

/-- A part of the document that the first pass does not look at. -/
theorem firstPass_quiet (hc : c = .no ∨ c = .state) (h : tokens.all Token.isQuietFirst = true)
    (hinfo : FirstAt root c ts st s₁ info s) :
    RunsTo firstPassHandlers tokens info s (FirstAt root c ts st s₁) := by
  have hsound : c ≠ .sound := by rcases hc with rfl | rfl <;> decide
  have hsounds : c ≠ .sounds := by rcases hc with rfl | rfl <;> decide
  refine RunsTo.of_keeps ?_ ?_ ?_ h hinfo
  · rintro name _ _ hname ⟨⟨tag, rfl⟩, rfl⟩
    simp [Token.isQuietFirst] at hname
    refine ⟨_, _, ?_, ⟨some name, rfl⟩, rfl⟩
    show xmlParseFirstPassStart _ name _ = _
    simp [xmlParseFirstPassStart, hname, hsounds]
  · rintro name _ _ hname ⟨⟨tag, rfl⟩, rfl⟩
    simp [Token.isQuietFirst] at hname
    refine ⟨_, _, ?_, ⟨tag, rfl⟩, rfl⟩
    show (pure (xmlParseFirstPassEnd _ name) : Program (Loader n k) _) _ = _
    simp [xmlParseFirstPassEnd, hname, hsound]
  · rintro string _ _ ⟨⟨tag, rfl⟩, rfl⟩
    refine ⟨_, _, ?_, ⟨tag, rfl⟩, rfl⟩
    show xmlParseFirstPassChar _ string _ = _
    rw [xmlParseFirstPassChar, if_neg hsound]
    rfl

/-- The loader with another `trans_table`. -/
def Loader.withTrans (s : Loader n k) (table : List TransEntry) : Loader n k :=
  { s with transTable := table }

/-- A detail of a sound. -/
theorem firstPass_detail {name : String}
    (hname : name ∈ ["category", "type", "format", "description"]) (texts : List (List UInt8))
    (hinfo : FirstAt root .sound ts st s₁ info s) :
    RunsTo firstPassHandlers (textElement name texts) info s (FirstAt root .sound ts st s₁) := by
  obtain ⟨⟨tag, rfl⟩, rfl⟩ := hinfo
  simp only [List.mem_cons, List.not_mem_nil, or_false] at hname
  rcases hname with rfl | rfl | rfl | rfl
  all_goals exact RunsTo.textElement rfl (fun _ => rfl) rfl ⟨⟨_, rfl⟩, rfl⟩

/-- **A sound** gets into the table. -/
theorem firstPass_sound (x : ThemeSound) {table : List TransEntry} {path : CString}
    (hinfo : FirstAt (some path) .sounds ts st (s₁.withTrans table) info s) :
    RunsTo firstPassHandlers x.tokens info s (FirstAt (some path) .sounds ts st
      (s₁.withTrans (⟨some x.name.text, some (path ++ x.path.text)⟩ :: table))) := by
  obtain ⟨⟨tag, rfl⟩, rfl⟩ := hinfo
  refine RunsTo.element (R := FirstAt (some path) .sound ts st
    (s₁.withTrans (⟨some x.name.text, some (path ++ x.path.text)⟩ :: table))) rfl ?_ ?_
  · have hname : RunsTo firstPassHandlers (wordElement "name" x.name)
        ⟨some path, .sound, some (ascii "sound"), ts, st⟩ (s₁.withTrans (⟨none, none⟩ :: table))
        (FirstAt (some path) .sound ts st (s₁.withTrans (⟨some x.name.text, none⟩ :: table))) :=
      RunsTo.wordElement rfl rfl rfl ⟨⟨_, rfl⟩, rfl⟩
    refine RunsTo.append (RunsTo.append (RunsTo.append (RunsTo.append (RunsTo.append hname
      fun _ _ => firstPass_detail (by simp) _) fun _ _ => firstPass_detail (by simp) _)
      fun _ _ => firstPass_detail (by simp) _) fun _ _ => firstPass_detail (by simp) _) ?_
    rintro _ _ ⟨⟨tag, rfl⟩, rfl⟩
    exact RunsTo.wordElement rfl rfl rfl ⟨⟨_, rfl⟩, rfl⟩
  · rintro _ _ ⟨⟨tag, rfl⟩, rfl⟩
    exact ⟨_, _, rfl, ⟨_, rfl⟩, rfl⟩

/-- The threshold of a state is counted. -/
theorem firstPass_threshold (x : ThemeThreshold) {counts : List (Option ℕ)} {count : ℕ}
    (hinfo : FirstAt root .state (counts ++ [some count]) counts.length s₁ info s) :
    RunsTo firstPassHandlers x.tokens info s
      (FirstAt root .state (counts ++ [some (count + 1)]) counts.length s₁) := by
  obtain ⟨⟨tag, rfl⟩, rfl⟩ := hinfo
  have hcount : intAt (counts ++ [some count]) counts.length = some count := by simp [intAt]
  have hset : (counts ++ [some count]).set counts.length (some (count + 1))
      = counts ++ [some (count + 1)] := by simp
  have hstart : xmlParseFirstPassStart
      ⟨root, .state, tag, counts ++ [some count], counts.length⟩ (ascii "threshold") s
        = (some ⟨root, .state, some (ascii "threshold"), counts ++ [some (count + 1)],
            counts.length⟩, s) := by
    rw [← hset]
    exact bind_of_some (congrFun (congrArg ofOption hcount) s)
  refine RunsTo.element (R := FirstAt root .state (counts ++ [some (count + 1)]) counts.length s)
    hstart (firstPass_quiet (.inr rfl) rfl ⟨⟨_, rfl⟩, rfl⟩) ?_
  rintro _ _ ⟨⟨tag, rfl⟩, rfl⟩
  exact ⟨_, _, rfl, ⟨_, rfl⟩, rfl⟩

theorem all_textElement {name : String} (p : Token → Bool) (texts : List (List UInt8))
    (hstart : p (.start (ascii name)) = true) (hstop : p (.stop (ascii name)) = true)
    (htext : ∀ text, p (.text text) = true) : (textElement name texts).all p = true := by
  rw [textElement, xmlElement, List.all_cons, List.all_append, List.all_map, hstart]
  simp [hstop, htext, Function.comp_def]

/-- **A state** gets its count. -/
theorem firstPass_state (x : ThemeState) {counts : List (Option ℕ)}
    (hinfo : FirstAt root .state counts counts.length s₁ info s) :
    RunsTo firstPassHandlers x.tokens info s
      (FirstAt root .state (counts ++ [some x.thresholds.length]) (counts.length + 1) s₁) := by
  obtain ⟨⟨tag, rfl⟩, rfl⟩ := hinfo
  have hrealloc : (reallocInts counts (counts.length + 1)).set counts.length (some 0)
      = counts ++ [some 0] := by simp [reallocInts]
  have hstart : xmlParseFirstPassStart ⟨root, .state, tag, counts, counts.length⟩
      (ascii "state") s
        = (some ⟨root, .state, some (ascii "state"), counts ++ [some 0], counts.length⟩, s) := by
    rw [← hrealloc]
    rfl
  have hquiet : (wordElement "name" x.name ++ textElement "description" x.description).all
      Token.isQuietFirst = true := by
    rw [List.all_append, all_textElement _ _ rfl rfl fun _ => rfl]
    rfl
  refine RunsTo.element (R := FirstAt root .state (counts ++ [some x.thresholds.length])
    counts.length s) hstart ?_ ?_
  · refine RunsTo.append (firstPass_quiet (.inr rfl) hquiet ⟨⟨_, rfl⟩, rfl⟩) fun info s hinfo => ?_
    refine RunsTo.flatMap (I := fun done => FirstAt root .state (counts ++ [some done.length])
      counts.length _) _ hinfo fun done t _ _ info s hinfo => ?_
    rw [List.length_append]
    exact firstPass_threshold t hinfo
  · rintro _ _ ⟨⟨tag, rfl⟩, rfl⟩
    exact ⟨_, _, rfl, ⟨_, rfl⟩, rfl⟩

/-- The sounds that a theme declares, with their paths. -/
def Theme.declared (t : Theme) (path : CString) : List (CString × CString) :=
  t.sounds.map fun x => (x.name.text, path ++ x.path.text)

/-- The counts of the thresholds. -/
def Theme.counts (t : Theme) : List (Option ℕ) := t.states.map fun x => some x.thresholds.length

/-- Tags of clients are none that a pass looks at. -/
theorem Theme.all_clients (t : Theme) (p : Token → Bool)
    (hstart : ∀ tag ∈ clientTags, p (.start tag) = true)
    (hstop : ∀ tag ∈ clientTags, p (.stop tag) = true) (htext : ∀ text, p (.text text) = true) :
    t.clients.all p = true := by
  refine List.all_eq_true.mpr fun token htoken => ?_
  have hclient := t.isClient_of_mem token htoken
  cases token with
  | start tag => exact hstart tag (List.contains_iff_mem.mp hclient)
  | text text => exact htext text
  | stop tag => exact hstop tag (List.contains_iff_mem.mp hclient)

/-- Events are a part that only the second pass looks at. -/
theorem all_events (events : List ThemeEvent) :
    (xmlElement "events" (events.flatMap ThemeEvent.tokens)).all Token.isQuietFirst = true := by
  have hevents : (events.flatMap ThemeEvent.tokens).all Token.isQuietFirst = true := by
    refine List.all_flatMap.trans (List.all_eq_true.mpr fun e _ => ?_)
    rw [ThemeEvent.tokens, xmlElement, List.all_cons, List.all_append, List.all_append,
      all_textElement _ _ rfl rfl fun _ => rfl]
    rfl
  rw [xmlElement, List.all_cons, List.all_append, hevents]
  rfl

/-- The sounds get into the table. -/
theorem firstPass_sounds (sounds : List ThemeSound) {path : CString}
    (hinfo : FirstAt (some path) .no ts st (s₁.withTrans []) info s) :
    RunsTo firstPassHandlers (xmlElement "sounds" (sounds.flatMap ThemeSound.tokens)) info s
      (FirstAt (some path) .no ts st (s₁.withTrans
        (transTable (sounds.map fun x => (x.name.text, path ++ x.path.text))))) := by
  obtain ⟨⟨tag, rfl⟩, rfl⟩ := hinfo
  refine RunsTo.element (R := FirstAt (some path) .sounds ts st (s₁.withTrans
    (transTable (sounds.map fun x => (x.name.text, path ++ x.path.text))))) rfl ?_ ?_
  · refine RunsTo.flatMap (I := fun (done : List ThemeSound) => FirstAt (some path) .sounds ts st
      (s₁.withTrans (transTable (done.map fun x => (x.name.text, path ++ x.path.text))))) _
      ⟨⟨_, rfl⟩, rfl⟩ fun done x _ _ info s hinfo => ?_
    rw [List.map_append, transTable, List.foldl_append]
    exact firstPass_sound x hinfo
  · rintro _ _ ⟨⟨tag, rfl⟩, rfl⟩
    exact ⟨_, _, rfl, ⟨_, rfl⟩, rfl⟩

/-- The thresholds are counted. -/
theorem firstPass_states (states : List ThemeState) (hinfo : FirstAt root .no [] 0 s₁ info s) :
    RunsTo firstPassHandlers (xmlElement "states" (states.flatMap ThemeState.tokens)) info s
      (FirstAt root .no (states.map fun x => some x.thresholds.length) states.length s₁) := by
  obtain ⟨⟨tag, rfl⟩, rfl⟩ := hinfo
  refine RunsTo.element (R := FirstAt root .state
    (states.map fun x => some x.thresholds.length) states.length s) rfl ?_ ?_
  · refine RunsTo.flatMap (I := fun (done : List ThemeState) => FirstAt root .state
      (done.map fun x => some x.thresholds.length) done.length s) _
      ⟨⟨_, rfl⟩, rfl⟩ fun done x _ _ info s hinfo => ?_
    have hlength : (done.map fun x => some x.thresholds.length).length = done.length :=
      List.length_map _
    rw [List.map_append, List.length_append, ← hlength]
    rw [← hlength] at hinfo
    exact firstPass_state x hinfo
  · rintro _ _ ⟨⟨tag, rfl⟩, rfl⟩
    exact ⟨_, _, rfl, ⟨_, rfl⟩, rfl⟩

/-- **The first pass.** It puts the sounds in the table and counts the thresholds. -/
theorem firstPass_theme (t : Theme) (path : CString) (s : Loader n k) :
    RunsTo firstPassHandlers t.tokens (FirstPassInfo.start (some path)) (s.withTrans [])
      (FirstAt (some path) .no t.counts t.states.length
        (s.withTrans (transTable (t.declared path)))) := by
  refine RunsTo.element (R := FirstAt (some path) .no t.counts t.states.length
    (s.withTrans (transTable (t.declared path)))) rfl ?_ ?_
  · have hsounds : RunsTo firstPassHandlers
        (xmlElement "sounds" (t.sounds.flatMap ThemeSound.tokens))
        ⟨some path, .no, some (ascii "theme"), [], 0⟩ (s.withTrans []) _ :=
      firstPass_sounds t.sounds ⟨⟨_, rfl⟩, rfl⟩
    have hclients : t.clients.all Token.isQuietFirst = true :=
      t.all_clients _ (by decide) (by decide) fun _ => rfl
    have hevents := RunsTo.append hsounds fun _ _ =>
      firstPass_quiet (.inl rfl) (all_events t.events)
    have hstates := RunsTo.append hevents fun _ _ => firstPass_states t.states
    exact RunsTo.append hstates fun _ _ => firstPass_quiet (.inl rfl) hclients
  · rintro _ _ ⟨⟨tag, rfl⟩, rfl⟩
    exact ⟨_, _, rfl, ⟨_, rfl⟩, rfl⟩

end FirstPass

end Peep
