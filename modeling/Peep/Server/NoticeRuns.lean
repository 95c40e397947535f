import Peep.Server.Cleanup
import Peep.Server.TransTable

/-!
# What a document leaves in a notice

The handlers for the document of a notice keep the last tag that was opened, and write each text
that is left of cleaning up to the field of that tag (`xml_notice.c`). So what a field holds in the
end is the last such text behind one of its tags, or what it held before. This is said here of any
calls of the handlers, those for ill-formed documents included.

`serverProcessClientEvent` enqueues an event whatever the parse has come to. Without a sound
`serverConvertNoticeToEngineEvent` leaves the event as `malloc` returned it, and its callers do not
learn of that: it assigns `NULL` to its own copy of the pointer to the notice, which they compare
with `NULL` (`server.c`).

## Main results

* `slot_set_tag` — which field any tag writes
* `slot_foldlM_call` — what is in a field after some calls
* `dispatches_iff` — when an event is enqueued rightly
-/

namespace Peep

open Bytes Decimal

/-! ## The last text of a field -/

/-- What is left of a text, with what is in memory behind it. -/
def cleaned (p : List UInt8 × List UInt8) : Option CString :=
  createXmlNormalizedString (p.1 ++ p.2) p.1.length

/-- The last text that something is left of behind a tag of a kind, when some calls begin behind
the tag `tag`. -/
def lastText (isTag : CString → Bool) : CString → List XmlCall → Option (List UInt8 × List UInt8)
  | _, [] => none
  | tag, c :: calls =>
    match c.token with
    | .start tag => lastText isTag tag calls
    | .stop _ => lastText isTag tag calls
    | .text text =>
      (lastText isTag tag calls).or
        (if isTag tag && (cleaned (text, c.behind)).isSome then some (text, c.behind) else none)

/-- The tags of an attribute, in any case. -/
def Attribute.isTag (a : Attribute) (tag : CString) : Bool := strcaseeq tag a.name

/-- No text is reported before the first tag. -/
def BeginsWithTag (calls : List XmlCall) : Prop :=
  ∀ c, calls.head? = some c → ∃ tag, c.token = .start tag

/-! ## The events that should be enqueued -/

/-- The events for a notice: one with its fields if it has a sound, and none otherwise. -/
def noticeEvents (n : NOTICE) : List Event :=
  match n.sound with
  | none => []
  | some sound =>
    [{ type := toUChar n.type
       loc := toUChar n.location
       prior := toUChar n.priority
       vol := toUChar n.volume
       dither := toUChar n.dither
       flags := n.flags
       soundLen := Int32.ofNat sound.length
       sound := some sound }]

/-- Whatever is in memory, the event that is enqueued for a document is the one that should be. -/
def Dispatches (expat : List UInt8 → List XmlCall) (msg : List UInt8) : Prop :=
  ∃ n, xmlParseClientEvent expat (untilZero msg) noticeCreateNotice = some n ∧
    ∀ event, ∃ enqueued, serverProcessClientEvent expat event (.xml msg) = some enqueued ∧
      [enqueued] = noticeEvents n

/-- The tag behind which the next call comes. -/
def openedTag (tag : CString) : List XmlCall → CString
  | [] => tag
  | c :: calls =>
    match c.token with
    | .start tag => openedTag tag calls
    | .stop _ | .text _ => openedTag tag calls

/-- Among some calls is one for a text behind a sound tag of which something is left. -/
def HasSound (calls : List XmlCall) : Prop :=
  ∃ opened tag before text behind after, opened.token = .start tag ∧
    calls = opened :: before ++ ⟨.text text, behind⟩ :: after ∧
    Attribute.sound.isTag (openedTag tag before) = true ∧ cleaned (text, behind) ≠ none

variable {n : NOTICE} {a b : Attribute} {calls : List XmlCall}
  {tag tag' : CString} {isTag : CString → Bool}

/-! ## Tags -/

/-- A tag is that of one attribute at most. -/
theorem Attribute.eq_of_isTag (ha : a.isTag tag = true) (hb : b.isTag tag = true) : a = b := by
  rw [Attribute.isTag, strcaseeq, decide_eq_true_iff] at ha hb
  have hnames : a.name.map tolower = b.name.map tolower := ha.symm.trans hb
  revert hnames
  cases a <;> cases b <;> decide

/-- The case of a tag is ignored. -/
theorem set_congr (h : strcaseeq tag tag' = true) (m : NOTICE) (s : CString) :
    m.set tag s = m.set tag' s := by
  have hmap : tag.map tolower = tag'.map tolower := of_decide_eq_true h
  have heq (keyword : CString) : strcaseeq tag keyword = strcaseeq tag' keyword := by
    rw [strcaseeq, strcaseeq, hmap]
  simp only [NOTICE.set, heq]

/-- A tag of no attribute writes nothing. -/
theorem set_of_forall (h : ∀ a : Attribute, a.isTag tag = false) (m : NOTICE) (s : CString) :
    m.set tag s = m := by
  have hhost : strcaseeq tag (ascii "host") = false := h .host
  have hdata : strcaseeq tag (ascii "data") = false := h .data
  have hclient : strcaseeq tag (ascii "client") = false := h .client
  have hsound : strcaseeq tag (ascii "sound") = false := h .sound
  have htype : strcaseeq tag (ascii "type") = false := h .type
  have hlocation : strcaseeq tag (ascii "location") = false := h .location
  have hpriority : strcaseeq tag (ascii "priority") = false := h .priority
  have hvolume : strcaseeq tag (ascii "volume") = false := h .volume
  have hdither : strcaseeq tag (ascii "dither") = false := h .dither
  have hflags : strcaseeq tag (ascii "flags") = false := h .flags
  have hmetric : strcaseeq tag (ascii "metric") = false := h .metric
  simp [NOTICE.set, hhost, hdata, hclient, hsound, htype, hlocation, hpriority, hvolume, hdither,
    hflags, hmetric]

/-- **Which field a tag writes.** -/
theorem slot_set_tag (m : NOTICE) (tag s : CString) (a : Attribute) :
    (m.set tag s).slot a = if a.isTag tag then slotOf s a else m.slot a := by
  by_cases hall : ∀ b : Attribute, b.isTag tag = false
  · rw [set_of_forall hall, if_neg (by simp [hall a])]
  · obtain ⟨b, hb⟩ := not_forall.mp hall
    have hb' : b.isTag tag = true := by simpa using hb
    rw [set_congr hb']
    split_ifs with ha
    · obtain rfl := Attribute.eq_of_isTag ha hb'
      exact slot_set m a s
    · exact slot_set_of_ne m s fun heq => ha (heq ▸ hb')

/-! ## Calls -/

section Equations

variable {text behind : List UInt8}

theorem lastText_start : lastText isTag tag (⟨.start tag', behind⟩ :: calls)
    = lastText isTag tag' calls := rfl

theorem lastText_stop : lastText isTag tag (⟨.stop tag', behind⟩ :: calls)
    = lastText isTag tag calls := rfl

theorem lastText_text : lastText isTag tag (⟨.text text, behind⟩ :: calls)
    = (lastText isTag tag calls).or
        (if isTag tag && (cleaned (text, behind)).isSome then some (text, behind) else none) := rfl

end Equations

/-- Something is left of the last text. -/
theorem isSome_cleaned_of_lastText {p : List UInt8 × List UInt8}
    (h : lastText isTag tag calls = some p) : (cleaned p).isSome = true := by
  induction calls generalizing tag with
  | nil => cases h
  | cons c calls ih =>
    obtain ⟨token, behind⟩ := c
    rcases token with tag' | text | tag'
    · exact ih h
    · rw [lastText_text] at h
      rcases hlast : lastText isTag tag calls with - | q
      · rw [hlast, Option.none_or] at h
        split_ifs at h with hhere
        obtain rfl := Option.some.inj h
        exact (Bool.and_eq_true_iff.mp hhere).2
      · rw [hlast, Option.some_or] at h
        obtain rfl := Option.some.inj h
        exact ih hlast
    · exact ih h

/-- **What is in a field** after some calls behind a tag: what is left of the last text of the
field, or what was there before. -/
theorem slot_foldlM_call (calls : List XmlCall) (n : NOTICE) (tag : CString) :
    ∃ info', calls.foldlM ParseInfo.call ⟨n, some tag⟩ = some info' ∧
      ∀ a, info'.notice.slot a = match (lastText a.isTag tag calls).bind cleaned with
        | none => n.slot a
        | some s => slotOf s a := by
  induction calls generalizing n tag with
  | nil => exact ⟨_, rfl, fun a => rfl⟩
  | cons c calls ih =>
    obtain ⟨token, behind⟩ := c
    rcases token with tag' | text | tag'
    · obtain ⟨info', hrun, hslot⟩ := ih n tag'
      exact ⟨info', hrun, hslot⟩
    · rcases hclean : cleaned (text, behind) with - | string
      · obtain ⟨info', hrun, hslot⟩ := ih n tag
        have hcall : ParseInfo.call ⟨n, some tag⟩ ⟨.text text, behind⟩ = some ⟨n, some tag⟩ := by
          show xmlParseClientChar _ text behind = _
          rw [xmlParseClientChar, show createXmlNormalizedString _ _ = none from hclean]
        refine ⟨info', ?_, fun a => ?_⟩
        · rw [List.foldlM_cons, hcall]
          exact hrun
        · rw [hslot a, lastText_text, hclean]
          simp
      · obtain ⟨info', hrun, hslot⟩ := ih (n.set tag string) tag
        have hcall : ParseInfo.call ⟨n, some tag⟩ ⟨.text text, behind⟩
            = some ⟨n.set tag string, some tag⟩ := by
          show xmlParseClientChar _ text behind = _
          rw [xmlParseClientChar, show createXmlNormalizedString _ _ = some string from hclean]
          rfl
        refine ⟨info', ?_, fun a => ?_⟩
        · rw [List.foldlM_cons, hcall]
          exact hrun
        · rw [hslot a, lastText_text]
          rcases hlast : lastText a.isTag tag calls with - | p
          · rw [Option.bind_none, Option.none_or, slot_set_tag]
            split_ifs with htag hboth hboth
            · simp [hclean]
            · simp [htag, hclean] at hboth
            · simp [htag] at hboth
            · rfl
          · obtain ⟨last, hlast'⟩ :=
              Option.isSome_iff_exists.mp (isSome_cleaned_of_lastText hlast)
            rw [Option.some_or, Option.bind_some, hlast']
    · obtain ⟨info', hrun, hslot⟩ := ih n tag
      exact ⟨info', hrun, hslot⟩

/-- There is a last text if there is any. -/
theorem lastText_ne_none_iff : lastText isTag tag calls ≠ none ↔
    ∃ before text behind after, calls = before ++ ⟨.text text, behind⟩ :: after ∧
      isTag (openedTag tag before) = true ∧ cleaned (text, behind) ≠ none := by
  induction calls generalizing tag with
  | nil => simp [lastText]
  | cons c calls ih =>
    obtain ⟨token, behind⟩ := c
    simp only [List.cons_eq_append_iff]
    rcases token with tag' | text | tag'
    · rw [lastText_start, ih]
      constructor
      · rintro ⟨before, text, behind', after, rfl, hopened, hclean⟩
        exact ⟨⟨.start tag', behind⟩ :: before, text, behind', after,
          .inr ⟨before, rfl, rfl⟩, hopened, hclean⟩
      · rintro ⟨_, text, behind', after, ⟨rfl, hcons⟩ | ⟨before, rfl, rfl⟩, hopened, hclean⟩
        · cases hcons
        · exact ⟨before, text, behind', after, rfl, hopened, hclean⟩
    · rw [lastText_text, ne_eq, Option.or_eq_none_iff, not_and_or, ← ne_eq, ih]
      constructor
      · rintro (⟨before, text', behind', after, rfl, hopened, hclean⟩ | hhere)
        · exact ⟨⟨.text text, behind⟩ :: before, text', behind', after,
            .inr ⟨before, rfl, rfl⟩, hopened, hclean⟩
        · rw [ite_eq_right_iff, not_forall] at hhere
          obtain ⟨hhere, -⟩ := hhere
          rw [Bool.and_eq_true] at hhere
          exact ⟨[], text, behind, calls, .inl ⟨rfl, rfl⟩, hhere.1,
            Option.isSome_iff_ne_none.mp hhere.2⟩
      · rintro ⟨_, text', behind', after, ⟨rfl, hcons⟩ | ⟨before, rfl, rfl⟩, hopened, hclean⟩
        · obtain ⟨hcall, rfl⟩ := List.cons.inj hcons
          cases hcall
          have hhere : (isTag tag && (cleaned (text, behind)).isSome) = true :=
            Bool.and_eq_true_iff.mpr ⟨hopened, Option.isSome_iff_ne_none.mpr hclean⟩
          rw [if_pos hhere]
          exact .inr (Option.some_ne_none _)
        · exact .inl ⟨before, text', behind', after, rfl, hopened, hclean⟩
    · rw [lastText_stop, ih]
      constructor
      · rintro ⟨before, text, behind', after, rfl, hopened, hclean⟩
        exact ⟨⟨.stop tag', behind⟩ :: before, text, behind', after,
          .inr ⟨before, rfl, rfl⟩, hopened, hclean⟩
      · rintro ⟨_, text, behind', after, ⟨rfl, hcons⟩ | ⟨before, rfl, rfl⟩, hopened, hclean⟩
        · cases hcons
        · exact ⟨before, text, behind', after, rfl, hopened, hclean⟩

/-! ## The events -/

/-- An event is enqueued rightly if the notice has a sound. -/
theorem dispatches_iff_of_parse {expat : List UInt8 → List XmlCall} {msg : List UInt8}
    (h : xmlParseClientEvent expat (untilZero msg) noticeCreateNotice = some n) :
    Dispatches expat msg ↔ n.sound ≠ none := by
  have hevent (event : Event) : serverProcessClientEvent expat event (.xml msg)
      = some (serverConvertNoticeToEngineEvent event n) := by
    rw [serverProcessClientEvent, h]
    rfl
  constructor
  · rintro ⟨n', hn', hall⟩ hsound
    obtain rfl : n = n' := Option.some.inj (h.symm.trans hn')
    obtain ⟨enqueued, -, hnone⟩ := hall ⟨0, 0, 0, 0, 0, 0, 0, none⟩
    rw [noticeEvents, hsound] at hnone
    cases hnone
  · intro hsound
    obtain ⟨sound, hsound⟩ := Option.ne_none_iff_exists'.mp hsound
    refine ⟨n, h, fun event => ⟨_, hevent event, ?_⟩⟩
    rw [serverConvertNoticeToEngineEvent, noticeEvents, hsound]

/-- The sound after the calls for a document, the first of which opens a tag. -/
theorem sound_foldlM_call (calls : List XmlCall) {c : XmlCall} (hc : c.token = .start tag) :
    ∃ info, (c :: calls).foldlM ParseInfo.call ⟨noticeCreateNotice, none⟩ = some info ∧
      (info.notice.sound ≠ none ↔ lastText Attribute.sound.isTag tag calls ≠ none) := by
  obtain ⟨info, hrun, hslot⟩ := slot_foldlM_call calls noticeCreateNotice tag
  refine ⟨info, ?_, ?_⟩
  · rw [List.foldlM_cons, call_start hc]
    exact hrun
  · have hsound := hslot .sound
    rcases hlast : lastText Attribute.sound.isTag tag calls with - | p
    · rw [hlast] at hsound
      have heq : info.notice.sound = none := Sum.inl.inj hsound
      simp [heq]
    · obtain ⟨s, hs⟩ := Option.isSome_iff_exists.mp (isSome_cleaned_of_lastText hlast)
      rw [hlast, Option.bind_some, hs] at hsound
      have heq : info.notice.sound = some s := Sum.inl.inj hsound
      simp [heq]

/-- **When an event is enqueued rightly**: there is a text for the sound of which something is
left. -/
theorem dispatches_iff {expat : List UInt8 → List XmlCall} {msg : List UInt8}
    (hexpat : BeginsWithTag (expat (untilZero msg))) :
    Dispatches expat msg ↔ HasSound (expat (untilZero msg)) := by
  rcases hcalls : expat (untilZero msg) with - | ⟨c, calls⟩
  · have hparse : xmlParseClientEvent expat (untilZero msg) noticeCreateNotice
        = some noticeCreateNotice := by
      rw [xmlParseClientEvent, hcalls]
      rfl
    rw [dispatches_iff_of_parse hparse]
    refine iff_of_false (fun h => h rfl) ?_
    rintro ⟨opened, tag, before, text, behind, after, -, hnil, -⟩
    cases hnil
  · rw [hcalls] at hexpat
    obtain ⟨tag, htag⟩ := hexpat c rfl
    obtain ⟨info, hrun, hsound⟩ := sound_foldlM_call calls htag
    have hparse : xmlParseClientEvent expat (untilZero msg) noticeCreateNotice
        = some info.notice := by
      rw [xmlParseClientEvent, hcalls, hrun]
      rfl
    rw [dispatches_iff_of_parse hparse, hsound, lastText_ne_none_iff]
    constructor
    · rintro ⟨before, text, behind, after, rfl, hopened, hclean⟩
      exact ⟨c, tag, before, text, behind, after, htag, rfl, hopened, hclean⟩
    · rintro ⟨opened, tag', before, text, behind, after, htag', hcons, hopened, hclean⟩
      obtain ⟨rfl, rfl⟩ := List.cons.inj hcons
      obtain rfl : tag = tag' := Token.start.inj (htag.symm.trans htag')
      exact ⟨before, text, behind, after, rfl, hopened, hclean⟩

/-- The calls for a notice without elements. -/
def emptyCalls : List XmlCall := [⟨.start (ascii "notice"), []⟩, ⟨.stop (ascii "notice"), []⟩]

/-- **A notice without a sound**: whatever `malloc` has returned is enqueued. -/
theorem not_dispatches_empty : BeginsWithTag emptyCalls ∧
    ¬ Dispatches (fun _ => emptyCalls) (ascii "<notice></notice>") := by
  refine ⟨fun c hc => ⟨ascii "notice", Option.some.inj hc ▸ rfl⟩, ?_⟩
  rintro ⟨n, hn, hall⟩
  obtain rfl : noticeCreateNotice = n := Option.some.inj hn
  obtain ⟨enqueued, -, hnone⟩ := hall ⟨0, 0, 0, 0, 0, 0, 0, none⟩
  cases hnone

/-- The calls for a notice with a sound. -/
def birdCalls : List XmlCall :=
  [⟨.start (ascii "notice"), []⟩, ⟨.start (ascii "sound"), []⟩,
    ⟨.text (ascii "bird"), ascii "</sound></notice>"⟩, ⟨.stop (ascii "sound"), []⟩,
    ⟨.stop (ascii "notice"), []⟩]

/-- A notice with a sound. -/
theorem dispatches_sound : BeginsWithTag birdCalls ∧
    Dispatches (fun _ => birdCalls) (ascii "<notice><sound>bird</sound></notice>") := by
  have hbegins : BeginsWithTag birdCalls := fun c hc =>
    ⟨ascii "notice", Option.some.inj hc ▸ rfl⟩
  refine ⟨hbegins, (dispatches_iff hbegins).mpr ?_⟩
  exact ⟨_, _, [⟨.start (ascii "sound"), []⟩], ascii "bird", ascii "</sound></notice>", _, rfl, rfl,
    by decide, by decide⟩

end Peep
