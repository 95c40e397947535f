import Peep.Client.Notice

/-!
# Notices in XML

The server parses the document of a notice with expat, whose handlers fill a `NOTICE`
(`xml_notice.c`): the text of an element goes to the field of the last tag that was opened, as a
string or through `atoi`. `serverConvertNoticeToEngineEvent` makes an `EVENT` of the `NOTICE`.

* Text is cleaned up first (`createXmlNormalizedString`, `xml.c`). Blanks in front of anything but a
  letter or digit are dropped; a blank in front of one makes the next two characters be copied,
  also when the text ends before.
* Without a sound nothing is converted, and the `EVENT` is enqueued as `malloc` returned it.
* The type goes through `atoi`.

## Choices

expat is a parameter: the calls of the handlers for a document, with what is in memory behind each
text. `atoi` is glibc's, `strtol` cut off to an `int`. The date of a notice is read by nothing and
left out, and so is the hook, which only logs. Memory can be allocated. What
`createXmlNormalizedString` reads behind a text is not compared with the rest of the document, and
that its copy can run past the memory for it, by up to two bytes, has no effect on the parse.

## Main results

* `createXmlNormalizedString_of_isNameChar`, `createXmlNormalizedString_of_isBlank`
* `slot_set` — which field a tag writes
* `foldlM_call` — what is in the `NOTICE` after the calls for a document
-/

namespace Peep

open Bytes Decimal

/-! ## Cleaning up text -/

/-- `isalnum`. -/
def isalnum (c : UInt8) : Bool :=
  (48 ≤ c && c ≤ 57) || (65 ≤ c && c ≤ 90) || (97 ≤ c && c ≤ 122)

/-- The loop of `createXmlNormalizedString` over memory that begins with `n` characters of text;
`copy` counts the characters that are copied whatever they are. -/
def normalizeLoop : List UInt8 → ℕ → ℕ → List UInt8
  | [], _, _ => []
  | c :: mem, n, copy + 1 => c :: normalizeLoop mem (n - 1) copy
  | _ :: _, 0, 0 => []
  | c :: mem, n + 1, 0 =>
    if c = 10 ∨ c = 9 then normalizeLoop mem n 0
    else if c = 32 then
      -- the blank, the next character, and the one behind it by falling through to the default
      if isalnum (mem.headD 0) then c :: normalizeLoop mem n 2 else normalizeLoop mem n 0
    else c :: normalizeLoop mem n 0

/-- `createXmlNormalizedString`. -/
def createXmlNormalizedString (mem : List UInt8) (len : ℕ) : Option CString :=
  let str := untilZero (normalizeLoop mem len 0)
  if str = [] then none else some str

/-! ## Notices -/

/-- `NOTICE`. -/
structure NOTICE where
  /-- `host`. -/
  host : Option CString
  /-- `client`. -/
  client : Option CString
  /-- `sound`. -/
  sound : Option CString
  /-- `data`. -/
  data : Option CString
  /-- `type`. -/
  type : Int32
  /-- `location`. -/
  location : Int32
  /-- `priority`. -/
  priority : Int32
  /-- `volume`. -/
  volume : Int32
  /-- `dither`. -/
  dither : Int32
  /-- `metric`. -/
  metric : Int32
  /-- `flags`. -/
  flags : Int32

/-- `NOTICE_INTEGER_NOT_SET`. -/
def NOTICE_INTEGER_NOT_SET : Int32 := -1

/-- `noticeCreateNotice`. -/
def noticeCreateNotice : NOTICE where
  host := none
  client := none
  sound := none
  data := none
  type := NOTICE_INTEGER_NOT_SET
  location := NOTICE_INTEGER_NOT_SET
  priority := NOTICE_INTEGER_NOT_SET
  volume := NOTICE_INTEGER_NOT_SET
  dither := NOTICE_INTEGER_NOT_SET
  metric := NOTICE_INTEGER_NOT_SET
  flags := 0

/-- `tolower`. -/
def tolower (c : UInt8) : UInt8 := if 65 ≤ c && c ≤ 90 then c + 32 else c

/-- `!strcasecmp`. -/
def strcaseeq (a b : CString) : Bool := a.map tolower = b.map tolower

/-- `strtol`. -/
def strtol (s : CString) : ℤ :=
  max (-2 ^ 63) (min (leadingInt (s.dropWhile isspace)) (2 ^ 63 - 1))

/-- `atoi`. -/
def atoi (s : CString) : Int32 := Int32.ofInt (strtol s)

/-- `(unsigned char)`. -/
def toUChar (n : Int32) : UInt8 := UInt8.ofInt n.toInt

/-- `(unsigned char)atoi`, as it is stored in an `int`. -/
def atoiUChar (s : CString) : Int32 := Int32.ofInt (toUChar (atoi s)).toNat

/-- The field of a tag gets its text. -/
def NOTICE.set (n : NOTICE) (tag string : CString) : NOTICE :=
  if strcaseeq tag (ascii "host") then { n with host := some string }
  else if strcaseeq tag (ascii "data") then { n with data := some string }
  else if strcaseeq tag (ascii "client") then { n with client := some string }
  else if strcaseeq tag (ascii "sound") then { n with sound := some string }
  else if strcaseeq tag (ascii "type") then { n with type := atoiUChar string }
  else if strcaseeq tag (ascii "location") then { n with location := atoiUChar string }
  else if strcaseeq tag (ascii "priority") then { n with priority := atoiUChar string }
  else if strcaseeq tag (ascii "volume") then { n with volume := atoiUChar string }
  else if strcaseeq tag (ascii "dither") then { n with dither := atoiUChar string }
  else if strcaseeq tag (ascii "flags") then { n with flags := atoi string }
  else if strcaseeq tag (ascii "metric") then { n with metric := atoi string }
  -- the date, or an unsupported tag
  else n

/-! ## Handlers -/

/-- `CLIENT_PARSE_INFO`. -/
structure ParseInfo where
  /-- `notice`. -/
  notice : NOTICE
  /-- `current_tag`. -/
  currentTag : Option CString

/-- `xmlParseClientStart`. -/
def xmlParseClientStart (info : ParseInfo) (tag : CString) : ParseInfo :=
  { info with currentTag := some tag }

/-- `xmlParseClientEnd`. -/
def xmlParseClientEnd (info : ParseInfo) (_tag : CString) : ParseInfo := info

/-- `xmlParseClientChar`, with the text and what is in memory behind it. -/
def xmlParseClientChar (info : ParseInfo) (text behind : List UInt8) : Option ParseInfo :=
  match createXmlNormalizedString (text ++ behind) text.length with
  | none => some info
  | some string =>
    -- `strcasecmp` reads the tag, which is `NULL` before the first one
    info.currentTag.map fun tag => { info with notice := info.notice.set tag string }

/-- What a call of a handler is about. -/
inductive Token
  | start (tag : CString)
  | text (text : List UInt8)
  | stop (tag : CString)
  deriving DecidableEq

/-- A call of a handler, and what is in memory behind its text. -/
structure XmlCall where
  /-- The arguments. -/
  token : Token
  /-- The memory behind the text. -/
  behind : List UInt8

/-- The handler is called. -/
def ParseInfo.call (info : ParseInfo) (c : XmlCall) : Option ParseInfo :=
  match c.token with
  | .start tag => some (xmlParseClientStart info tag)
  | .text text => xmlParseClientChar info text c.behind
  | .stop tag => some (xmlParseClientEnd info tag)

/-- `xmlParseClientEvent`. -/
def xmlParseClientEvent (expat : List UInt8 → List XmlCall) (xml : CString) (n : NOTICE) :
    Option NOTICE :=
  ((expat xml).foldlM ParseInfo.call ⟨n, none⟩).map ParseInfo.notice

/-- `serverConvertNoticeToEngineEvent`. -/
def serverConvertNoticeToEngineEvent (event : Event) (n : NOTICE) : Event :=
  match n.sound with
  | none => event
  | some sound =>
    { type := toUChar n.type
      loc := toUChar n.location
      prior := toUChar n.priority
      vol := toUChar n.volume
      dither := toUChar n.dither
      flags := n.flags
      soundLen := Int32.ofNat sound.length
      sound := some sound }

/-- `serverProcessClientEvent`: the event that is enqueued, with what `malloc` finds for it. -/
def serverProcessClientEvent (expat : List UInt8 → List XmlCall) (event : Event) :
    ClientEvent → Option Event
  | .xml msg =>
    (xmlParseClientEvent expat (untilZero msg) noticeCreateNotice).map
      (serverConvertNoticeToEngineEvent event)
  | .event e => some e

variable {n : Notice} {m : NOTICE} {a b : Attribute} {info : ParseInfo} {calls : List XmlCall}
  {text behind s : List UInt8} {c : UInt8}

/-! ## Text -/

/-- A blank. -/
def isBlank (c : UInt8) : Bool := c = 10 || c = 9 || c = 32

theorem isBlank_iff : isBlank c = true ↔ (c = 10 ∨ c = 9) ∨ c = 32 := by
  rw [isBlank, Bool.or_eq_true, Bool.or_eq_true, decide_eq_true_iff, decide_eq_true_iff,
    decide_eq_true_iff]

theorem isBlank_of_isNameChar (hc : isNameChar c = true) :
    ¬ (c = 10 ∨ c = 9) ∧ c ≠ 32 ∧ c ≠ 0 := by
  refine ⟨?_, ?_, ?_⟩
  · rintro (rfl | rfl) <;> exact absurd hc (by decide)
  · rintro rfl
    exact absurd hc (by decide)
  · rintro rfl
    exact absurd hc (by decide)

theorem normalizeLoop_of_isNameChar (h : ∀ c ∈ text, isNameChar c = true) :
    normalizeLoop (text ++ behind) text.length 0 = text := by
  induction text with
  | nil => cases behind <;> rfl
  | cons c text ih =>
    obtain ⟨hnl, hsp, -⟩ := isBlank_of_isNameChar (h c List.mem_cons_self)
    rw [List.cons_append, List.length_cons, normalizeLoop, if_neg hnl, if_neg hsp,
      ih fun d hd => h d (List.mem_cons_of_mem c hd)]

/-- **A name is left as it is.** -/
theorem createXmlNormalizedString_of_isNameChar (h : ∀ c ∈ text, isNameChar c = true) :
    createXmlNormalizedString (text ++ behind) text.length
      = if text = [] then none else some text := by
  have hzero : (0 : UInt8) ∉ text := fun h0 => (isBlank_of_isNameChar (h 0 h0)).2.2 rfl
  rw [createXmlNormalizedString, normalizeLoop_of_isNameChar h, untilZero_eq_self hzero]

/-- **Blanks are dropped** if no letter or digit is behind them. -/
theorem normalizeLoop_of_isBlank (h : text.all isBlank = true)
    (hbehind : text.getLast? = some 32 → isalnum (behind.headD 0) = false) :
    normalizeLoop (text ++ behind) text.length 0 = [] := by
  induction text with
  | nil => cases behind <;> rfl
  | cons c text ih =>
    rw [List.all_cons, Bool.and_eq_true] at h
    have hrest : normalizeLoop (text ++ behind) text.length 0 = [] := by
      refine ih h.2 fun hlast => hbehind ?_
      rw [List.getLast?_cons, hlast]
      rfl
    have hnext : c = 32 → isalnum ((text ++ behind).headD 0) = false := by
      rintro rfl
      rcases text with - | ⟨d, text⟩
      · exact hbehind rfl
      · obtain hd := isBlank_iff.mp (List.all_eq_true.mp h.2 d List.mem_cons_self)
        rcases hd with (rfl | rfl) | rfl <;> rfl
    rw [List.cons_append, List.length_cons, normalizeLoop]
    split_ifs with hnl hsp halnum
    · exact hrest
    · exact absurd halnum (by rw [hnext hsp]; exact Bool.false_ne_true)
    · exact hrest
    · exact absurd ((isBlank_iff.mp h.1).resolve_right hsp) hnl

theorem createXmlNormalizedString_of_isBlank (h : text.all isBlank = true)
    (hbehind : text.getLast? = some 32 → isalnum (behind.headD 0) = false) :
    createXmlNormalizedString (text ++ behind) text.length = none := by
  rw [createXmlNormalizedString, normalizeLoop_of_isBlank h hbehind]
  rfl

/-! ## Documents -/

/-- The text between the elements of a document is left out of what is compared. -/
def Token.isKept : Token → Bool
  | .text text => !text.all isBlank
  | _ => true

/-- The tokens of an attribute. -/
def attributeTokens (n : Notice) (a : Attribute) : List Token :=
  match n a with
  | none => []
  | some v => [.start a.name, .text v.text, .stop a.name]

/-- The tokens of the document of a notice. -/
def noticeTokens (n : Notice) : List Token :=
  .start (ascii "notice") :: Attribute.sorted.flatMap (attributeTokens n) ++
    [.stop (ascii "notice")]

/-- Behind blanks there is no letter or digit. -/
def XmlCall.endsBlank (c : XmlCall) : Bool :=
  match c.token with
  | .text text => !text.all isBlank || text.getLast? ≠ some 32 || !isalnum (c.behind.headD 0)
  | _ => true

/-- The calls are those for the tokens of a document, each text in one call, but for blanks. -/
structure Reports (calls : List XmlCall) (tokens : List Token) : Prop where
  /-- The tokens. -/
  tokens_eq : (calls.map XmlCall.token).filter Token.isKept = tokens.filter Token.isKept
  /-- The memory behind blanks. -/
  endsBlank : ∀ c ∈ calls, c.endsBlank = true

/-! ## Fields -/

/-- What is in the field of an attribute. -/
def NOTICE.slot (m : NOTICE) : Attribute → Option CString ⊕ Int32
  | .client => .inl m.client
  | .data => .inl m.data
  | .host => .inl m.host
  | .sound => .inl m.sound
  | .dither => .inr m.dither
  | .flags => .inr m.flags
  | .location => .inr m.location
  | .metric => .inr m.metric
  | .priority => .inr m.priority
  | .type => .inr m.type
  | .volume => .inr m.volume
  | .date | .level => .inl none

/-- What a text becomes in the field of an attribute. -/
def slotOf (s : CString) : Attribute → Option CString ⊕ Int32
  | .client | .data | .host | .sound => .inl (some s)
  | .flags | .metric => .inr (atoi s)
  | .dither | .location | .priority | .type | .volume => .inr (atoiUChar s)
  | .date | .level => .inl none

/-- **A tag writes its own field.** -/
theorem slot_set (m : NOTICE) (a : Attribute) (s : CString) :
    (m.set a.name s).slot a = slotOf s a := by
  cases a <;> rfl

/-- **A tag writes no other field.** -/
theorem slot_set_of_ne (m : NOTICE) (s : CString) (h : b ≠ a) :
    (m.set a.name s).slot b = m.slot b := by
  cases a <;> cases b <;> first | rfl | exact absurd rfl h

/-! ## Runs of the handlers -/

/-- A call about blanks does nothing. -/
theorem call_of_not_isKept {c : XmlCall} (hc : c.token.isKept = false)
    (hbehind : c.endsBlank = true) (info : ParseInfo) : info.call c = some info := by
  obtain ⟨token, behind⟩ := c
  rcases token with tag | text | tag
  · cases hc
  · have hblank : text.all isBlank = true := by
      rwa [Token.isKept, Bool.not_eq_false'] at hc
    have hlast : text.getLast? = some 32 → isalnum (behind.headD 0) = false := by
      intro hlast
      simpa [XmlCall.endsBlank, hblank, hlast] using hbehind
    show xmlParseClientChar info text behind = some info
    rw [xmlParseClientChar, createXmlNormalizedString_of_isBlank hblank hlast]
  · cases hc

/-- Only the other calls count. -/
theorem foldlM_call_filter {tokens : List Token} (h : Reports calls tokens) (info : ParseInfo) :
    calls.foldlM ParseInfo.call info
      = (calls.filter fun c => c.token.isKept).foldlM ParseInfo.call info := by
  have hbehind := h.endsBlank
  clear h
  induction calls generalizing info with
  | nil => rfl
  | cons c calls ih =>
    have hrest := fun info => ih info fun d hd => hbehind d (List.mem_cons_of_mem c hd)
    by_cases hc : c.token.isKept = true
    · rw [List.filter_cons, if_pos hc, List.foldlM_cons, List.foldlM_cons]
      exact congrArg _ (funext hrest)
    · rw [List.filter_cons, if_neg hc, List.foldlM_cons,
        call_of_not_isKept (Bool.eq_false_of_not_eq_true hc) (hbehind c List.mem_cons_self) info]
      exact hrest info

/-- The text of an element whose tag is open goes to its field. -/
theorem call_text (info : ParseInfo) (text behind : List UInt8)
    (htag : info.currentTag = some a.name) :
    ∃ info', info.call ⟨.text text, behind⟩ = some info' ∧
      (∀ b ≠ a, info'.notice.slot b = info.notice.slot b) ∧
      ((∀ c ∈ text, isNameChar c = true) → text ≠ [] → info'.notice.slot a = slotOf text a) := by
  have hcall : info.call ⟨.text text, behind⟩ = xmlParseClientChar info text behind := rfl
  rw [hcall, xmlParseClientChar, htag]
  rcases hstring : createXmlNormalizedString (text ++ behind) text.length with - | string
  · refine ⟨info, rfl, fun _ _ => rfl, fun hname hne => ?_⟩
    rw [createXmlNormalizedString_of_isNameChar hname, if_neg hne] at hstring
    exact absurd hstring (by simp)
  · refine ⟨⟨info.notice.set a.name string, some a.name⟩, rfl,
      fun b hb => slot_set_of_ne _ _ hb, fun hname hne => ?_⟩
    rw [createXmlNormalizedString_of_isNameChar hname, if_neg hne] at hstring
    obtain rfl := Option.some.inj hstring
    exact slot_set _ _ _

/-- The fields after the calls for some attributes: those with a name for a value have it, and what
is not an attribute of the document is as it was. -/
structure Filled (n : Notice) (as : List Attribute) (m m' : NOTICE) : Prop where
  /-- Other fields are as they were. -/
  slot_of_notMem : ∀ b ∉ as, m'.slot b = m.slot b
  /-- A name is in its field, and an empty one leaves the field. -/
  slot_of_mem : ∀ b ∈ as, ∀ v, n b = some v → (∀ c ∈ v.text, isNameChar c = true) →
    m'.slot b = if v.text = [] then m.slot b else slotOf v.text b

theorem call_start {c : XmlCall} {tag : CString} (hc : c.token = .start tag) (info : ParseInfo) :
    info.call c = some ⟨info.notice, some tag⟩ := by
  rw [ParseInfo.call, hc]
  rfl

theorem call_stop {c : XmlCall} {tag : CString} (hc : c.token = .stop tag) (info : ParseInfo) :
    info.call c = some info := by
  rw [ParseInfo.call, hc]
  rfl

/-- **The calls for one attribute.** -/
theorem call_attribute (info : ParseInfo)
    (htokens : calls.map XmlCall.token = (attributeTokens n a).filter Token.isKept) :
    ∃ info', calls.foldlM ParseInfo.call info = some info' ∧
      Filled n [a] info.notice info'.notice := by
  rcases hv : n a with - | v
  · rw [attributeTokens, hv] at htokens
    obtain rfl := List.map_eq_nil_iff.mp htokens
    refine ⟨info, rfl, fun _ _ => rfl, fun b hb v hbv => ?_⟩
    rw [List.mem_singleton.mp hb, hv] at hbv
    exact nomatch hbv
  rw [attributeTokens, hv] at htokens
  obtain ⟨opened, rest, rfl, hopened, htokens⟩ := List.map_eq_cons_iff.mp htokens
  rw [List.foldlM_cons, call_start hopened]
  show ∃ info', rest.foldlM ParseInfo.call ⟨info.notice, some a.name⟩ = some info' ∧ _
  by_cases hblank : v.text.all isBlank = true
  · -- there is no call for the text
    rw [List.filter_cons_of_neg (by rw [Token.isKept, hblank]; decide)] at htokens
    obtain ⟨closed, rest, rfl, hclosed, htokens⟩ := List.map_eq_cons_iff.mp htokens
    obtain rfl := List.map_eq_nil_iff.mp htokens
    rw [List.foldlM_cons, call_stop hclosed]
    refine ⟨_, rfl, fun _ _ => rfl, fun b hb w hw hname => ?_⟩
    rw [List.mem_singleton.mp hb, hv] at hw
    obtain rfl := Option.some.inj hw
    rw [if_pos]
    refine List.eq_nil_iff_forall_not_mem.mpr fun c hc => ?_
    obtain ⟨hnl, hsp, -⟩ := isBlank_of_isNameChar (hname c hc)
    exact (isBlank_iff.mp (List.all_eq_true.mp hblank c hc)).elim hnl hsp
  · rw [List.filter_cons_of_pos (by rw [Token.isKept, Bool.eq_false_of_not_eq_true hblank]; rfl)]
      at htokens
    obtain ⟨⟨_, behind⟩, _, rfl, rfl, hrest⟩ := List.map_eq_cons_iff.mp htokens
    obtain ⟨closed, _, rfl, hclosed, hnil⟩ := List.map_eq_cons_iff.mp hrest
    obtain rfl := List.map_eq_nil_iff.mp hnil
    obtain ⟨info', hcall, hother, hslot⟩ := call_text ⟨info.notice, some a.name⟩ v.text behind
      rfl
    rw [List.foldlM_cons, hcall]
    show ∃ info'', [closed].foldlM ParseInfo.call info' = some info'' ∧ _
    rw [List.foldlM_cons, call_stop hclosed]
    refine ⟨info', rfl, fun b hb => hother b (List.mem_singleton.not.mp hb),
      fun b hb w hw hname => ?_⟩
    rw [List.mem_singleton.mp hb, hv] at hw
    obtain rfl := Option.some.inj hw
    have hne : v.text ≠ [] := fun h => hblank (by rw [h]; rfl)
    rw [List.mem_singleton.mp hb, if_neg hne]
    exact hslot hname hne

/-- **The calls for some attributes**, one after the other. -/
theorem call_attributes {as : List Attribute} (info : ParseInfo) (has : as.Nodup)
    (htokens : calls.map XmlCall.token
      = as.flatMap fun a => (attributeTokens n a).filter Token.isKept) :
    ∃ info', calls.foldlM ParseInfo.call info = some info' ∧
      Filled n as info.notice info'.notice := by
  induction as generalizing calls info with
  | nil =>
    obtain rfl := List.map_eq_nil_iff.mp htokens
    exact ⟨info, rfl, fun _ _ => rfl, nofun⟩
  | cons a as ih =>
    obtain ⟨hnotMem, has⟩ := List.nodup_cons.mp has
    rw [List.flatMap_cons] at htokens
    obtain ⟨first, rest, rfl, hfirst, hrest⟩ := List.map_eq_append_iff.mp htokens
    obtain ⟨info₁, hcall₁, hfilled₁⟩ := call_attribute info hfirst
    obtain ⟨info₂, hcall₂, hfilled₂⟩ := ih info₁ has hrest
    refine ⟨info₂, ?_, fun b hb => ?_, fun b hb v hv hname => ?_⟩
    · rw [List.foldlM_append, hcall₁]
      exact hcall₂
    · rw [hfilled₂.slot_of_notMem b fun h => hb (List.mem_cons_of_mem a h),
        hfilled₁.slot_of_notMem b fun h => hb (List.mem_cons.mpr (.inl (List.mem_singleton.mp h)))]
    · rcases List.mem_cons.mp hb with rfl | hb
      · rw [hfilled₂.slot_of_notMem b hnotMem,
          hfilled₁.slot_of_mem b (List.mem_singleton_self b) v hv hname]
      · have hne : b ∉ [a] := fun h => hnotMem (List.mem_singleton.mp h ▸ hb)
        rw [hfilled₂.slot_of_mem b hb v hv hname, hfilled₁.slot_of_notMem b hne]

/-- The calls for a document, by any list of the attributes that it has. -/
theorem foldlM_call_of_flatMap (info : ParseInfo) (h : Reports calls (noticeTokens n))
    {as : List Attribute} (has : as.Nodup)
    (hattributes : Attribute.sorted.flatMap (attributeTokens n) = as.flatMap (attributeTokens n)) :
    ∃ info', calls.foldlM ParseInfo.call info = some info' ∧
      Filled n as info.notice info'.notice := by
  have htokens := h.tokens_eq
  rw [List.filter_map, noticeTokens, hattributes, List.cons_append, List.filter_cons_of_pos rfl,
    List.filter_append, List.filter_flatMap] at htokens
  obtain ⟨opened, rest, hcalls, hopened, hrest⟩ := List.map_eq_cons_iff.mp htokens
  obtain ⟨elements, closing, rfl, helements, hclosing⟩ := List.map_eq_append_iff.mp hrest
  obtain ⟨closed, rest, rfl, hclosed, hnil⟩ := List.map_eq_cons_iff.mp hclosing
  obtain rfl := List.map_eq_nil_iff.mp hnil
  obtain ⟨info', hcall, hfilled⟩ := call_attributes
    ⟨info.notice, some (ascii "notice")⟩ has helements
  refine ⟨info', ?_, hfilled⟩
  have hfilter : (calls.filter fun c => c.token.isKept) = opened :: (elements ++ [closed]) := hcalls
  rw [foldlM_call_filter h, hfilter, List.foldlM_cons, call_start hopened]
  show (elements ++ [closed]).foldlM ParseInfo.call ⟨info.notice, some (ascii "notice")⟩ = _
  rw [List.foldlM_append, hcall]
  show [closed].foldlM ParseInfo.call info' = _
  rw [List.foldlM_cons, call_stop hclosed]
  rfl

/-- **What is in the `NOTICE` after the calls for a document.** -/
theorem foldlM_call (info : ParseInfo) (h : Reports calls (noticeTokens n)) :
    ∃ info', calls.foldlM ParseInfo.call info = some info' ∧
      Filled n Attribute.sorted info.notice info'.notice :=
  foldlM_call_of_flatMap info h (by decide) rfl

end Peep
