import Peep.Client.Discovery
import Peep.Client.Notice
import Peep.Library.Text

/-!
# The servers of a client without autodiscovery

Without autodiscovery a client sends its notices to the servers that `cacheServers`
(`Net::Peep::BC`) has put into a table: the one of the options `server` and `port`, if both are
set, and those of the classes of the client. The classes are in the section of the client in the
configuration file, behind `class`; a line may list many, and there may be many such lines.

`parseClient` (`Net::Peep::Parser`) splits a line into its classes and goes through them, but for
each of them it assigns the whole line to the attribute `class` of the client, which has one value.
`cacheServers` compares the name of a class with that value.

## Choices

The lines of the section are those behind `client`. What its blocks hold is left out: the options,
the configuration of the program and the notifications. The name of the client has no character
with a meaning in a regular expression. `\s` is what `isspace` is in C.

The options and the classes are those of the whole configuration. That a name does not resolve, or
is empty, ends the program.

## Main results

* `cls_parseClient` — what becomes of the classes of a section
* `mem_cacheServers` — the servers of the table
* `cachesListed_iff` — the sections whose classes are all looked up
-/

namespace Peep

open Bytes Decimal Text

/-! ## The section of a client -/

/-- `Net::Peep::Data::Client`. -/
structure ClientData where
  /-- `name`. -/
  name : CString
  /-- `class`. -/
  cls : Option CString
  /-- `port`. -/
  port : Option CString
  deriving DecidableEq

/-- The blocks of a section. -/
inductive ClientBlock
  /-- `default`. -/
  | default
  /-- `config`. -/
  | config
  /-- `notification`. -/
  | notification
  deriving DecidableEq

/-- The word that begins a block. -/
def ClientBlock.keyword : ClientBlock → String
  | .default => "default"
  | .config => "config"
  | .notification => "notification"

/-- What is behind some text at the beginning of a line, as in `/^\s*class(.*)/`. -/
def behind (text : CString) (line : CString) : Option CString :=
  if text.isPrefixOf (line.dropWhile isspace) then
    some (((line.dropWhile isspace).drop text.length).takeWhile (· ≠ 10))
  else none

/-- The line begins with the text. -/
def begins (text : CString) (line : CString) : Bool := (behind text line).isSome

/-- `/^\s*#/ or /^\s*$/`. -/
def isRemark (line : CString) : Bool := begins (ascii "#") line || (line.dropWhile isspace).isEmpty

/-- The classes that a line lists: `@classes`. -/
def classesOf (line : CString) : List CString :=
  if isRemark line then [] else ((behind (ascii "class") line).map (words isspace)).getD []

/-- What a line does to the client. -/
def ClientData.read (client : ClientData) (line : CString) : ClientData :=
  if isRemark line then client
  else
    let client := match behind (ascii "class") line with
      -- every class of the line is assigned the trimmed line
      | some cls =>
        (words isspace cls).foldl (fun c _ => { c with cls := some (trim isspace cls) }) client
      | none => client
    match (behind (ascii "port ") line).map (List.takeWhile isDigit) with
    | some (d :: ds) => { client with port := some (d :: ds) }
    | _ => client

/-- The block that the parser is in after a line. -/
def nextClientBlock (line : CString) : Option ClientBlock → Option ClientBlock
  | some b => if IsFalse line ∨ begins (ascii ("end " ++ b.keyword)) line then none else some b
  | none =>
    if isRemark line then none
    else if begins (ascii "default") line then some .default
    else if begins (ascii "config") line then some .config
    else if begins (ascii "notification") line then some .notification
    else none

/-- The loop of `parseClient`; `none` if the section does not end. -/
def parseClient : Option ClientBlock → ClientData → List CString → Option ClientData
  | _, _, [] => none
  | some b, client, line :: file => parseClient (nextClientBlock line (some b)) client file
  | none, client, line :: file =>
    if IsFalse line then none
    else if begins (ascii "end client " ++ client.name) line then some client
    else parseClient (nextClientBlock line none) (client.read line) file

/-- The classes that a section lists, line by line. -/
def classLines (name : CString) : Option ClientBlock → List CString → List (List CString)
  | _, [] => []
  | some b, line :: file => classLines name (nextClientBlock line (some b)) file
  | none, line :: file =>
    if IsFalse line ∨ begins (ascii "end client " ++ name) line then []
    else if classesOf line = [] then classLines name (nextClientBlock line none) file
    else classesOf line :: classLines name (nextClientBlock line none) file

/-- A new `Net::Peep::Data::Client` with a name. -/
def ClientData.new (name : CString) : ClientData := ⟨name, none, none⟩

/-! ## The table -/

/-- `Net::Peep::Data::Conf::Class::Server`; an attribute that is not set is empty. -/
structure ConfServer where
  /-- `name`. -/
  name : CString
  /-- `port`. -/
  port : CString
  deriving DecidableEq

/-- `"$serverhost:$serverport"`. -/
def ConfServer.key (s : ConfServer) : CString := s.name ++ [58] ++ s.port

/-- `Net::Peep::Data::Conf::Class`. -/
structure ConfClass where
  /-- `name`. -/
  name : CString
  /-- A class has a name. -/
  name_ne_nil : name ≠ []
  /-- The servers. -/
  servers : List ConfServer

/-- The table of servers. -/
abbrev ServerCache := AList fun _ : CString => SockAddr

/-- `sockaddr_in` of the port and `inet_aton` of the name; `none` if it dies. -/
abbrev Resolver := ConfServer → Option SockAddr

/-- What `cacheServers` does with a server. -/
def cacheServer (sockaddr : Resolver) (cache : ServerCache) (server : ConfServer) :
    Option ServerCache :=
  if IsFalse server.port ∨ IsFalse server.name then none
  else do
    let a ← sockaddr server
    some (if server.key ∈ cache then cache else cache.insert server.key a)

/-- What it does with a class. -/
def cacheClass (sockaddr : Resolver) (client : ClientData) (cache : ServerCache) (c : ConfClass) :
    Option ServerCache :=
  -- `undef` is compared as the empty string
  if c.name = client.cls.getD [] then c.servers.foldlM (cacheServer sockaddr) cache
  else some cache

/-- `cacheServers`; `options` is the server of the options `server` and `port`, if both exist. -/
def cacheServers (sockaddr : Resolver) (autodiscovery : Bool) (options : Option ConfServer)
    (classes : List ConfClass) (client : ClientData) : Option ServerCache := do
  let cache ← if autodiscovery then some ∅
    else (options.toList.foldlM (cacheServer sockaddr) ∅ : Option ServerCache)
  classes.foldlM (cacheClass sockaddr client) cache

/-- **The union.** Whatever the options and the classes of the configuration, the servers in the
table are that of the options and those of the classes that the section lists. -/
def CachesListed (name : CString) (file : List CString) (client : ClientData) : Prop :=
  ∀ sockaddr options classes cache,
    cacheServers sockaddr false options classes client = some cache → ∀ key,
      key ∈ cache ↔ (∃ s ∈ options, s.key = key) ∨
        ∃ c ∈ classes, c.name ∈ (classLines name none file).flatten ∧ ∃ s ∈ c.servers, s.key = key

/-- The section lists one class at most, and the last line that lists classes lists it once. -/
def OneClass (lists : List (List CString)) : Prop :=
  ∃ w, (∀ v ∈ lists.flatten, v = w) ∧ ∀ l ∈ lists.getLast?, l = [w]

variable {name line key w : CString} {file : List CString} {block : Option ClientBlock}
  {client client' : ClientData} {lists : List (List CString)} {l : List CString}
  {sockaddr : Resolver} {cache cache' : ServerCache} {s : ConfServer} {servers : List ConfServer}
  {classes : List ConfClass}

/-! ## What becomes of the classes -/

theorem name_read (client : ClientData) (line : CString) :
    (client.read line).name = client.name := by
  have hfold (cls : CString) (ws : List CString) (client : ClientData) :
      (ws.foldl (fun c _ => { c with cls := some cls }) client).name = client.name := by
    induction ws generalizing client with
    | nil => rfl
    | cons w ws ih => exact ih _
  rw [ClientData.read]
  split_ifs
  · rfl
  · cases behind (ascii "class") line <;> dsimp only <;> split <;> simp only [hfold]

/-- A line without classes leaves the class alone. -/
theorem cls_read_of_nil (h : classesOf line = []) (client : ClientData) :
    (client.read line).cls = client.cls := by
  rw [classesOf] at h
  rw [ClientData.read]
  split_ifs at h ⊢
  · rfl
  · rcases hbehind : behind (ascii "class") line with - | cls
    · dsimp only
      split <;> rfl
    · rw [hbehind] at h
      change words isspace cls = [] at h
      dsimp only
      rw [h]
      split <;> rfl

/-- **A line with classes** sets the class to the whole of them. -/
theorem cls_read_of_ne_nil (h : classesOf line ≠ []) (client : ClientData) :
    ∃ t, (client.read line).cls = some (trim isspace t) ∧ words isspace t = classesOf line := by
  have hfold (cls : CString) (ws : List CString) (hws : ws ≠ []) (client : ClientData) :
      (ws.foldl (fun c _ => { c with cls := some cls }) client).cls = some cls := by
    induction ws generalizing client with
    | nil => exact absurd rfl hws
    | cons w ws ih =>
      rcases ws with - | ⟨v, ws⟩
      · rfl
      · exact ih (List.cons_ne_nil v ws) _
  rw [classesOf] at h ⊢
  rw [ClientData.read]
  split_ifs at h ⊢
  · exact absurd rfl h
  · rcases hbehind : behind (ascii "class") line with - | cls
    · rw [hbehind] at h
      exact absurd rfl h
    · rw [hbehind] at h
      refine ⟨cls, ?_, rfl⟩
      dsimp only
      split <;> exact hfold _ _ h _

/-- **What becomes of the classes of a section**: the last line with classes, as a whole. -/
theorem cls_parseClient (h : parseClient block client file = some client') :
    (classLines client.name block file = [] → client'.cls = client.cls) ∧
      ∀ l ∈ (classLines client.name block file).getLast?,
        ∃ t, client'.cls = some (trim isspace t) ∧ words isspace t = l := by
  induction file generalizing block client with
  | nil => cases block <;> cases h
  | cons line file ih =>
    cases block with
    | some b =>
      rw [parseClient] at h
      rw [classLines]
      exact ih h
    | none =>
      rw [parseClient] at h
      rw [classLines]
      split_ifs at h with hfalse hend
      · obtain rfl := Option.some.inj h
        rw [if_pos (.inr hend)]
        exact ⟨fun _ => rfl, fun l hl => by cases hl⟩
      · have ih := ih h
        rw [name_read] at ih
        rw [if_neg (not_or.mpr ⟨hfalse, hend⟩)]
        split_ifs with hnil
        · rwa [cls_read_of_nil hnil] at ih
        · refine ⟨fun hcons => hcons.elim, fun l hl => ?_⟩
          rcases hlast : (classLines client.name (nextClientBlock line none) file).getLast?
            with - | l'
          · rw [List.getLast?_eq_none_iff] at hlast
            rw [hlast] at hl
            obtain rfl := Option.some.inj hl
            rw [ih.1 hlast]
            exact cls_read_of_ne_nil hnil client
          · rw [List.getLast?_cons, hlast] at hl
            obtain rfl := Option.some.inj hl
            exact ih.2 l' hlast

/-! ## What is in the table -/

theorem mem_cacheServer (h : cacheServer sockaddr cache s = some cache') :
    key ∈ cache' ↔ key ∈ cache ∨ s.key = key := by
  rw [cacheServer] at h
  by_cases hfalse : IsFalse s.port ∨ IsFalse s.name
  · rw [if_pos hfalse] at h
    cases h
  rw [if_neg hfalse] at h
  obtain ⟨a, -, h⟩ := Option.bind_eq_some_iff.mp h
  obtain rfl := Option.some.inj h
  split_ifs with hmem
  · refine ⟨.inl, ?_⟩
    rintro (hkey | rfl)
    · exact hkey
    · exact hmem
  · rw [AList.mem_insert, or_comm, eq_comm]

theorem mem_foldlM_cacheServer (h : servers.foldlM (cacheServer sockaddr) cache = some cache') :
    key ∈ cache' ↔ key ∈ cache ∨ ∃ s ∈ servers, s.key = key := by
  induction servers generalizing cache with
  | nil =>
    obtain rfl := Option.some.inj h
    simp
  | cons s servers ih =>
    rw [List.foldlM_cons] at h
    obtain ⟨cache₁, hs, h⟩ := Option.bind_eq_some_iff.mp h
    rw [ih h, mem_cacheServer hs, List.exists_mem_cons_iff, or_assoc]

theorem mem_foldlM_cacheClass
    (h : classes.foldlM (cacheClass sockaddr client) cache = some cache') :
    key ∈ cache' ↔ key ∈ cache ∨
      ∃ c ∈ classes, c.name = client.cls.getD [] ∧ ∃ s ∈ c.servers, s.key = key := by
  induction classes generalizing cache with
  | nil =>
    obtain rfl := Option.some.inj h
    simp
  | cons c classes ih =>
    rw [List.foldlM_cons] at h
    obtain ⟨cache₁, hc, h⟩ := Option.bind_eq_some_iff.mp h
    rw [ih h, List.exists_mem_cons_iff, ← or_assoc]
    refine or_congr_left ?_
    rw [cacheClass] at hc
    split_ifs at hc with hname
    · rw [mem_foldlM_cacheServer hc]
      simp [hname]
    · obtain rfl := Option.some.inj hc
      simp [hname]

/-- **The servers of the table**: those of the class that the client has. -/
theorem mem_cacheServers {options : Option ConfServer}
    (h : cacheServers sockaddr false options classes client = some cache) :
    key ∈ cache ↔ (∃ s ∈ options, s.key = key) ∨
      ∃ c ∈ classes, c.name = client.cls.getD [] ∧ ∃ s ∈ c.servers, s.key = key := by
  obtain ⟨cache₁, hoptions, hclasses⟩ := Option.bind_eq_some_iff.mp h
  rw [mem_foldlM_cacheClass hclasses]
  refine or_congr_left ?_
  have hmem : key ∈ cache₁ ↔ _ := mem_foldlM_cacheServer hoptions
  rw [hmem]
  simp

theorem cacheServers_none : cacheServers sockaddr false none classes client =
    classes.foldlM (cacheClass sockaddr client) ∅ := rfl

/-- The classes looked up are those listed if and only if there is one, and the client has it. -/
theorem cachesListed_iff_forall : CachesListed name file client ↔
    ∀ v, v ≠ [] → (v ∈ (classLines name none file).flatten ↔ v = client.cls.getD []) := by
  constructor
  · intro h v hv
    -- one class with the name, and one server
    set s : ConfServer := ⟨ascii "h", ascii "1"⟩ with hs
    set c : ConfClass := ⟨v, hv, [s]⟩ with hc
    obtain ⟨cache, hcache⟩ : ∃ cache,
        cacheServers (fun _ => some []) false none [c] client = some cache := by
      have hserver : cacheServer (fun _ => some []) ∅ s = some (AList.insert s.key [] ∅) := by
        rw [cacheServer, if_neg (by decide)]
        rfl
      by_cases hname : v = client.cls.getD []
      · refine ⟨AList.insert s.key [] ∅, ?_⟩
        rw [cacheServers_none, List.foldlM_cons, cacheClass, if_pos hname, List.foldlM_cons,
          hserver]
        rfl
      · refine ⟨∅, ?_⟩
        rw [cacheServers_none, List.foldlM_cons, cacheClass, if_neg hname]
        rfl
    have hlisted := h _ _ _ _ hcache s.key
    rw [mem_cacheServers hcache] at hlisted
    simpa [hc] using hlisted.symm
  · intro h sockaddr options classes cache hcache key
    rw [mem_cacheServers hcache]
    refine or_congr_right (exists_congr fun c => and_congr_right fun _ => ?_)
    rw [h c.name c.name_ne_nil]

/-! ## The sections whose classes are all looked up -/

theorem forall_of_mem_classesOf {v : CString} (h : v ∈ classesOf line) :
    v ≠ [] ∧ ∀ c ∈ v, isspace c = false := by
  rw [classesOf] at h
  split_ifs at h
  · cases h
  · rcases hbehind : behind (ascii "class") line with - | cls
    · rw [hbehind] at h
      cases h
    · rw [hbehind] at h
      exact forall_of_mem_words h

theorem mem_classLines (h : l ∈ classLines name block file) :
    l ≠ [] ∧ ∃ line, classesOf line = l := by
  induction file generalizing block with
  | nil => cases block <;> cases h
  | cons line file ih =>
    cases block with
    | some b => exact ih h
    | none =>
      rw [classLines] at h
      split_ifs at h with hend hnil
      · cases h
      · exact ih h
      · rcases List.mem_cons.mp h with rfl | h
        · exact ⟨hnil, line, rfl⟩
        · exact ih h

/-- **The union of the classes.** The servers in the table are those of every class that the
section lists if and only if it lists one class at most, alone on the last of its lines. -/
theorem cachesListed_iff (h : parseClient none (ClientData.new name) file = some client) :
    CachesListed name file client ↔ OneClass (classLines name none file) := by
  obtain ⟨hnone, hlast⟩ := cls_parseClient h
  rw [cachesListed_iff_forall]
  change classLines name none file = [] → client.cls = none at hnone
  change ∀ l ∈ (classLines name none file).getLast?, _ at hlast
  rcases hlists : (classLines name none file).getLast? with - | l
  · rw [List.getLast?_eq_none_iff] at hlists
    rw [hnone hlists, hlists]
    refine ⟨fun _ => ⟨[], by simp, by simp⟩, fun _ v hv => ?_⟩
    simpa using hv
  · obtain ⟨t, hcls, ht⟩ := hlast l hlists
    have hl := List.mem_of_mem_getLast? hlists
    rw [hcls, Option.getD_some]
    constructor
    · intro hiff
      have heq (v : CString) (hv : v ∈ (classLines name none file).flatten) :
          v = trim isspace t := by
        obtain ⟨l', hl', hv'⟩ := List.mem_flatten.mp hv
        obtain ⟨-, line, rfl⟩ := mem_classLines hl'
        exact (hiff v (forall_of_mem_classesOf hv').1).mp hv
      refine ⟨trim isspace t, heq, ?_⟩
      rw [hlists]
      rintro _ ⟨⟩
      obtain ⟨hne, line, hline⟩ := mem_classLines hl
      obtain ⟨v, hv⟩ := List.exists_mem_of_ne_nil l hne
      obtain rfl := heq v (List.mem_flatten_of_mem hl hv)
      obtain ⟨hv₁, hv₂⟩ := forall_of_mem_classesOf (hline ▸ hv)
      -- the class is one word, and so is the line
      rw [← ht, ← words_trim, words_of_forall hv₁ hv₂]
    · rintro ⟨w, heq, hw⟩ v -
      obtain rfl := hw l hlists
      rw [trim_of_words ht]
      refine ⟨heq v, ?_⟩
      rintro rfl
      exact List.mem_flatten_of_mem hl (List.mem_singleton_self v)

/-- A section that lists one class, on a line of its own. -/
theorem cachesListed_iff_alone :
    let file := [ascii "class a\n", ascii "end client c\n"]
    let client : ClientData := ⟨ascii "c", some (ascii "a"), none⟩
    CachesListed (ascii "c") file client ↔ OneClass (classLines (ascii "c") none file) :=
  cachesListed_iff (by decide)

/-- A section that lists two classes on one line: the servers of neither are in the table. -/
theorem not_cachesListed_two :
    let file := [ascii "class a b\n", ascii "end client c\n"]
    let client : ClientData := ⟨ascii "c", some (ascii "a b"), none⟩
    parseClient none (ClientData.new (ascii "c")) file = some client ∧
      ¬ CachesListed (ascii "c") file client := by
  refine ⟨by decide, fun h => ?_⟩
  have hmem := (h (fun _ => some []) none [⟨ascii "a", by decide, [⟨ascii "h", ascii "1"⟩]⟩] ∅
    rfl (ascii "h:1")).mpr (.inr ⟨_, List.mem_singleton_self _, by decide,
      _, List.mem_singleton_self _, by decide⟩)
  exact absurd hmem (by decide)

end Peep
