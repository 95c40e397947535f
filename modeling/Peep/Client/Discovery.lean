import Mathlib.Data.List.AList
import Mathlib.Data.List.DropRight
import Peep.Server.Datagram
import Peep.Library.Delimited

/-!
# The server table of a client

An autodiscovering client keeps the servers it sends to in a hash, `%Servers` of `Net::Peep::BC`,
from the packed address of a server to the time when its lease expires. `addnewserver` decides
whether the server that a broadcast comes from is added: it takes the class string out of the
packet, drops everything from the first character outside `[A-Za-z0-9!-]` on, and compares what is
left with the name of each class of the client.

The comparison is `/^$str$/` with `$str` the name and one delimiter. It asks for the whole class
string of the server, and not for one of its classes, so a server is added only if it announces a
single class, or so it seems after the filter.

## Choices

A time is in seconds, as `time()` returns it. The field `IP` of an entry is read by nothing and left
out. `quotemeta` makes the pattern match the name literally, and a filtered string has no newline
before its end. An `A` format drops trailing blanks and zeros, and a packet that is too short leaves
the string empty.

## Main results

* `mem_addnewserver_iff` — the broadcasts that have their server added
* `realid_eq_iff` — the announcements that are taken for one class
* `decidedByClass_iff` — when a server is added for a class it shares with the client
-/

namespace Peep

open Bytes Delimited

/-- A packed address, as `recv` returns it. -/
abbrev SockAddr := List UInt8

/-- `%Servers`: the addresses of servers and when their leases expire. -/
abbrev Servers := AList fun _ : SockAddr => ℕ

/-! ## Unpacking -/

/-- `unpack ("A$n", ...)`. -/
def unpackA (n : ℕ) (bytes : List UInt8) : List UInt8 :=
  (bytes.take n).rdropWhile fun c => c = 0 || isspace c

/-- The length of the class string in `C8N2A128`. -/
def ID_SIZE : ℕ := 128

/-- The characters of `/([A-Za-z0-9!\-]*)/`. -/
def isIDChar (c : UInt8) : Bool :=
  (65 ≤ c && c ≤ 90) || (97 ≤ c && c ≤ 122) || (48 ≤ c && c ≤ 57) || c = PROT_CLASSDELIM || c = 45

/-- `$realid`: the class string of a packet, cleaned up. -/
def realid (packet : List UInt8) : List UInt8 :=
  (unpackA ID_SIZE (packet.drop HEADER_SIZE)).takeWhile isIDChar

/-! ## The handlers -/

/-- `addserver`: the lease of a new server is five minutes. -/
def addserver (now : ℕ) (servers : Servers) (server : SockAddr) : Servers :=
  servers.insert server (now + 5 * 60 + 0)

/-- `addnewserver`, with the names of the classes in the configuration of the client. -/
def addnewserver (classes : List CString) (now : ℕ) (servers : Servers) (server : SockAddr)
    (packet : List UInt8) : Servers × Bool :=
  if server ∈ servers then (servers, false)
  else
    (classes.foldl (fun servers name =>
      if realid packet = name ++ [PROT_CLASSDELIM] then addserver now servers server
      else servers) servers, true)

/-- A class of the client matches the broadcast. -/
def ClassMatch (classes : List CString) (packet : List UInt8) : Prop :=
  ∃ name ∈ classes, realid packet = name ++ [PROT_CLASSDELIM]

instance (classes : List CString) (packet : List UInt8) : Decidable (ClassMatch classes packet) :=
  inferInstanceAs (Decidable (∃ name ∈ classes, _))

/-! ## What is asked of `addnewserver` -/

/-- A broadcast of a server that announces those classes. -/
def bcPacket (header : List UInt8) (announced : List CString) : List UInt8 :=
  header ++ joined PROT_CLASSDELIM announced

/-- The announcing server is added exactly if one of its classes is a class of the client. -/
def DecidedByClass (classes : List CString) (now : ℕ) (servers : Servers) (server : SockAddr)
    (header : List UInt8) (announced : List CString) : Prop :=
  server ∈ (addnewserver classes now servers server (bcPacket header announced)).1 ↔
    ∃ name ∈ announced, name ∈ classes

/-- The string begins with that name and its delimiter, which the filter lets through, and there the
string, the `128` bytes or the filter end. -/
def Leads (name : CString) (id : List UInt8) : Prop :=
  (∀ c ∈ name, isIDChar c = true) ∧ name.length < ID_SIZE ∧
    ∃ rest, id = name ++ PROT_CLASSDELIM :: rest ∧
      (name.length + 1 < ID_SIZE → ∀ c ∈ rest.head?, isIDChar c = false)

variable {classes announced : List CString} {name : CString} {now : ℕ} {servers : Servers}
  {server a : SockAddr} {packet header id : List UInt8}

/-! ## Filtered strings -/

/-- The elements that satisfy `p` at the beginning of a list. -/
theorem takeWhile_eq_iff {α : Type*} {p : α → Bool} {l w : List α} :
    l.takeWhile p = w ↔
      (∀ c ∈ w, p c = true) ∧ ∃ rest, l = w ++ rest ∧ ∀ c ∈ rest.head?, p c = false := by
  constructor
  · rintro rfl
    refine ⟨fun c hc => List.mem_takeWhile_imp hc, l.dropWhile p,
      List.takeWhile_append_dropWhile.symm, ?_⟩
    intro c hc
    have hhead := List.head?_dropWhile_not p l
    rw [Option.mem_def.mp hc] at hhead
    simpa using hhead
  · rintro ⟨hw, rest, rfl, hrest⟩
    rw [List.takeWhile_append_of_pos hw]
    rcases rest with - | ⟨c, rest⟩
    · simp
    · rw [List.takeWhile_cons_of_neg (by simp [hrest c rfl]), List.append_nil]

/-- Dropping an end that `p` would not get past anyway. -/
theorem takeWhile_rdropWhile {α : Type*} {p q : α → Bool} (h : ∀ c, q c = true → p c = false)
    (l : List α) : (l.rdropWhile q).takeWhile p = l.takeWhile p := by
  induction l using List.reverseRecOn with
  | nil => rfl
  | append_singleton l c ih =>
    by_cases hc : q c = true
    · rw [List.rdropWhile_concat_pos _ _ _ hc, ih, List.takeWhile_append]
      split_ifs with hall
      · rw [List.takeWhile_cons_of_neg (by simp [h c hc]), List.append_nil]
        exact List.IsPrefix.eq_of_length (List.takeWhile_prefix p) hall
      · rfl
    · rw [List.rdropWhile_concat_neg _ _ _ hc]

/-- What the `A` format drops would not pass the filter. -/
theorem realid_eq_takeWhile : realid packet =
    ((packet.drop HEADER_SIZE).take ID_SIZE).takeWhile isIDChar := by
  refine takeWhile_rdropWhile ?_ _
  intro c hc
  grind [isspace, isIDChar, PROT_CLASSDELIM]

/-- **The announcements that are taken for one class.** -/
theorem realid_eq_iff (hheader : header.length = HEADER_SIZE) :
    realid (header ++ id) = name ++ [PROT_CLASSDELIM] ↔ Leads name id := by
  rw [realid_eq_takeWhile, ← hheader, List.drop_left, takeWhile_eq_iff, Leads]
  constructor
  · rintro ⟨hchars, rest, htake, hstop⟩
    have hlength := congrArg List.length htake
    rw [List.length_take, List.length_append, List.length_append, List.length_singleton] at hlength
    refine ⟨fun c hc => hchars c (List.mem_append_left _ hc), by omega,
      rest ++ id.drop ID_SIZE, ?_, ?_⟩
    · calc id = id.take ID_SIZE ++ id.drop ID_SIZE := (List.take_append_drop _ _).symm
        _ = name ++ PROT_CLASSDELIM :: (rest ++ id.drop ID_SIZE) := by rw [htake]; simp
    · intro hmore c hc
      rcases rest with - | ⟨b, rest⟩
      · -- the announcement ended before the `128` bytes did
        rw [List.length_nil] at hlength
        rw [List.nil_append, List.drop_eq_nil_of_le (by omega)] at hc
        simp at hc
      · exact hstop c hc
  · rintro ⟨hchars, hlength, rest, rfl, hstop⟩
    refine ⟨?_, rest.take (ID_SIZE - (name.length + 1)), ?_, ?_⟩
    · intro c hc
      rcases List.mem_append.mp hc with h | h
      · exact hchars c h
      · rw [List.mem_singleton.mp h]
        rfl
    · rw [List.append_cons, List.take_append, List.length_append, List.length_singleton,
        List.take_of_length_le (by rw [List.length_append, List.length_singleton]; exact hlength)]
    · intro c hc
      rcases Nat.lt_or_ge (name.length + 1) ID_SIZE with hmore | hfull
      · refine hstop hmore c ?_
        rcases rest with - | ⟨b, rest⟩
        · simp at hc
        · obtain ⟨k, hk⟩ : ∃ k, ID_SIZE - (name.length + 1) = k + 1 :=
            ⟨ID_SIZE - (name.length + 1) - 1, by omega⟩
          rw [hk] at hc
          exact hc
      · rw [Nat.sub_eq_zero_of_le hfull] at hc
        simp at hc

/-- Among announced names without a delimiter, the one that leads is the first. -/
theorem Leads.head?_eq (h : Leads name (joined PROT_CLASSDELIM announced))
    (hname : PROT_CLASSDELIM ∉ name) (hannounced : ∀ n ∈ announced, PROT_CLASSDELIM ∉ n) :
    announced.head? = some name := by
  obtain ⟨-, -, rest, hid, -⟩ := h
  refine (isPrefix_joined_iff hname hannounced).mp ⟨rest, ?_⟩
  rw [hid]
  simp

/-! ## The table -/

/-- The loop over the classes of the client adds the server if one of them matches. -/
theorem foldl_addserver : classes.foldl (fun servers name =>
      if realid packet = name ++ [PROT_CLASSDELIM] then addserver now servers server else servers)
      servers
    = if ClassMatch classes packet then addserver now servers server else servers := by
  induction classes generalizing servers with
  | nil => simp [ClassMatch]
  | cons name classes ih =>
    have hcons : ClassMatch (name :: classes) packet ↔
        realid packet = name ++ [PROT_CLASSDELIM] ∨ ClassMatch classes packet := by
      simp [ClassMatch]
    rw [List.foldl_cons, ih]
    by_cases hname : realid packet = name ++ [PROT_CLASSDELIM]
    · rw [if_pos hname, if_pos (hcons.mpr (.inl hname))]
      split_ifs
      · exact AList.insert_insert _
      · rfl
    · rw [if_neg hname]
      exact if_congr (by rw [hcons, or_iff_right hname]) rfl rfl

/-- **What `addnewserver` does.** -/
theorem addnewserver_fst : (addnewserver classes now servers server packet).1 =
    if server ∉ servers ∧ ClassMatch classes packet then addserver now servers server
    else servers := by
  rw [addnewserver]
  by_cases hmem : server ∈ servers
  · rw [if_pos hmem, if_neg (fun h => h.1 hmem)]
  · rw [if_neg hmem, foldl_addserver]
    exact if_congr (by rw [and_iff_right hmem]) rfl rfl

/-- The broadcasts that have their server added. -/
theorem mem_addnewserver_iff (hnew : server ∉ servers) :
    server ∈ (addnewserver classes now servers server packet).1 ↔ ClassMatch classes packet := by
  rw [addnewserver_fst]
  by_cases hmatch : ClassMatch classes packet
  · rw [if_pos ⟨hnew, hmatch⟩]
    exact iff_of_true ((AList.mem_insert servers).mpr (.inl rfl)) hmatch
  · rw [if_neg fun h => hmatch h.2]
    exact iff_of_false hnew hmatch

/-- **When a server is added for a class it shares with the client**, and for no other reason: the
announcement as a whole has to look like one class of the client exactly if there is such a
class. -/
theorem decidedByClass_iff (hnew : server ∉ servers) (hheader : header.length = HEADER_SIZE) :
    DecidedByClass classes now servers server header announced ↔
      ((∃ name ∈ announced, name ∈ classes) →
        ∃ name ∈ classes, Leads name (joined PROT_CLASSDELIM announced)) ∧
      ((∀ name ∈ announced, name ∉ classes) →
        ∀ name ∈ classes, ¬ Leads name (joined PROT_CLASSDELIM announced)) := by
  have hmatch : ClassMatch classes (bcPacket header announced) ↔
      ∃ name ∈ classes, Leads name (joined PROT_CLASSDELIM announced) :=
    exists_congr fun name => and_congr_right fun _ => realid_eq_iff hheader
  rw [DecidedByClass, mem_addnewserver_iff hnew, hmatch]
  constructor
  · intro h
    refine ⟨h.mpr, ?_⟩
    intro hnone name hname hleads
    obtain ⟨n, hn, hcls⟩ := h.mp ⟨name, hname, hleads⟩
    exact hnone n hn hcls
  · rintro ⟨hadd, hskip⟩
    refine ⟨?_, hadd⟩
    rintro ⟨name, hname, hleads⟩
    by_contra hnone
    push Not at hnone
    exact hskip hnone name hname hleads

/-- With names that do not contain the delimiter no server is added by mistake, and only the class
that is announced first counts. -/
theorem decidedByClass_iff_of_no_delim (hnew : server ∉ servers)
    (hheader : header.length = HEADER_SIZE) (hclasses : ∀ n ∈ classes, PROT_CLASSDELIM ∉ n)
    (hannounced : ∀ n ∈ announced, PROT_CLASSDELIM ∉ n) :
    DecidedByClass classes now servers server header announced ↔
      ((∃ name ∈ announced, name ∈ classes) → ∃ name ∈ classes, announced.head? = some name ∧
        Leads name (joined PROT_CLASSDELIM announced)) := by
  have hfirst : ∀ name ∈ classes, Leads name (joined PROT_CLASSDELIM announced) →
      announced.head? = some name :=
    fun name hname hleads => hleads.head?_eq (hclasses name hname) hannounced
  rw [decidedByClass_iff hnew hheader]
  constructor
  · rintro ⟨hadd, -⟩ hshared
    obtain ⟨name, hname, hleads⟩ := hadd hshared
    exact ⟨name, hname, hfirst name hname hleads, hleads⟩
  · intro h
    refine ⟨?_, ?_⟩
    · intro hshared
      obtain ⟨name, hname, -, hleads⟩ := h hshared
      exact ⟨name, hname, hleads⟩
    · intro hnone name hname hleads
      exact hnone name (List.mem_of_mem_head? (hfirst name hname hleads)) hname

/-- **A server of two classes**, `a` and `b`: a client of class `b` does not add it. -/
theorem not_decidedByClass_two_classes : ¬ DecidedByClass [[98]] 0 ∅ [1]
    [2, 1, 4, 0, 0, 0, 0, 0, 0xDE, 0xAD, 0xBE, 0xEF, 0, 0, 0, 4] [[97], [98]] := by
  have hnot : [1] ∉ (addnewserver [[98]] 0 ∅ [1] (bcPacket
      [2, 1, 4, 0, 0, 0, 0, 0, 0xDE, 0xAD, 0xBE, 0xEF, 0, 0, 0, 4] [[97], [98]])).1 := by decide
  intro h
  exact hnot (h.mpr ⟨[98], by decide, by decide⟩)

/-- A server of the one class `b` is added, and a server of class `a` is not. -/
theorem decidedByClass_one_class :
    DecidedByClass [[98]] 0 ∅ [1]
        [2, 1, 4, 0, 0, 0, 0, 0, 0xDE, 0xAD, 0xBE, 0xEF, 0, 0, 0, 2] [[98]] ∧
      DecidedByClass [[98]] 0 ∅ [1]
        [2, 1, 4, 0, 0, 0, 0, 0, 0xDE, 0xAD, 0xBE, 0xEF, 0, 0, 0, 2] [[97]] := by
  constructor
  · refine (decidedByClass_iff (AList.notMem_empty _) rfl).mpr ⟨fun _ => ?_, by simp⟩
    exact ⟨[98], by simp, by simp [isIDChar], by decide, [], rfl, by simp⟩
  · refine (decidedByClass_iff (AList.notMem_empty _) rfl).mpr ⟨by simp, ?_⟩
    rintro - name hname ⟨-, -, rest, hid, -⟩
    rw [List.mem_singleton.mp hname] at hid
    have hfirst : (97 : UInt8) = 98 := (List.cons.inj hid).1
    exact absurd hfirst (by decide)

end Peep
