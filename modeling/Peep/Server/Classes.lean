import Peep.Server.Datagram
import Peep.Library.Delimited

/-!
# Server classes and client broadcasts

A server keeps the classes it belongs to in one string, each class followed by the delimiter
(`serverAddIDClass`, `server.c`). A client broadcasts its own classes in the same form, and the
server answers it, or adds it to its lease list, if `serverContainsIDClass` finds one of them in its
string (`serverProcessClientBC` and, in the UDP server, `serverProcessBC`).

The two decoders cut the client's string at each delimiter, but what they look for is the string
that begins at `q`, the delimiter just overwritten, and not the class that begins at `p`; `p` is not
used again. So every class is looked for as the empty string, which every class of the server ends
in. The search itself takes a name for one of the server's as soon as one of them ends in it: only
the delimiter behind a class is in the string, and none before it.

## Choices

Names are strings, without their terminating zero. The blanks that Perl pads the client's string
with are part of the message. The body of the message has a place for the zero that the decoders
write behind it, as in the UDP loops. Memory can be allocated.

## Main results

* `serverContainsIDClass_iff` — the names that are found in the string of a server
* `processIDString_joined` — what the decoders make of a client broadcast
* `answersOwn_iff` — when they answer the clients of their own classes and no others
* `findsExactly_iff` — when a name is found exactly if it was added
-/

namespace Peep

open Bytes Delimited

/-! ## The string of a server -/

/-- `serverAddIDClass`. -/
def serverAddIDClass (identifier : Option CString) (cls : CString) : Option CString :=
  match identifier with
  | none => some (cls ++ [PROT_CLASSDELIM])
  | some id => some (id ++ cls ++ [PROT_CLASSDELIM])

/-- The end of `initializeBroadcast`: a server without classes has an empty string. -/
def initializeIdentifier (identifier : Option CString) : Option CString :=
  match identifier with
  | none => some []
  | some id => some id

/-- The string of a server after calls of `serverAddIDClass` and its initialization. -/
def identifierOf (classes : List CString) : Option CString :=
  initializeIdentifier (classes.foldl serverAddIDClass none)

/-! ## The string of a client -/

/-- What is asked of the name of a class in a client broadcast. -/
structure IsClassName (name : CString) : Prop where
  /-- It is not empty. -/
  ne_nil : name ≠ []
  /-- It does not contain the delimiter. -/
  no_delim : PROT_CLASSDELIM ∉ name
  /-- It is a string. -/
  no_zero : 0 ∉ name
  /-- It contains no blanks. -/
  no_space : ∀ c ∈ name, isspace c = false

/-- The bytes of a client broadcast: the classes of the client, and padding. -/
def idString (classes : List CString) (padding : List UInt8) : List UInt8 :=
  joined PROT_CLASSDELIM classes ++ padding

/-- Both decoders complete; the first answers the client and the second adds it to the lease list
if it shares a class with the server, and not otherwise. -/
def AnswersOwn (server client : List CString) (buffer : Buffer) (len : Int32) : Prop :=
  ∃ ours, serverProcessClientBC (identifierOf server) buffer len = some (.respond ours) ∧
    serverProcessBC (identifierOf server) buffer len = some (.addClient ours) ∧
    (ours = true ↔ ∃ name ∈ client, name ∈ server)

/-- After a sequence of calls of `serverAddIDClass` a name is found exactly if it was added. -/
def FindsExactly (server : List CString) (name : CString) : Prop :=
  serverContainsIDClass (server.foldl serverAddIDClass none) name = true ↔ name ∈ server

variable {server client : List CString} {identifier : Option CString} {name : CString}
  {padding : List UInt8} {len : Int32} {x : Option UInt8} {rest : Buffer}

/-! ## What is found in the string of a server -/

theorem foldl_serverAddIDClass (h : server ≠ []) :
    server.foldl serverAddIDClass none = some (joined PROT_CLASSDELIM server) := by
  induction server using List.reverseRecOn with
  | nil => exact absurd rfl h
  | append_singleton server name ih =>
    rw [List.foldl_append, List.foldl_cons, List.foldl_nil, joined_concat]
    rcases eq_or_ne server [] with rfl | hserver
    · rfl
    · rw [ih hserver, serverAddIDClass, List.append_assoc]

/-- **The string of a server** is that of its classes. -/
theorem identifierOf_eq : identifierOf server = some (joined PROT_CLASSDELIM server) := by
  rcases eq_or_ne server [] with rfl | h
  · rfl
  · rw [identifierOf, foldl_serverAddIDClass h, initializeIdentifier]

/-- **What is found** in the string of a server: the names that one of its classes ends in. -/
theorem serverContainsIDClass_iff (hname : PROT_CLASSDELIM ∉ name)
    (hserver : ∀ cls ∈ server, PROT_CLASSDELIM ∉ cls) :
    serverContainsIDClass (identifierOf server) name = true ↔ ∃ cls ∈ server, name <:+ cls := by
  rw [identifierOf_eq, serverContainsIDClass, decide_eq_true_eq, isInfix_joined_iff hname hserver]

/-- The empty string is found as soon as there is a class. -/
theorem serverContainsIDClass_nil :
    serverContainsIDClass (identifierOf server) [] = true ↔ server ≠ [] := by
  rw [identifierOf_eq, serverContainsIDClass, decide_eq_true_eq, List.nil_append]
  constructor
  · rintro h rfl
    exact absurd (List.infix_nil.mp h) (List.cons_ne_nil _ _)
  · intro h
    obtain ⟨s, t, hst⟩ := List.append_of_mem (mem_joined (d := PROT_CLASSDELIM) h)
    exact ⟨s, t, by rw [hst, List.append_assoc]; rfl⟩

/-- The initialization of a server without classes does not change what is found. -/
theorem serverContainsIDClass_initializeIdentifier :
    serverContainsIDClass (initializeIdentifier identifier) name
      = serverContainsIDClass identifier name := by
  cases identifier with
  | none => simp [initializeIdentifier, serverContainsIDClass]
  | some id => rfl

/-- **When a name is found exactly if it was added**: it was, or no name that was added ends in
it. -/
theorem findsExactly_iff (hname : PROT_CLASSDELIM ∉ name)
    (hserver : ∀ cls ∈ server, PROT_CLASSDELIM ∉ cls) :
    FindsExactly server name ↔ name ∈ server ∨ ∀ cls ∈ server, ¬ name <:+ cls := by
  rw [FindsExactly, ← serverContainsIDClass_initializeIdentifier, ← identifierOf,
    serverContainsIDClass_iff hname hserver]
  constructor
  · intro h
    by_cases hmem : name ∈ server
    · exact .inl hmem
    · exact .inr fun cls hcls hends => hmem (h.mp ⟨cls, hcls, hends⟩)
  · rintro (hmem | hnone)
    · exact ⟨fun _ => hmem, fun _ => ⟨name, hmem, List.suffix_rfl⟩⟩
    · refine ⟨?_, fun hmem => absurd List.suffix_rfl (hnone name hmem)⟩
      rintro ⟨cls, hcls, hends⟩
      exact absurd hends (hnone cls hcls)

/-- **The end of a name is found**: `ab` was added, and `b` is found. -/
theorem not_findsExactly_end : PROT_CLASSDELIM ∉ ([98] : CString) ∧
    (∀ cls ∈ [([97, 98] : CString)], PROT_CLASSDELIM ∉ cls) ∧ ¬ FindsExactly [[97, 98]] [98] := by
  refine ⟨by decide, by decide, fun h => ?_⟩
  have hfound : serverContainsIDClass ([[97, 98]].foldl serverAddIDClass none) [98] = true := rfl
  exact absurd (h.mp hfound) (by decide)

/-- The beginning of a name is not. -/
theorem findsExactly_beginning : FindsExactly [[97, 98]] [97] :=
  (findsExactly_iff (by decide) (by decide)).mpr (.inr (by decide))

/-! ## The decoders -/

/-- The characters of a name are passed over. -/
theorem processClasses_append (hzero : 0 ∉ name) (hdelim : PROT_CLASSDELIM ∉ name)
    (hspace : ∀ c ∈ name, isspace c = false) :
    processClasses identifier (name.map some ++ rest) = processClasses identifier rest := by
  induction name with
  | nil => rfl
  | cons c name ih =>
    rw [List.mem_cons, not_or] at hzero hdelim
    have hc : (c = 0 || isspace c) ≠ true := by
      simp [Ne.symm hzero.1, hspace c List.mem_cons_self]
    rw [List.map_cons, List.cons_append, processClasses, if_neg hc, if_neg (Ne.symm hdelim.1),
      ih hzero.2 hdelim.2 fun d hd => hspace d (List.mem_cons_of_mem _ hd)]

/-- At a delimiter the empty string is looked for. -/
theorem processClasses_delim : processClasses identifier (some PROT_CLASSDELIM :: rest) =
    if serverContainsIDClass identifier [] then some true else processClasses identifier rest := by
  have hstop : ¬ ((PROT_CLASSDELIM = 0 || isspace PROT_CLASSDELIM) = true) := by decide
  rw [processClasses, if_neg hstop, if_pos rfl]
  rfl

/-- The padding ends the loop, and so does the terminating zero. -/
theorem processClasses_padding (hpadding : ∀ c ∈ padding, isspace c = true) :
    processClasses identifier (padding.map some ++ some 0 :: rest) = some false := by
  rcases padding with - | ⟨c, padding⟩
  · rfl
  · rw [List.map_cons, List.cons_append, processClasses,
      if_pos (by simp [hpadding c List.mem_cons_self])]

/-- The loop over the classes of a client: each of them is looked for as the empty string. -/
theorem processClasses_joined (hclient : ∀ name ∈ client, IsClassName name)
    (hpadding : ∀ c ∈ padding, isspace c = true) :
    processClasses identifier ((joined PROT_CLASSDELIM client).map some ++
        (padding.map some ++ some 0 :: rest))
      = some (decide (client ≠ [] ∧ serverContainsIDClass identifier [] = true)) := by
  induction client with
  | nil => simpa using processClasses_padding hpadding
  | cons name client ih =>
    have hname := hclient name List.mem_cons_self
    rw [joined_cons, List.map_append, List.append_assoc,
      processClasses_append hname.no_zero hname.no_delim hname.no_space, List.map_cons,
      List.cons_append, processClasses_delim, ih fun n hn => hclient n (List.mem_cons_of_mem _ hn)]
    split_ifs with hfound
    · simp [hfound]
    · simp [hfound]

/-- **What the decoders make of a client broadcast**: all that counts is that there is a class on
both sides. -/
theorem processIDString_joined (hclient : ∀ name ∈ client, IsClassName name)
    (hpadding : ∀ c ∈ padding, isspace c = true)
    (hlen : len.toInt = (idString client padding).length) :
    processIDString (identifierOf server) ((idString client padding).map some ++ x :: rest) len
      = some (decide (client ≠ [] ∧ server ≠ [])) := by
  rw [processIDString, write?_length_map hlen, Option.bind_eq_bind, Option.bind_some, idString,
    List.map_append, List.append_assoc, processClasses_joined hclient hpadding]
  simp only [serverContainsIDClass_nil]

/-- **When the clients of their own classes are answered**, and no others: if the server has no
class, the client announces none, or they share one. -/
theorem answersOwn_iff (hclient : ∀ name ∈ client, IsClassName name)
    (hpadding : ∀ c ∈ padding, isspace c = true)
    (hlen : len.toInt = (idString client padding).length) :
    AnswersOwn server client ((idString client padding).map some ++ x :: rest) len ↔
      server = [] ∨ client = [] ∨ ∃ name ∈ client, name ∈ server := by
  have hdecoded : processIDString (identifierOf server)
      ((idString client padding).map some ++ x :: rest) len
        = some (decide (client ≠ [] ∧ server ≠ [])) := processIDString_joined hclient hpadding hlen
  have hshared : (∃ name ∈ client, name ∈ server) → client ≠ [] ∧ server ≠ [] := by
    rintro ⟨name, hname, hserver⟩
    exact ⟨List.ne_nil_of_mem hname, List.ne_nil_of_mem hserver⟩
  rw [AnswersOwn, serverProcessClientBC, serverProcessBC, hdecoded]
  constructor
  · rintro ⟨ours, hours, -, hiff⟩
    obtain rfl : decide (client ≠ [] ∧ server ≠ []) = ours := by simpa using hours
    rw [decide_eq_true_eq] at hiff
    by_cases hserver : server = []
    · exact .inl hserver
    · by_cases hnil : client = []
      · exact .inr (.inl hnil)
      · exact .inr (.inr (hiff.mp ⟨hnil, hserver⟩))
  · intro h
    refine ⟨_, rfl, rfl, ?_⟩
    rw [decide_eq_true_eq]
    refine ⟨?_, hshared⟩
    rintro ⟨hnil, hserver⟩
    rcases h with h | h | h
    · exact absurd h hserver
    · exact absurd h hnil
    · exact h

/-- **A client of another class**: the server has `b`, the client announces `a`, and is answered. -/
theorem not_answersOwn_other_class : IsClassName [97] ∧
    ¬ AnswersOwn [[98]] [[97]] ((idString [[97]] []).map some ++ [none]) 2 := by
  refine ⟨⟨by decide, by decide, by decide, List.forall_mem_singleton.mpr rfl⟩, ?_⟩
  rintro ⟨ours, hours, -, hiff⟩
  have htrue : serverProcessClientBC (identifierOf [[98]])
      ((idString [[97]] []).map some ++ [none]) 2 = some (.respond true) := rfl
  rw [htrue] at hours
  cases hours
  exact absurd (hiff.mp rfl) (by decide)

/-- A client of two classes, one of them that of the server, its message padded with blanks. -/
theorem answersOwn_shared_class :
    AnswersOwn [[98]] [[97], [98]] ((idString [[97], [98]] [32, 32]).map some ++ [none]) 6 := by
  refine (answersOwn_iff ?_ (by simp [isspace]) rfl).mpr (.inr (.inr ⟨[98], by decide, by decide⟩))
  intro name hname
  rcases List.mem_pair.mp hname with rfl | rfl
  · exact ⟨by decide, by decide, by decide, List.forall_mem_singleton.mpr rfl⟩
  · exact ⟨by decide, by decide, by decide, List.forall_mem_singleton.mpr rfl⟩

end Peep
