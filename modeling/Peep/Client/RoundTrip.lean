import Peep.Client.Documents

/-!
# Reading what was written

`deserialize` is the other way of `serialize`, and the comments of the one speak of attributes with
more than one value, which `serialize` writes as the address of an array. `unmark` takes the markup
out of a text, but `serialize` does not call it.

What `serialize` writes is read back (`readBack`) with the strings that the values are, without the
empty ones, as long as no text of the objects is taken for markup, or cleaned up, and the objects
are in pools of their classes. It is the object that was written if and only if each attribute that
is defined has a single string, which is not empty, and a notice has a host.

## Choices

The parser is a parameter: it reads documents of elements and text as they are.

## Main results

* `reads_tokens` — what the handlers make of a document
* `deserialize_serialize` — what is read back
* `roundTrips_iff` — the trees of objects that are read as they were written
-/

namespace Peep

open Decimal Xml

namespace Data

variable {address : List CString → ℕ} {level : ℕ} {fields : CString → Option Value}
  {pools : List (CString × Data)} {attr : CString × Bool} {d : Data}

/-! ## What is read back -/

/-- The string that a value is; an empty one is not read. -/
def valueBack (address : List CString → ℕ) (value : Value) : Option Value :=
  if value.text address = [] then none else some (.scalar (value.text address))

mutual

/-- The object that is read. -/
def readBack (address : List CString → ℕ) : Data → Data
  | .mk cls fields pools =>
    .mk cls (fun name => (fields name).bind (valueBack address)) (poolsBack address pools)

/-- The objects that are read. -/
def poolsBack (address : List CString → ℕ) : List (CString × Data) → List (CString × Data)
  | [] => []
  | (name, object) :: pools => (name, readBack address object) :: poolsBack address pools

end

theorem cls_readBack : (readBack address d).cls = d.cls := by
  cases d
  rfl

/-- Each attribute that is defined has a single string, which is not empty. -/
def IsSingle (d : Data) : Prop :=
  ∀ name value, d.fields name = some value → ∃ s, s ≠ [] ∧ value = .scalar s

theorem valueBack_eq_some_iff {value : Value} :
    valueBack address value = some value ↔ ∃ s, s ≠ [] ∧ value = .scalar s := by
  constructor
  · intro h
    rw [valueBack] at h
    split_ifs at h with hs
    exact ⟨_, hs, (Option.some.inj h).symm⟩
  · rintro ⟨s, hs, rfl⟩
    exact if_neg hs

theorem fields_bind_eq_iff :
    (fun name => (fields name).bind (valueBack address)) = fields
      ↔ ∀ name value, fields name = some value → ∃ s, s ≠ [] ∧ value = .scalar s := by
  constructor
  · intro h name value hvalue
    have hname := congrFun h name
    rw [hvalue, Option.bind_some] at hname
    exact valueBack_eq_some_iff.mp hname
  · intro h
    funext name
    rcases hvalue : fields name with - | value
    · rfl
    · exact valueBack_eq_some_iff.mpr (h name value hvalue)

theorem poolsBack_eq_iff :
    poolsBack address pools = pools ↔ ∀ p ∈ pools, readBack address p.2 = p.2 := by
  induction pools with
  | nil => simp [poolsBack]
  | cons p pools ih =>
    rw [poolsBack, List.cons.injEq, Prod.mk.injEq, ih, List.forall_mem_cons]
    simp

/-- **The object that is read is the one that was written if and only if each attribute that is
defined has a single string.** -/
theorem readBack_eq_iff : readBack address d = d ↔ d.All IsSingle := by
  induction d using all_of_step with
  | hstep cls fields pools ih =>
    rw [readBack, Data.mk.injEq, fields_bind_eq_iff, poolsBack_eq_iff, all_iff]
    refine ⟨fun h => ⟨h.2.1, fun p hp => (ih p hp).mp (h.2.2 p hp)⟩,
      fun h => ⟨rfl, h.1, fun p hp => (ih p hp).mpr (h.2 p hp)⟩⟩

/-! ## What the handlers make of a document -/

/-- The calls for some tokens take the handlers from one state to another. -/
def Reads (ts : List Xml.Token) (r s : Reader) : Prop :=
  ∀ calls, Reports ts calls → calls.foldl Reader.call r = s

variable {r s t : Reader} {ts us : List Xml.Token} {name text : CString} {isCDATA : Bool}
  {outer : List (CString × Data)} {pieces : List CString}

theorem reads_nil : Reads [] r r := by
  intro calls h
  cases h
  rfl

theorem Reads.append (hts : Reads ts r s) (hus : Reads us s t) : Reads (ts ++ us) r t := by
  intro calls h
  obtain ⟨before, behind, rfl, hbefore, hbehind⟩ := h.of_append
  rw [List.foldl_append, hts before hbefore, hus behind hbehind]

theorem reads_start : Reads [.start name] r (r.start name []) := by
  intro calls h
  cases h with
  | start h =>
    cases h
    rfl

theorem reads_stop : Reads [.stop name] r (r.stop name) := by
  intro calls h
  cases h with
  | stop h =>
    cases h
    rfl

/-- Text that no handler waits for is nothing. -/
theorem reads_text_of_none {d : Data} :
    Reads [.text text] ⟨d, outer, none⟩ ⟨d, outer, none⟩ := by
  intro calls h
  have hpieces (pieces : List CString) :
      (pieces.map Xml.Call.char).foldl Reader.call ⟨d, outer, none⟩ = ⟨d, outer, none⟩ := by
    induction pieces with
    | nil => rfl
    | cons piece pieces ih => exact ih
  cases h with
  | text _ h =>
    cases h
    rw [List.append_nil]
    exact hpieces _

/-- Sets an attribute, or leaves it undefined. -/
def put (d : Data) (name : CString) (value : Option Value) : Data :=
  .mk d.cls (Function.update d.fields name value) d.pools

@[simp] theorem cls_put (value : Option Value) : (d.put name value).cls = d.cls := rfl

theorem fields_put (value : Option Value) :
    (d.put name value).fields = Function.update d.fields name value := rfl

theorem put_none (h : d.fields name = none) : d.put name none = d := by
  obtain ⟨cls, fields, pools⟩ := d
  rw [put]
  exact congrArg (fun f => Data.mk cls f pools) (Function.update_eq_self_iff.mpr h.symm)

/-- Text goes behind the string that has been read. -/
theorem autoloadChar_put (hname : d.cls.attribute? name ≠ none) (v s : CString) :
    (d.put name (some (.scalar v))).autoloadChar name s = d.put name (some (.scalar (v ++ s))) := by
  have hfield : (d.put name (some (.scalar v))).fields name = some (.scalar v) := by
    rw [fields_put, Function.update_self]
  rw [autoloadChar, cls_put, if_neg hname, Data.append, hfield]
  show (Data.mk _ (Function.update (Function.update _ _ _) _ _) _) = _
  rw [Function.update_idem]
  rfl

theorem autoloadChar_of_none (hname : d.cls.attribute? name ≠ none) (hnone : d.fields name = none)
    (s : CString) : d.autoloadChar name s = d.put name (some (.scalar s)) := by
  rw [autoloadChar, if_neg hname, Data.append, hnone]
  cases d
  rfl

theorem foldl_char_put (hname : d.cls.attribute? name ≠ none) (v : CString) :
    (pieces.map Xml.Call.char).foldl Reader.call
        ⟨d.put name (some (.scalar v)), outer, some (0, name)⟩
      = ⟨d.put name (some (.scalar (v ++ pieces.flatten))), outer, some (0, name)⟩ := by
  induction pieces generalizing v with
  | nil => simp
  | cons piece pieces ih =>
    rw [List.map_cons, List.foldl_cons, Reader.call, Reader.text]
    simp only [autoloadChar_put hname]
    rw [ih, List.flatten_cons, List.append_assoc]

/-- **The text of an element is the pieces of it that are reported.** -/
theorem foldl_char (hname : d.cls.attribute? name ≠ none) (hnone : d.fields name = none)
    (hne : ∀ piece ∈ pieces, piece ≠ []) :
    (pieces.map Xml.Call.char).foldl Reader.call ⟨d, outer, some (0, name)⟩
      = ⟨d.put name (if pieces.flatten = [] then none else some (.scalar pieces.flatten)), outer,
          some (0, name)⟩ := by
  rcases pieces with - | ⟨piece, pieces⟩
  · rw [List.flatten_nil, if_pos rfl, put_none hnone]
    rfl
  · have hpiece : (piece :: pieces).flatten ≠ [] := by
      rw [List.flatten_cons]
      exact List.append_ne_nil_of_left_ne_nil (hne piece List.mem_cons_self) _
    rw [if_neg hpiece, List.map_cons, List.foldl_cons, Reader.call, Reader.text]
    simp only [autoloadChar_of_none hname hnone]
    rw [foldl_char_put hname, List.flatten_cons]

theorem reads_textTokens (hname : d.cls.attribute? name ≠ none) (hnone : d.fields name = none) :
    Reads (textTokens isCDATA text) ⟨d, outer, some (0, name)⟩
      ⟨d.put name (if text = [] then none else some (.scalar text)), outer, some (0, name)⟩ := by
  rw [textTokens]
  split_ifs with hcdata htext htext
  · rw [put_none hnone]
    intro calls h
    cases h with
    | @cdata pieces _ _ hne h =>
      cases h
      rw [List.append_nil, foldl_char hname hnone hne, if_pos htext, put_none hnone]
  · intro calls h
    cases h with
    | @cdata pieces _ _ hne h =>
      cases h
      rw [List.append_nil, foldl_char hname hnone hne, if_neg htext]
  · rw [put_none hnone]
    exact reads_nil
  · intro calls h
    cases h with
    | @text pieces _ _ hne h =>
      cases h
      rw [List.append_nil, foldl_char hname hnone hne, if_neg htext]

theorem fill_nil (element : CString) : d.fill element [] = d := by
  rw [fill]
  split_ifs
  · rw [List.mergeSort_nil, List.foldl_nil]
  · rfl

theorem ne_Name_of_attribute? (hname : d.cls.attribute? name ≠ none) : name ≠ d.cls.Name := by
  rintro rfl
  exact hname (DataClass.attribute?_Name d.cls)

/-- At the beginning of an attribute its text is awaited. -/
theorem start_attribute (hname : d.cls.attribute? name ≠ none) (hnone : d.fields name = none) :
    (Reader.mk d outer none).start name [] = ⟨d, outer, some (0, name)⟩ := by
  obtain ⟨isCDATA, hattr⟩ := Option.ne_none_iff_exists'.mp hname
  have hstart : d.autoloadStart name = d := by rw [autoloadStart, if_neg hname, hnone]
  rw [Reader.start, fill_nil, DataClass.handler?_of_attribute? hattr]
  show Reader.mk (d.autoloadStart name) outer _ = _
  rw [hstart, if_neg (ne_Name_of_attribute? hname)]

/-- At its end no text is. -/
theorem stop_attribute (hname : d.cls.attribute? name ≠ none) (char : Option (ℕ × CString)) :
    (Reader.mk d outer char).stop name = ⟨d, outer, none⟩ := by
  rw [Reader.stop]
  split
  · rfl
  · rw [if_neg (ne_Name_of_attribute? hname)]

/-- **An attribute is read with the string that its value is.** -/
theorem reads_attributeTokens (hattr : d.cls.attribute? attr.1 ≠ none)
    (hnone : d.fields attr.1 = none) :
    Reads (attributeTokens address level fields attr) ⟨d, outer, none⟩
      ⟨d.put attr.1 ((fields attr.1).bind (valueBack address)), outer, none⟩ := by
  rw [attributeTokens]
  cases fields attr.1 with
  | none =>
    rw [Option.bind_none, put_none hnone]
    exact reads_nil
  | some value =>
    have hstart : Reads [.start attr.1] ⟨d, outer, none⟩ ⟨d, outer, some (0, attr.1)⟩ := by
      have h : Reads [.start attr.1] ⟨d, outer, none⟩
          ((Reader.mk d outer none).start attr.1 []) := reads_start
      rwa [start_attribute hattr hnone] at h
    have hstop (d' : Data) (hcls : d'.cls = d.cls) :
        Reads [.stop attr.1] ⟨d', outer, some (0, attr.1)⟩ ⟨d', outer, none⟩ := by
      have h : Reads [.stop attr.1] ⟨d', outer, some (0, attr.1)⟩
          ((Reader.mk d' outer (some (0, attr.1))).stop attr.1) := reads_stop
      rwa [stop_attribute (hcls ▸ hattr)] at h
    exact (reads_text_of_none.append hstart).append
      ((reads_textTokens hattr hnone).append (hstop _ (cls_put _)))

/-- **The attributes are read one after the other.** -/
theorem reads_attributes {attrs : List (CString × Bool)}
    (hattrs : ∀ attr ∈ attrs, d.cls.attribute? attr.1 ≠ none)
    (hnone : ∀ attr ∈ attrs, d.fields attr.1 = none) (hnodup : (attrs.map Prod.fst).Nodup) :
    Reads (attrs.flatMap (attributeTokens address level fields)) ⟨d, outer, none⟩
      ⟨.mk d.cls (fun name => if name ∈ attrs.map Prod.fst then
        (fields name).bind (valueBack address) else d.fields name) d.pools, outer, none⟩ := by
  induction attrs generalizing d with
  | nil =>
    cases d
    exact reads_nil
  | cons attr attrs ih =>
    obtain ⟨hnotMem, hnodup⟩ := List.nodup_cons.mp hnodup
    have hhead : Reads (attributeTokens address level fields attr) ⟨d, outer, none⟩
        ⟨d.put attr.1 ((fields attr.1).bind (valueBack address)), outer, none⟩ :=
      reads_attributeTokens (hattrs attr List.mem_cons_self) (hnone attr List.mem_cons_self)
    have hput : ∀ a ∈ attrs,
        (d.put attr.1 ((fields attr.1).bind (valueBack address))).fields a.1 = none := by
      intro a ha
      have hne : a.1 ≠ attr.1 := fun heq => hnotMem (heq ▸ List.mem_map_of_mem ha)
      rw [fields_put, Function.update_of_ne hne]
      exact hnone a (List.mem_cons_of_mem _ ha)
    have htail := @ih (d.put attr.1 ((fields attr.1).bind (valueBack address)))
      (fun a ha => hattrs a (List.mem_cons_of_mem _ ha)) hput hnodup
    have hfields : (fun name => if name ∈ attrs.map Prod.fst then
          (fields name).bind (valueBack address)
        else (d.put attr.1 ((fields attr.1).bind (valueBack address))).fields name)
        = fun name => if name ∈ (attr :: attrs).map Prod.fst then
          (fields name).bind (valueBack address) else d.fields name := by
      funext name
      rw [fields_put]
      by_cases hname : name = attr.1
      · subst hname
        simp
      · simp [hname]
    rw [hfields] at htail
    exact hhead.append htail

theorem insertObject_of_forall {object : Data} (h : ∀ p ∈ pools, ¬ name < p.1) :
    insertObject name object pools = pools ++ [(name, object)] := by
  induction pools with
  | nil => rfl
  | cons p pools ih =>
    rw [insertObject, if_neg (h p List.mem_cons_self),
      ih fun p hp => h p (List.mem_cons_of_mem _ hp), List.cons_append]

/-- The object is read behind the others of its pool. -/
def ReadsObject (address : List CString → ℕ) (d : Data) : Prop :=
  ∀ level o outer, o.cls.handler? d.cls.Name = some d.cls →
    Reads (tokens address level d) ⟨o, outer, none⟩
      ⟨o.addToPool d.cls.Name (readBack address d), outer, none⟩

/-- **The objects in the pools are read one after the other.** -/
theorem reads_poolTokens (hpools : ∀ p ∈ pools, ReadsObject address p.2)
    (hhandled : ∀ p ∈ pools, d.cls.handler? p.1 = some p.2.cls) (hsorted : IsSorted pools)
    (hbefore : ∀ p ∈ d.pools, ∀ q ∈ pools, ¬ q.1 < p.1) :
    Reads (poolTokens address level pools) ⟨d, outer, none⟩
      ⟨.mk d.cls d.fields (d.pools ++ poolsBack address pools), outer, none⟩ := by
  induction pools generalizing d with
  | nil =>
    rw [poolsBack, List.append_nil]
    cases d
    exact reads_nil
  | cons q pools ih =>
    obtain ⟨name, object⟩ := q
    obtain ⟨hq, hsorted⟩ := List.pairwise_cons.mp hsorted
    have hhandler := hhandled _ List.mem_cons_self
    have hname : object.cls.Name = name := DataClass.Name_of_handler? hhandler
    have hinsert : d.addToPool name (readBack address object)
        = .mk d.cls d.fields (d.pools ++ [(name, readBack address object)]) := by
      rw [addToPool, insertObject_of_forall fun p hp => hbefore p hp _ List.mem_cons_self]
    have hhead := hpools _ List.mem_cons_self level d outer (by rw [hname]; exact hhandler)
    rw [hname, hinsert] at hhead
    have htail := ih (d := .mk d.cls d.fields (d.pools ++ [(name, readBack address object)]))
      (fun p hp => hpools p (List.mem_cons_of_mem _ hp))
      (fun p hp => hhandled p (List.mem_cons_of_mem _ hp)) hsorted (by
        intro p hp r hr
        rcases List.mem_append.mp hp with hp | hp
        · exact hbefore p hp r (List.mem_cons_of_mem _ hr)
        · obtain rfl := List.mem_singleton.mp hp
          exact hq r hr)
    rw [pools_mk, List.append_assoc] at htail
    exact (reads_text_of_none.append hhead).append htail

/-- The tokens between the tags of an object. -/
def bodyTokens (address : List CString → ℕ) (level : ℕ) (d : Data) : List Xml.Token :=
  d.cls.Attributes.flatMap (attributeTokens address level d.fields) ++
    poolTokens address (level + 1) d.pools ++ [.text (10 :: indent level)]

theorem tokens_eq_body (level : ℕ) (d : Data) :
    tokens address level d
      = [.start d.cls.Name] ++ (bodyTokens address level d ++ [.stop d.cls.Name]) := by
  cases d
  simp [tokens, bodyTokens]

theorem nodup_Attributes (cls : DataClass) : (cls.Attributes.map Prod.fst).Nodup := by
  cases cls <;> decide

theorem attribute?_ne_none_iff {cls : DataClass} :
    cls.attribute? name ≠ none ↔ name ∈ cls.Attributes.map Prod.fst := by
  rw [DataClass.attribute?, ne_eq, List.lookup_eq_none_iff, List.mem_map]
  simp only [bne_iff_ne, ne_eq, not_forall, not_not, exists_prop]
  exact exists_congr fun attr => and_congr_right fun _ => eq_comm

/-- **Between its tags an object is read into a new one.** -/
theorem reads_bodyTokens (hkept : d.IsWellKept) (hhandled : d.IsHandled)
    (hpools : ∀ p ∈ d.pools, ReadsObject address p.2) :
    Reads (bodyTokens address level d) ⟨new d.cls, outer, none⟩
      ⟨readBack address d, outer, none⟩ := by
  obtain ⟨cls, fields, pools⟩ := d
  have hattrs : Reads (cls.Attributes.flatMap (attributeTokens address level fields))
      ⟨new cls, outer, none⟩
      ⟨.mk cls (fun name => if name ∈ cls.Attributes.map Prod.fst then
        (fields name).bind (valueBack address) else (new cls).fields name) [], outer, none⟩ :=
    reads_attributes (d := new cls)
      (fun attr hattr => attribute?_ne_none_iff.mpr (List.mem_map_of_mem hattr))
    (fun _ _ => rfl) (nodup_Attributes cls)
  have hfields : (fun name => if name ∈ cls.Attributes.map Prod.fst then
        (fields name).bind (valueBack address) else (new cls).fields name)
      = fun name => (fields name).bind (valueBack address) := by
    funext name
    split_ifs with hname
    · rfl
    · have hnone : fields name = none :=
        hkept.isAttribute name (not_not.mp fun h => hname (attribute?_ne_none_iff.mp h))
      rw [hnone]
      rfl
  rw [hfields] at hattrs
  have hobjects : Reads (poolTokens address (level + 1) pools)
      ⟨.mk cls (fun name => (fields name).bind (valueBack address)) [], outer, none⟩
      ⟨.mk cls (fun name => (fields name).bind (valueBack address))
        ([] ++ poolsBack address pools), outer, none⟩ :=
    reads_poolTokens hpools hhandled hkept.isSorted (fun p hp => absurd hp List.not_mem_nil)
  exact (hattrs.append hobjects).append reads_text_of_none

/-- The handlers at the beginning of an object in a pool. -/
theorem start_object {o : Data} {cls : DataClass} (h : o.cls.handler? cls.Name = some cls) :
    (Reader.mk o outer none).start cls.Name [] = ⟨new cls, (cls.Name, o) :: outer, none⟩ := by
  have hstart : (new cls).autoloadStart cls.Name = new cls := by
    rw [autoloadStart, cls_new, if_pos (DataClass.attribute?_Name cls)]
  rw [Reader.start, fill_nil, h]
  show Reader.mk (((new cls).fill cls.Name []).autoloadStart cls.Name) _
    (if cls.Name = ((new cls).fill cls.Name []).cls.Name then _ else _) = _
  rw [fill_nil, hstart, cls_new, if_pos rfl]
  rfl

/-- The handlers at the beginning of the outermost object. -/
theorem start_outermost (cls : DataClass) :
    (Reader.begin (new cls)).start cls.Name [] = ⟨new cls, [], none⟩ := by
  have hstart : (new cls).autoloadStart cls.Name = new cls := by
    rw [autoloadStart, cls_new, if_pos (DataClass.attribute?_Name cls)]
  have hnone : ((new cls).fill cls.Name []).cls.handler? cls.Name = none := by
    rw [fill_nil]
    exact DataClass.handler?_Name cls
  rw [Reader.start, Reader.begin]
  simp only [hnone]
  show Reader.mk (((new cls).fill cls.Name []).autoloadStart cls.Name) _
    (if cls.Name = ((new cls).fill cls.Name []).cls.Name then _ else _) = _
  rw [fill_nil, hstart, cls_new, if_pos rfl]

/-- The handlers at its end. -/
theorem stop_object {o : Data} {pool : CString} (h : name = d.cls.Name) :
    (Reader.mk d ((pool, o) :: outer) none).stop name = ⟨o.addToPool pool d, outer, none⟩ :=
  if_pos h

theorem readsObject (hproper : d.IsProper) : ReadsObject address d := by
  induction hproper with
  | @mk cls fields pools hhere _ ih =>
    intro level o outer h
    have hhandler : o.cls.handler? cls.Name = some cls := h
    have hbody : Reads (bodyTokens address level (.mk cls fields pools))
        ⟨new cls, (cls.Name, o) :: outer, none⟩
        ⟨readBack address (.mk cls fields pools), (cls.Name, o) :: outer, none⟩ :=
      reads_bodyTokens hhere.1 hhere.2 ih
    have hstart : Reads [.start cls.Name] ⟨o, outer, none⟩
        ((Reader.mk o outer none).start cls.Name []) := reads_start
    rw [start_object hhandler] at hstart
    have hstop : Reads [.stop cls.Name]
        ⟨readBack address (.mk cls fields pools), (cls.Name, o) :: outer, none⟩
        ((Reader.mk (readBack address (.mk cls fields pools)) ((cls.Name, o) :: outer)
          none).stop cls.Name) := reads_stop
    rw [stop_object (by rw [cls_readBack]; rfl)] at hstop
    rw [tokens_eq_body]
    exact hstart.append (hbody.append hstop)

/-- **A document is read into the object that is read back.** -/
theorem reads_tokens (hproper : d.IsProper) :
    Reads (tokens address 0 d) (.begin (new d.cls)) (.begin (readBack address d)) := by
  obtain ⟨⟨hkept, hhandled⟩, hpools⟩ := all_iff.mp hproper
  have hbody : Reads (bodyTokens address 0 d) ⟨new d.cls, [], none⟩
      ⟨readBack address d, [], none⟩ :=
    reads_bodyTokens hkept hhandled fun p hp => readsObject (hpools p hp)
  have hstart : Reads [.start d.cls.Name] (.begin (new d.cls))
      ((Reader.begin (new d.cls)).start d.cls.Name []) := reads_start
  rw [start_outermost] at hstart
  have hstop : Reads [.stop d.cls.Name] ⟨readBack address d, [], none⟩
      ((Reader.mk (readBack address d) [] none).stop d.cls.Name) := reads_stop
  rw [tokens_eq_body]
  exact hstart.append (hbody.append hstop)

/-! ## The round trip -/

variable {parse : CString → Option (List Xml.Call)} {hostname : CString}

/-- The object is read as it was written. -/
def RoundTrips (parse : CString → Option (List Xml.Call)) (hostname : CString)
    (address : List CString → ℕ) (d : Data) : Prop :=
  (new d.cls).deserialize parse hostname (serialize address 0 d) = some d

theorem not_isFalse_serialize : ¬ IsFalse (serialize address 0 d) := by
  rw [serialize_eq_render, tokens_eq_cons]
  rintro (h | h)
  · exact absurd h (by simp [indent])
  · exact absurd (List.cons.inj h).1 (by decide)

/-- **What is written is read back.** -/
theorem deserialize_serialize (hparse : Parses parse) (hproper : d.IsProper)
    (htexts : d.All KeepsTexts) :
    (new d.cls).deserialize parse hostname (serialize address 0 d)
      = some ((readBack address d).withHost hostname) := by
  have hclean : clean (render (tokens address 0 d) ++ [10])
      = render (tokens address 0 d) ++ [10] := clean_render (isKept_tokens htexts 0)
  obtain ⟨calls, hcalls, hreports⟩ :=
    hparse (tokens address 0 d) [10] (wellFormed_tokens htexts 0) (by decide +kernel)
  have hserialize : serialize address 0 d = render (tokens address 0 d) ++ [10] :=
    serialize_eq_render d 0
  rw [deserialize, if_neg not_isFalse_serialize, hserialize, hclean, hcalls, Option.map_some,
    reads_tokens hproper calls hreports]
  rfl

/-- A notice that is read has a host. -/
theorem fields_withHost_ne_none (h : d.cls = .notice) :
    (d.withHost hostname).fields (ascii "host") ≠ none := by
  rw [withHost]
  split_ifs with hnone
  · rw [fields_set, Function.update_self]
    exact Option.some_ne_none _
  · exact fun hhost => hnone ⟨h, hhost⟩

theorem withHost_eq_self (h : d.cls = .notice → d.fields (ascii "host") ≠ none) :
    d.withHost hostname = d :=
  if_neg fun hnone => h hnone.1 hnone.2

/-- An object that is read as it was written was read without a host from elsewhere. -/
theorem readBack_eq_of_withHost (hhost : hostname ≠ [])
    (h : (readBack address d).withHost hostname = d) : readBack address d = d := by
  by_cases hnone : (readBack address d).cls = .notice ∧
    (readBack address d).fields (ascii "host") = none
  · have hset : (readBack address d).set (ascii "host") (.scalar hostname) = d := by
      rwa [withHost, if_pos hnone] at h
    have hfield : d.fields (ascii "host") = some (.scalar hostname) := by
      rw [← hset, fields_set, Function.update_self]
    obtain ⟨cls, fields, pools⟩ := d
    have hback : (fields (ascii "host")).bind (valueBack address) = none := hnone.2
    rw [show fields (ascii "host") = some (.scalar hostname) from hfield, Option.bind_some,
      valueBack, if_neg (by exact hhost)] at hback
    cases hback
  · rwa [withHost, if_neg hnone] at h

/-- A tree of objects as the methods of their classes make them. -/
abbrev DataTree := {d : Data // d.All IsWellKept}

/-- **The trees of objects that are read as they were written**, whose texts are neither taken for
markup nor cleaned up: those with the objects in the pools of their classes, with a single string
for each attribute that is defined, and with a host for a notice. -/
theorem roundTrips_iff (hparse : Parses parse) (hhost : hostname ≠ [])
    (address : List CString → ℕ) (d : DataTree) (htexts : d.val.All KeepsTexts) :
    RoundTrips parse hostname address d.val ↔
      d.val.All IsHandled ∧ d.val.All IsSingle ∧
        (d.val.cls = .notice → d.val.fields (ascii "host") ≠ none) := by
  constructor
  · intro h
    have hproper : d.val.IsProper := isProper_deserialize h
    have hback : (readBack address d.val).withHost hostname = d.val :=
      Option.some.inj ((deserialize_serialize hparse hproper htexts).symm.trans h)
    refine ⟨hproper.imp fun _ => And.right,
      readBack_eq_iff.mp (readBack_eq_of_withHost hhost hback), fun hnotice => ?_⟩
    have hfield : ((readBack address d.val).withHost hostname).fields (ascii "host") ≠ none :=
      fields_withHost_ne_none (cls_readBack.trans hnotice)
    rwa [hback] at hfield
  · rintro ⟨hhandled, hsingle, hnotice⟩
    have hback : readBack address d.val = d.val := readBack_eq_iff.mpr hsingle
    rw [RoundTrips, deserialize_serialize hparse (d.property.and hhandled) htexts, hback,
      withHost_eq_self hnotice]

/-- An option of a program. -/
def anOption : Data :=
  ((new .option).set (ascii "name") (.scalar (ascii "events"))).set (ascii "value")
    (.scalar (ascii "a > \"b\""))

/-- The options with this one. -/
def someOptions : Data := (new .options).addToPool (ascii "option") anOption

theorem isProper_anOption : anOption.IsProper :=
  ((isProper_new .option).set (by decide) _).set (by decide) _

theorem isProper_someOptions : someOptions.IsProper :=
  (isProper_new .options).addToPool isProper_anOption (by decide)

theorem all_someOptions {P : Data → Prop} (hoptions : P someOptions) (hoption : P anOption) :
    someOptions.All P := by
  refine .mk hoptions fun p hp => ?_
  obtain rfl := List.mem_singleton.mp hp
  exact .mk hoption fun p hp => absurd hp List.not_mem_nil

theorem isSingle_anOption : anOption.IsSingle := by
  intro name value hvalue
  rw [anOption, fields_set, fields_set, Function.update_apply, Function.update_apply] at hvalue
  split_ifs at hvalue
  · exact ⟨_, by decide, (Option.some.inj hvalue).symm⟩
  · exact ⟨_, by decide, (Option.some.inj hvalue).symm⟩
  · cases hvalue

theorem roundTrips_someOptions : RoundTrips Xml.read (ascii "h") (fun _ => 0) someOptions :=
  (roundTrips_iff parses_read (by decide) (fun _ => 0)
    ⟨someOptions, isProper_someOptions.imp fun _ => And.left⟩
    (all_someOptions (by decide +kernel) (by decide +kernel))).mpr
    ⟨isProper_someOptions.imp fun _ => And.right,
      all_someOptions (fun _ _ hvalue => by cases hvalue) isSingle_anOption, by decide⟩

/-- A notice about an ampersand. -/
def ampersand : Data :=
  ((new .notice).set (ascii "host") (.scalar (ascii "h"))).set (ascii "data")
    (.scalar (ascii "&amp;"))

/-- `clean` makes a blank of it, in a section of character data too. -/
theorem not_roundTrips_ampersand :
    ¬ ∀ d : DataTree, RoundTrips Xml.read (ascii "h") (fun _ => 0) d.val := by
  intro h
  have hproper : ampersand.IsProper := ((isProper_new .notice).set (by decide) _).set (by decide) _
  have hdata : ((new .notice).deserialize Xml.read (ascii "h")
      (serialize (fun _ => 0) 0 ampersand)).map (fun d => d.fields (ascii "data"))
        = some (some (.scalar (ascii "&amp;"))) :=
    congrArg (Option.map fun d => d.fields (ascii "data"))
      (h ⟨ampersand, hproper.imp fun _ => And.left⟩)
  exact absurd hdata (by decide +kernel)

end Data

end Peep
