import Mathlib.Data.List.Dedup
import Peep.Client.Data

/-!
# The documents of data objects

What `serialize` writes for an object is a document of elements and text, as long as no text of the
objects is taken for markup. Nothing in it is cleaned up, as long as no text has an entity in it.
The indentation and the newlines are text between the tags.

## Main results

* `serialize_eq_render` — what is written for an object
* `wellFormed_tokens` — it is a document
* `clean_render` — which is left as it is
-/

namespace Peep

open Decimal Xml

/-! ## The document of an object -/

namespace Data

variable (address : List CString → ℕ)

/-- The tokens of a text. -/
def textTokens (isCDATA : Bool) (s : CString) : List Xml.Token :=
  if isCDATA then [.cdata s] else if s = [] then [] else [.text s]

/-- The tokens of an attribute, behind the indentation. -/
def attributeTokens (level : ℕ) (fields : CString → Option Value) (attr : CString × Bool) :
    List Xml.Token :=
  match fields attr.1 with
  | none => []
  | some value =>
    .text (10 :: (indent level ++ [32, 32])) :: .start attr.1 ::
      (textTokens attr.2 (value.text address) ++ [.stop attr.1])

mutual

/-- The tokens of an object. -/
def tokens (level : ℕ) : Data → List Xml.Token
  | .mk cls fields pools =>
    .start cls.Name ::
      (cls.Attributes.flatMap (attributeTokens address level fields) ++
        poolTokens (level + 1) pools ++ [.text (10 :: indent level), .stop cls.Name])

/-- The tokens of the objects in the pools, behind the indentation. -/
def poolTokens (level : ℕ) : List (CString × Data) → List Xml.Token
  | [] => []
  | (_, object) :: pools =>
    .text (10 :: indent level) :: (tokens level object ++ poolTokens level pools)

end

variable {address} {level : ℕ} {fields : CString → Option Value} {pools : List (CString × Data)}
  {attr : CString × Bool} {d : Data}

theorem serializePools_eq_flatMap :
    serializePools address level pools = pools.flatMap fun p => serialize address level p.2 := by
  induction pools with
  | nil => rfl
  | cons p pools ih => rw [serializePools, ih, List.flatMap_cons]

theorem poolTokens_eq_flatMap :
    poolTokens address level pools
      = pools.flatMap fun p => .text (10 :: indent level) :: tokens address level p.2 := by
  induction pools with
  | nil => rfl
  | cons p pools ih => rw [poolTokens, ih, List.flatMap_cons, List.cons_append]

/-- A separator in front of each text instead of behind it. -/
theorem cons_flatMap {α β : Type*} {x : α} {f g : β → List α} {l : List β}
    (h : ∀ b ∈ l, x :: f b = g b ++ [x]) : x :: l.flatMap f = l.flatMap g ++ [x] := by
  induction l with
  | nil => rfl
  | cons b l ih =>
    have hl := ih fun b hb => h b (List.mem_cons_of_mem _ hb)
    calc x :: (f b ++ l.flatMap f) = (x :: f b) ++ l.flatMap f := rfl
      _ = g b ++ (x :: l.flatMap f) := by rw [h b List.mem_cons_self, List.append_assoc]; rfl
      _ = (g b ++ l.flatMap g) ++ [x] := by rw [hl, List.append_assoc]

theorem render_textTokens (isCDATA : Bool) (s : CString) :
    render (textTokens isCDATA s)
      = if isCDATA then ascii "<![CDATA[" ++ s ++ ascii "]]>" else s := by
  rw [textTokens]
  split_ifs with hcdata hs
  · exact List.append_nil _
  · rw [hs]
    rfl
  · exact List.append_nil _

theorem serializeAttribute_eq_render :
    10 :: serializeAttribute address level fields attr
      = render (attributeTokens address level fields attr) ++ [10] := by
  rw [serializeAttribute, attributeTokens]
  cases fields attr.1 with
  | none => rfl
  | some value =>
    have htext := render_textTokens attr.2 (value.text address)
    simp only [render] at htext
    simp [render, Token.render, htext, ascii]

/-- **What is written is a document**, with the indentation in front of it and a newline behind
it. -/
theorem serialize_eq_render (d : Data) :
    ∀ level, serialize address level d
      = indent level ++ render (tokens address level d) ++ [10] := by
  induction d using all_of_step with
  | hstep cls fields pools ih =>
    intro level
    have hattributes : 10 :: cls.Attributes.flatMap (serializeAttribute address level fields)
        = render (cls.Attributes.flatMap (attributeTokens address level fields)) ++ [10] := by
      rw [render, List.flatMap_assoc]
      exact cons_flatMap fun attr _ => serializeAttribute_eq_render
    have hpools : 10 :: serializePools address (level + 1) pools
        = render (poolTokens address (level + 1) pools) ++ [10] := by
      rw [serializePools_eq_flatMap, poolTokens_eq_flatMap, render, List.flatMap_assoc]
      refine cons_flatMap fun p hp => ?_
      rw [ih p hp]
      simp [render, Token.render]
    -- each newline goes in front of what it was behind
    have hbody (rest : CString) :
        10 :: (cls.Attributes.flatMap (serializeAttribute address level fields) ++
            (serializePools address (level + 1) pools ++ rest))
          = render (cls.Attributes.flatMap (attributeTokens address level fields)) ++
            (render (poolTokens address (level + 1) pools) ++ 10 :: rest) := by
      rw [← List.cons_append, hattributes, List.append_assoc, List.singleton_append,
        ← List.cons_append, hpools, List.append_assoc, List.singleton_append]
    calc serialize address level (.mk cls fields pools)
        = indent level ++ 60 :: (cls.Name ++ 62 ::
            (10 :: (cls.Attributes.flatMap (serializeAttribute address level fields) ++
              (serializePools address (level + 1) pools ++
                (indent level ++ 60 :: 47 :: (cls.Name ++ [62, 10])))))) := by
          simp [serialize, ascii]
      _ = indent level ++ render (tokens address level (.mk cls fields pools)) ++ [10] := by
          rw [hbody]
          simp [tokens, render, Token.render]

/-! ## Texts that are kept -/

/-- The text is neither taken for markup nor cleaned up. -/
def KeepsText (isCDATA : Bool) (s : CString) : Prop :=
  if isCDATA then IsCData s ∧ ∀ entity ∈ entities s, isMarked entity = true
  else s = [] ∨ IsText s

instance (isCDATA : Bool) (s : CString) : Decidable (KeepsText isCDATA s) :=
  inferInstanceAs (Decidable (ite _ _ _))

/-- A value that is a string. -/
def scalar? : Value → Option CString
  | .scalar s => some s
  | .array _ _ => none

/-- So are the strings of the object. -/
def KeepsTexts (d : Data) : Prop :=
  ∀ attr ∈ d.cls.Attributes, ∀ s ∈ (d.fields attr.1).bind scalar?, KeepsText attr.2 s

instance (d : Data) : Decidable (KeepsTexts d) := inferInstanceAs (Decidable (∀ _ ∈ _, _))

/-- A token that `clean` leaves. -/
def IsKept (t : Xml.Token) : Prop :=
  t.Legal ∧ ∀ s, t = .cdata s → ∀ entity ∈ entities s, isMarked entity = true

theorem entities_of_not_mem {s : CString} (h : 38 ∉ s) : entities s = [] := by
  induction s with
  | nil => rfl
  | cons c s ih =>
    obtain ⟨hc, hs⟩ := List.ne_and_not_mem_of_not_mem_cons h
    rw [entities, if_neg fun hentity => hc hentity.1.symm, ih hs]

/-- A text of letters, digits and parentheses is kept. -/
theorem keepsText_of_isWord {isCDATA : Bool} {s : CString} (hne : s ≠ [])
    (h : ∀ c ∈ s, (isWord c || c = 40 || c = 41) = true) : KeepsText isCDATA s := by
  have hlegal : ∀ c ∈ s, IsLegal c := by
    intro c hc
    have hword := h c hc
    simp only [isWord, Bool.or_eq_true, Bool.and_eq_true, decide_eq_true_eq] at hword
    simp only [IsLegal, UInt8.le_iff_toNat_le, ← UInt8.toNat_inj] at hword ⊢
    simp only [UInt8.reduceToNat] at hword ⊢
    omega
  have h38 : (38 : UInt8) ∉ s := fun hc => absurd (h 38 hc) (by decide)
  have hcdata : IsCData s :=
    ⟨hlegal, fun hstop => absurd (h 93 (hstop.subset (by decide))) (by decide)⟩
  rw [KeepsText]
  split_ifs
  · exact ⟨hcdata, by simp [entities_of_not_mem h38]⟩
  · exact .inr ⟨hne, hcdata, fun hc => absurd (h 60 hc) (by decide), h38⟩

/-- The address of an array is kept. -/
theorem keepsText_array (isCDATA : Bool) (front : List CString) (last : CString) :
    KeepsText isCDATA ((Value.array front last).text address) := by
  have hdigit : ∀ d < 16, (isWord (hexDigit d) || hexDigit d = 40 || hexDigit d = 41) = true := by
    decide
  refine keepsText_of_isWord (by simp [Value.text, ascii]) fun c hc => ?_
  rw [Value.text, List.mem_append, List.mem_append, List.mem_map] at hc
  rcases hc with (hc | ⟨d, hd, rfl⟩) | hc
  · exact (by decide : ∀ c ∈ ascii "ARRAY(0x", (isWord c || c = 40 || c = 41) = true) c hc
  · exact hdigit d (Nat.digits_lt_base (by decide) (List.mem_reverse.mp hd))
  · exact (by decide : ∀ c ∈ ascii ")", (isWord c || c = 40 || c = 41) = true) c hc

theorem KeepsTexts.keepsText (h : d.KeepsTexts) (hattr : attr ∈ d.cls.Attributes) {value : Value}
    (hvalue : d.fields attr.1 = some value) : KeepsText attr.2 (value.text address) := by
  cases value with
  | scalar s => exact h attr hattr s (by rw [hvalue]; rfl)
  | array front last => exact keepsText_array attr.2 front last

/-! ## The document is well formed -/

theorem isName_Name (cls : DataClass) : IsName cls.Name := by
  cases cls <;> decide

theorem isName_of_mem_Attributes {cls : DataClass} (h : attr ∈ cls.Attributes) :
    IsName attr.1 := by
  have hall : ∀ attr ∈ cls.Attributes, IsName attr.1 := by
    cases cls <;> decide
  exact hall attr h

theorem isText_indent (level : ℕ) (s : CString) (hs : ∀ c ∈ s, c = 32) :
    IsText (10 :: (indent level ++ s)) := by
  refine isText_of_isBlank (List.cons_ne_nil _ _) fun c hc => ?_
  rcases List.mem_cons.mp hc with rfl | hc
  · exact .inr (.inl rfl)
  · rcases List.mem_append.mp hc with hc | hc
    · exact .inr (.inr (List.eq_of_mem_replicate hc))
    · exact .inr (.inr (hs c hc))

theorem isKept_text {s : CString} (h : IsText s) : IsKept (.text s) := ⟨h, by simp⟩

theorem isKept_textTokens {isCDATA : Bool} {s : CString} (h : KeepsText isCDATA s) :
    ∀ t ∈ textTokens isCDATA s, IsKept t := by
  intro t ht
  rw [KeepsText] at h
  rw [textTokens] at ht
  split_ifs at h ht with hcdata hs
  · obtain rfl := List.mem_singleton.mp ht
    refine ⟨h.1, fun u hu => ?_⟩
    obtain rfl := Token.cdata.inj hu
    exact h.2
  · exact absurd ht List.not_mem_nil
  · obtain rfl := List.mem_singleton.mp ht
    exact isKept_text (h.resolve_left hs)

theorem isKept_attributeTokens (h : d.KeepsTexts) (hattr : attr ∈ d.cls.Attributes) :
    ∀ t ∈ attributeTokens address level d.fields attr, IsKept t := by
  intro t ht
  rw [attributeTokens] at ht
  rcases hvalue : d.fields attr.1 with - | value
  · rw [hvalue] at ht
    exact absurd ht List.not_mem_nil
  · rw [hvalue] at ht
    simp only [List.mem_cons, List.mem_append, List.not_mem_nil, or_false] at ht
    have hname := isName_of_mem_Attributes hattr
    rcases ht with rfl | rfl | ht | rfl
    · exact isKept_text (isText_indent level [32, 32] (by simp))
    · exact ⟨hname, by simp⟩
    · exact isKept_textTokens (h.keepsText hattr hvalue) t ht
    · exact ⟨hname, by simp⟩

/-- **Each token may stand in a document, and is left by `clean`.** -/
theorem isKept_tokens (h : d.All KeepsTexts) :
    ∀ level, ∀ t ∈ tokens address level d, IsKept t := by
  induction h with
  | @mk cls fields pools hhere _ ih =>
    intro level t ht
    rw [tokens, poolTokens_eq_flatMap] at ht
    simp only [List.mem_cons, List.mem_append, List.mem_flatMap, List.not_mem_nil, or_false] at ht
    have hname := isName_Name cls
    rcases ht with rfl | (⟨attr, hattr, ht⟩ | ⟨p, hp, rfl | ht⟩) | rfl | rfl
    · exact ⟨hname, by simp⟩
    · exact isKept_attributeTokens hhere hattr t ht
    · exact isKept_text (by simpa using isText_indent (level + 1) [] (by simp))
    · exact ih p hp (level + 1) t ht
    · exact isKept_text (by simpa using isText_indent level [] (by simp))
    · exact ⟨hname, by simp⟩

theorem head?_tokens (level : ℕ) (d : Data) :
    (tokens address level d).head? = some (.start d.cls.Name) := by
  cases d
  rfl

theorem separated_attributeTokens : Separated (attributeTokens address level fields attr) := by
  rw [attributeTokens]
  cases fields attr.1 with
  | none => exact separated_nil
  | some value =>
    have hstop : Separated [.stop attr.1] := separated_singleton (by simp [Token.isText])
    have htext : Separated (textTokens attr.2 (value.text address) ++ [Token.stop attr.1]) := by
      rw [textTokens]
      split_ifs
      · exact hstop.cons (by simp [Token.isText])
      · exact hstop
      · exact hstop.text (List.cons_ne_nil _ _) (by simp [Token.isText]) _
    exact (htext.cons (by simp [Token.isText])).text (List.cons_ne_nil _ _)
      (by simp [Token.isText]) _

/-- **No two texts of the document stand side by side.** -/
theorem separated_tokens (d : Data) : ∀ level, Separated (tokens address level d) := by
  induction d using all_of_step with
  | hstep cls fields pools ih =>
    intro level
    rw [tokens, poolTokens_eq_flatMap]
    refine Separated.cons ?_ (by simp [Token.isText])
    refine ((separated_flatMap fun attr _ => separated_attributeTokens).append
      (separated_flatMap fun p hp => ?_)).append ?_
    · have hhead : (tokens address (level + 1) p.2).head? = some (.start p.2.cls.Name) :=
        head?_tokens (level + 1) p.2
      refine (ih p hp (level + 1)).text ?_ ?_ _
      · rintro hnil
        rw [hnil] at hhead
        cases hhead
      · intro t ht
        rw [hhead] at ht
        cases ht
        simp [Token.isText]
    · exact (separated_singleton (by simp [Token.isText])).text (List.cons_ne_nil _ _)
        (by simp [Token.isText]) _

theorem closes_attributeTokens {names : List CString} (hne : names ≠ []) {ts : List Xml.Token}
    (hts : Closes names ts) : Closes names (attributeTokens address level fields attr ++ ts) := by
  rw [attributeTokens]
  cases fields attr.1 with
  | none => exact hts
  | some value =>
    refine .text hne (.start hne ?_)
    rw [textTokens]
    split_ifs
    · exact .cdata (List.cons_ne_nil _ _) (.stop hts)
    · exact .stop hts
    · exact .text (List.cons_ne_nil _ _) (.stop hts)

theorem tokens_eq_cons (level : ℕ) (d : Data) :
    tokens address level d = .start d.cls.Name :: (tokens address level d).tail := by
  cases d
  rfl

/-- **The tokens of an object end the element that the first of them begins.** -/
theorem closes_tail_tokens (d : Data) : ∀ level names ts, Closes names ts →
    Closes (d.cls.Name :: names) ((tokens address level d).tail ++ ts) := by
  induction d using all_of_step with
  | hstep cls fields pools ih =>
    intro level names ts hts
    have hne : cls.Name :: names ≠ [] := List.cons_ne_nil _ _
    rw [tokens, poolTokens_eq_flatMap, List.tail_cons, List.append_assoc, List.append_assoc]
    refine closes_flatMap (fun attr _ ts hts => closes_attributeTokens hne hts) ?_
    refine closes_flatMap (fun p hp ts hts => ?_) (.text hne (.stop hts))
    rw [List.cons_append, tokens_eq_cons, List.cons_append]
    exact .text hne (.start hne (ih p hp (level + 1) _ ts hts))

theorem wellFormed_tokens (h : d.All KeepsTexts) (level : ℕ) :
    WellFormed (tokens address level d) where
  legal := fun t ht => (isKept_tokens h level t ht).1
  separate := (separated_tokens d level).chain
  closes := ⟨d.cls.Name, (tokens address level d).tail, tokens_eq_cons level d, by
    simpa using closes_tail_tokens d level [] [] .nil⟩

/-! ## Nothing is cleaned up -/

/-- An entity does not go on in a text that begins with something else. -/
theorem entities_append {s rest : CString} (h : ∀ c ∈ rest.head?, isWord c = false ∧ c ≠ 59) :
    entities (s ++ rest) = entities s ++ entities rest := by
  induction s with
  | nil => rfl
  | cons c s ih =>
    have hword : (s ++ rest).takeWhile isWord = s.takeWhile isWord := by
      rcases rest with - | ⟨e, rest⟩
      · rw [List.append_nil]
      · rw [List.takeWhile_append]
        split_ifs with hs
        · rw [List.takeWhile_cons, if_neg (by simp [(h e rfl).1]), List.append_nil]
          exact (List.IsPrefix.eq_of_length (List.takeWhile_prefix _) hs).symm
        · rfl
    have hend : ((s ++ rest).drop (s.takeWhile isWord).length).head? = some 59
        ↔ (s.drop (s.takeWhile isWord).length).head? = some 59 := by
      rw [List.drop_append_of_le_length (List.takeWhile_prefix _).length_le]
      rcases s.drop (s.takeWhile isWord).length with - | ⟨e, tail⟩
      · exact ⟨fun hrest => absurd rfl (h 59 hrest).2, fun hnil => by cases hnil⟩
      · rfl
    rw [List.cons_append, entities, entities, hword, ih]
    simp only [hend]
    split_ifs <;> rfl

theorem entities_append_of_not_mem {s : CString} (h : 38 ∉ s) (rest : CString) :
    entities (s ++ rest) = entities rest := by
  induction s with
  | nil => rfl
  | cons c s ih =>
    obtain ⟨hc, hs⟩ := List.ne_and_not_mem_of_not_mem_cons h
    rw [List.cons_append, entities, if_neg fun hentity => hc hentity.1.symm, ih hs]

theorem not_mem_of_isName {name : CString} (h : IsName name) : 38 ∉ name :=
  fun hc => absurd (h.2 38 hc) (by decide)

/-- The entities of a token are left. -/
theorem isMarked_of_mem_entities {t : Xml.Token} (ht : IsKept t) {rest : CString}
    (hrest : ∀ entity ∈ entities rest, isMarked entity = true) :
    ∀ entity ∈ entities (t.render ++ rest), isMarked entity = true := by
  obtain ⟨hlegal, hcdata⟩ := ht
  cases t with
  | start name =>
    have h38 : 38 ∉ (Token.start name).render := by
      simp [Token.render, not_mem_of_isName hlegal]
    rwa [entities_append_of_not_mem h38]
  | stop name =>
    have h38 : 38 ∉ (Token.stop name).render := by
      simp [Token.render, not_mem_of_isName hlegal]
    rwa [entities_append_of_not_mem h38]
  | text s => rwa [Token.render, entities_append_of_not_mem hlegal.2.2.2]
  | cdata s =>
    have hbehind : entities (cdataStop ++ rest) = entities rest :=
      entities_append_of_not_mem (by decide) rest
    rw [Token.render, List.append_assoc, List.append_assoc,
      entities_append_of_not_mem (by decide),
      entities_append fun c hc => by obtain rfl := Option.some.inj hc; decide, hbehind]
    intro entity hentity
    rcases List.mem_append.mp hentity with hentity | hentity
    · exact hcdata s rfl entity hentity
    · exact hrest entity hentity

theorem isCleanChar_of_isLegal {c : UInt8} (h : IsLegal c) : isCleanChar c = true := by
  have hall : ∀ n : ℕ, n < 256 → IsLegal n.toUInt8 → isCleanChar n.toUInt8 = true := by
    decide +kernel
  have hc := hall c.toNat c.toNat_lt
  rw [Nat.toUInt8_eq, UInt8.ofNat_toNat] at hc
  exact hc h

theorem isLegal_of_mem_render {t : Xml.Token} (ht : t.Legal) : ∀ c ∈ t.render, IsLegal c := by
  have hname : ∀ name, IsName name → ∀ c ∈ name, IsLegal c := by
    intro name hname c hc
    have h := hname.2 c hc
    simp only [IsNameChar, IsLegal, UInt8.le_iff_toNat_le, ← UInt8.toNat_inj] at h ⊢
    simp only [UInt8.reduceToNat] at h ⊢
    omega
  intro c hc
  cases t with
  | start name =>
    simp only [Token.render, List.mem_cons, List.mem_append, List.not_mem_nil, or_false] at hc
    rcases hc with rfl | hc | rfl
    · decide
    · exact hname name ht c hc
    · decide
  | stop name =>
    simp only [Token.render, List.mem_cons, List.mem_append, List.not_mem_nil, or_false] at hc
    rcases hc with rfl | rfl | hc | rfl
    · decide
    · decide
    · exact hname name ht c hc
    · decide
  | text s => exact ht.2.1.1 c hc
  | cdata s =>
    rw [Token.render, List.mem_append, List.mem_append] at hc
    rcases hc with (hc | hc) | hc
    · exact (by decide : ∀ c ∈ cdataStart, IsLegal c) c hc
    · exact ht.1 c hc
    · exact (by decide : ∀ c ∈ cdataStop, IsLegal c) c hc

/-- **A document with such tokens is left as it is.** -/
theorem clean_render {ts : List Xml.Token} (h : ∀ t ∈ ts, IsKept t) :
    clean (render ts ++ [10]) = render ts ++ [10] := by
  have hchars : ∀ c ∈ render ts ++ [10], isCleanChar c = true := by
    intro c hc
    rcases List.mem_append.mp hc with hc | hc
    · obtain ⟨t, ht, hc⟩ := List.mem_flatMap.mp hc
      exact isCleanChar_of_isLegal (isLegal_of_mem_render (h t ht).1 c hc)
    · obtain rfl := List.mem_singleton.mp hc
      rfl
  have hentities : ∀ entity ∈ entities (render ts ++ [10]), isMarked entity = true := by
    clear hchars
    induction ts with
    | nil => simp [render, entities]
    | cons t ts ih =>
      rw [render_cons, List.append_assoc]
      exact isMarked_of_mem_entities (h t List.mem_cons_self)
        (ih fun t ht => h t (List.mem_cons_of_mem _ ht))
  have hnone : (entities (render ts ++ [10])).dedup.filter (fun entity => !isMarked entity)
      = [] := by
    rw [List.filter_eq_nil_iff]
    intro entity hentity
    simp [hentities entity (List.mem_dedup.mp hentity)]
  rw [clean, List.filter_eq_self.mpr hchars, hnone]
  rfl

end Data

end Peep
