import Mathlib.Data.Prod.Lex
import Peep.Server.ConfigSections
import Peep.Server.ConfigStates

/-!
# The version of the configuration

`parserParseGeneral` (`parser.c`) is to refuse a configuration file for a newer version of the
server. It takes the numbers of a version with `strtok`, which it hands the string each time, so
that it gets the first number three times. Of the version of the server it copies five bytes.

So the first numbers are compared, and nothing else: a file for `0.5.1` is accepted by `0.5.0`.

## Choices

A number is any digits, zeros in front included. What `atoi` makes of a number that is too large
is glibc's: `strtol` cut off to an `int`.

## Main results

* `acceptsVersion_text` — what the check compares
* `parserParseGeneral_version` — what a line with a version does
* `accepts_iff` — for which versions the check is right
-/

namespace Peep

open Bytes Decimal Program Text

/-! ## Versions -/

/-- A number in digits. -/
structure Numeral where
  /-- The digits. -/
  digits : List UInt8
  /-- There is one. -/
  ne_nil : digits ≠ []
  /-- They are digits. -/
  isDigit : ∀ c ∈ digits, isDigit c = true

/-- The number. -/
def Numeral.value (x : Numeral) : ℕ := valueOf x.digits

/-- The number as it is read. -/
def Numeral.asInt (x : Numeral) : ℤ := (min x.value (2 ^ 63 - 1) : ℤ).bmod (2 ^ 32)

/-- The number in the first five digits. -/
def Numeral.leading (x : Numeral) : ℤ := valueOf (x.digits.take 5)

/-- A version. -/
structure VersionNumber where
  /-- The first number. -/
  major : Numeral
  /-- The second. -/
  minor : Numeral
  /-- The third. -/
  release : Numeral

/-- The version, with its points. -/
def VersionNumber.text (v : VersionNumber) : CString :=
  v.major.digits ++ 46 :: (v.minor.digits ++ 46 :: v.release.digits)

/-- The numbers behind the first one, in lexicographic order. -/
def VersionNumber.rest (v : VersionNumber) : ℕ ×ₗ ℕ := toLex (v.minor.value, v.release.value)

/-- The three numbers, in lexicographic order. -/
def VersionNumber.key (v : VersionNumber) : ℕ ×ₗ ℕ ×ₗ ℕ := toLex (v.major.value, v.rest)

/-! ## The check -/

/-- The words of a line that begins with a version. -/
def IsVersionLine (line : CString) (v : VersionNumber) : Prop :=
  ∃ keyword more, words isspace line = keyword :: v.text :: more ∧
    strcaseeq keyword (ascii "version") = true

/-- A line of the general section is accepted: the lines behind it are parsed. -/
def Accepts {n k : ℕ} (sys : System) (s : Loader n k) (line : CString) : Prop :=
  ∀ lines, parserParseGeneral sys (line :: lines) s = parserParseGeneral sys lines s

/-- The first numbers decide, as they are read, and they do it rightly. -/
structure MajorDecides (v w : VersionNumber) : Prop where
  /-- A smaller first number is read as none that is larger. -/
  lt : v.major.value < w.major.value → v.major.asInt ≤ w.major.leading
  /-- A larger first number is read as a larger one. -/
  gt : w.major.value < v.major.value → w.major.leading < v.major.asInt
  /-- If they are the same, the other numbers are ordered as the first ones are read. -/
  eq : v.major.value = w.major.value →
    (v.major.asInt ≤ w.major.leading ↔ v.rest ≤ w.rest)

variable {n k : ℕ} {sys : System} {s : Loader n k} {line : CString} {x : Numeral}
  {v w : VersionNumber} {ds behind : List UInt8} {c : UInt8}

/-! ## Digits -/

theorem toNat_of_isDigit (h : isDigit c = true) : 48 ≤ c.toNat ∧ c.toNat ≤ 57 := by
  rw [isDigit, Bool.and_eq_true, decide_eq_true_iff, decide_eq_true_iff, UInt8.le_iff_toNat_le,
    UInt8.le_iff_toNat_le] at h
  exact h

theorem ne_of_isDigit (h : isDigit c = true) : c ≠ 45 ∧ c ≠ 43 ∧ c ≠ 46 := by
  refine ⟨?_, ?_, ?_⟩
  · rintro rfl
    cases h
  · rintro rfl
    cases h
  · rintro rfl
    cases h

theorem not_isspace_of_isDigit (h : isDigit c = true) : isspace c = false := by
  have hbounds := toNat_of_isDigit h
  rw [isspace, Bool.or_eq_false_iff, decide_eq_false_iff_not]
  refine ⟨?_, ?_⟩
  · rintro rfl
    cases h
  · rw [Bool.and_eq_false_iff, decide_eq_false_iff_not, decide_eq_false_iff_not,
      UInt8.le_iff_toNat_le, UInt8.le_iff_toNat_le]
    have h13 : (13 : UInt8).toNat = 13 := rfl
    omega

/-- The value of some digits is below a power of ten. -/
theorem valueOf_lt (h : ∀ c ∈ ds, isDigit c = true) : valueOf ds < 10 ^ ds.length := by
  induction ds using List.reverseRecOn with
  | nil => exact Nat.one_pos
  | append_singleton ds c ih =>
    have hvalue : valueOf (ds ++ [c]) = valueOf ds * 10 + (c.toNat - 48) := by
      rw [valueOf, List.foldl_append]
      rfl
    have hlt := ih fun d hd => h d (List.mem_append_left _ hd)
    have hc := toNat_of_isDigit (h c (List.mem_append_right _ List.mem_cons_self))
    rw [hvalue, List.length_append, List.length_singleton, Nat.pow_succ]
    omega

theorem leadingInt_of_isDigit (h : ∀ c ∈ ds, isDigit c = true) : leadingInt ds = valueOf ds := by
  have hwhole : ds.takeWhile isDigit = ds := List.takeWhile_eq_self_iff.mpr h
  have hhead (c : UInt8) (hc : isDigit c = false) : ds.head? ≠ some c := by
    intro heq
    rw [h c (List.mem_of_mem_head? heq)] at hc
    cases hc
  rw [leadingInt, if_neg (hhead 45 rfl), if_neg (hhead 43 rfl), hwhole]

/-- **What `atoi` makes of digits.** -/
theorem toInt_atoi (h : ∀ c ∈ ds, isDigit c = true) :
    (atoi ds).toInt = (min (valueOf ds) (2 ^ 63 - 1) : ℤ).bmod (2 ^ 32) := by
  have hblank : ds.dropWhile isspace = ds := by
    rw [List.dropWhile_eq_self_iff]
    intro hlt
    rw [not_isspace_of_isDigit (h _ (List.getElem_mem hlt))]
    exact Bool.false_ne_true
  rw [atoi, strtol, hblank, leadingInt_of_isDigit h, Int32.toInt_ofInt]
  congr 1
  omega

/-- The first number of the server is read as it is. -/
theorem toInt_atoi_take (h : ∀ c ∈ ds, isDigit c = true) :
    (atoi (ds.take 5)).toInt = valueOf (ds.take 5) := by
  have hdigits : ∀ c ∈ ds.take 5, isDigit c = true := fun c hc => h c (List.mem_of_mem_take hc)
  have hlt : valueOf (ds.take 5) < 10 ^ 5 := by
    refine (valueOf_lt hdigits).trans_le (Nat.pow_le_pow_right (by decide) ?_)
    exact List.length_take_le 5 ds
  rw [toInt_atoi hdigits, min_eq_left (by omega), Int.bmod_eq_of_le (by omega) (by omega)]

/-! ## Tokens of a version -/

/-- `strtok` finds a number in front of a point, and cuts the string off behind it. -/
theorem strtokDot_digits (h : ∀ c ∈ ds, isDigit c = true) (hne : ds ≠ [])
    (hbehind : ∀ c ∈ behind.head?, c = 46) : strtokDot (ds ++ behind) = (some ds, ds) := by
  have htoken : (ds ++ behind).takeWhile (fun c => c ≠ 46) = ds := by
    rw [List.takeWhile_append_of_pos fun c hc => decide_eq_true (ne_of_isDigit (h c hc)).2.2]
    rcases behind with - | ⟨c, behind⟩
    · exact List.append_nil ds
    · rw [hbehind c rfl, List.takeWhile_cons_of_neg (by decide), List.append_nil]
  rcases ds with - | ⟨d, ds⟩
  · exact absurd rfl hne
  · have hd : d ≠ 46 := (ne_of_isDigit (h d List.mem_cons_self)).2.2
    have hdrop : (d :: ds ++ behind).dropWhile (fun c => decide (c = 46)) = d :: ds ++ behind :=
      List.dropWhile_cons_of_neg (by simpa using hd)
    have hfront : (d :: ds ++ behind).takeWhile (fun c => decide (c = 46)) = [] :=
      List.takeWhile_cons_of_neg (by simpa using hd)
    rw [strtokDot, hdrop, htoken, hfront]
    exact if_neg (List.cons_ne_nil d (ds ++ behind))

/-- **The numbers of a version** are three times the first one. -/
theorem versionNumbers_digits (h : ∀ c ∈ ds, isDigit c = true) (hne : ds ≠ [])
    (hbehind : ∀ c ∈ behind.head?, c = 46) :
    versionNumbers (ds ++ behind) = some ((atoi ds, atoi ds, atoi ds), ds) := by
  have hfirst := strtokDot_digits h hne hbehind
  have hsecond : strtokDot ds = (some ds, ds) := by
    have hself : strtokDot (ds ++ []) = (some ds, ds) :=
      strtokDot_digits h hne fun _ hc => by cases hc
    rwa [List.append_nil] at hself
  rw [versionNumbers, hfirst]
  show (strtokDot ds).1 >>= _ = _
  rw [hsecond]
  rfl

/-- **What the check compares**: the first numbers. -/
theorem acceptsVersion_text (hsys : sys.packageVersion = w.text) :
    acceptsVersion sys v.text
      = some (decide (v.major.asInt ≤ w.major.leading), v.major.digits) := by
  have hconfig : versionNumbers v.text = some ((atoi v.major.digits, atoi v.major.digits,
      atoi v.major.digits), v.major.digits) :=
    versionNumbers_digits v.major.isDigit v.major.ne_nil fun c hc => (Option.some.inj hc).symm
  have htake : ∀ c ∈ w.major.digits.take 5, Decimal.isDigit c = true :=
    fun c hc => w.major.isDigit c (List.mem_of_mem_take hc)
  have hne : w.major.digits.take 5 ≠ [] := by
    rw [ne_eq, List.take_eq_nil_iff]
    exact not_or.mpr ⟨by decide, w.major.ne_nil⟩
  have hown : versionNumbers (sys.packageVersion.take 5) = some ((atoi (w.major.digits.take 5),
      atoi (w.major.digits.take 5), atoi (w.major.digits.take 5)), w.major.digits.take 5) := by
    rw [hsys, VersionNumber.text, List.take_append]
    refine versionNumbers_digits htake hne fun c hc => ?_
    rcases hleft : 5 - w.major.digits.length with - | left
    · rw [hleft] at hc
      cases hc
    · rw [hleft] at hc
      exact (Option.some.inj hc).symm
  have hlt : atoi (w.major.digits.take 5) < atoi v.major.digits ↔
      ¬ v.major.asInt ≤ w.major.leading := by
    rw [Int32.lt_iff_toInt_lt, toInt_atoi_take w.major.isDigit, toInt_atoi v.major.isDigit, not_le]
    rfl
  rw [acceptsVersion, hconfig, hown]
  by_cases hle : v.major.asInt ≤ w.major.leading
  · simp [hlt, hle]
  · simp [hlt, hle]

/-! ## The line -/

/-- The tokens of a line with a version. -/
theorem IsVersionLine.tokens (h : IsVersionLine line v) :
    ∃ tok, parserTokenize (some line) = some tok ∧ tok.is "version" = true ∧
      ∃ next, parserTokenize tok.remainder = some next ∧ next.token = v.text := by
  obtain ⟨keyword, more, hwords, hkeyword⟩ := h
  obtain ⟨tok, htok, htoken, ⟨-, hnil, -⟩ | ⟨left, hleft, -, hbehind⟩⟩ :=
    parserTokenize_of_cons hwords
  · cases hnil
  · obtain ⟨next, hnext, htext, -⟩ := parserTokenize_of_cons hbehind
    exact ⟨tok, htok, by rwa [Tok.is, htoken], next, hleft ▸ hnext, htext⟩

theorem Numeral.isPlain (x : Numeral) : isPlain x.digits = true := by
  rcases hdigits : x.digits with - | ⟨c, ds⟩
  · rfl
  · have hc : Decimal.isDigit c = true := x.isDigit c (hdigits ▸ List.mem_cons_self)
    rw [Decimal.isDigit] at hc
    simp [Peep.isPlain, hc]

/-- **What a line with a version does**: it is skipped, or it ends the parse. -/
theorem parserParseGeneral_version (hline : IsVersionLine line v)
    (hsys : sys.packageVersion = w.text) (lines : List CString) :
    (parserParseGeneral sys (line :: lines) : Program (Loader n k) _)
      = if v.major.asInt ≤ w.major.leading then parserParseGeneral sys lines
        else pure (false, lines) := by
  obtain ⟨tok, htok, hversion, next, hnext, htext⟩ := hline.tokens
  rw [parserParseGeneral]
  simp only [tokenize_of_some htok, tokenize_of_some hnext, pure_bind_apply, parseVersion,
    hversion, if_true, htext, acceptsVersion_text hsys]
  by_cases hle : v.major.asInt ≤ w.major.leading
  · -- the number that is left of the version is no keyword
    have hpath : Tok.is { next with token := v.major.digits } "sound-path" = false :=
      Tok.is_eq_false v.major.isPlain (by decide)
    have hend : Tok.is { next with token := v.major.digits } "end" = false :=
      Tok.is_eq_false v.major.isPlain (by decide)
    rw [if_pos hle, decide_eq_true hle]
    show (parseSoundPath { next with token := v.major.digits } >>= fun tok =>
      isEndOf tok "general" >>= fun ends =>
        if ends then pure (true, lines) else parserParseGeneral sys lines) = _
    rw [parseSoundPath, hpath, if_neg Bool.false_ne_true, pure_bind_apply, isEndOf_of_not hend]
    rfl
  · rw [if_neg hle, decide_eq_false hle]
    rfl

/-- An empty line is skipped. -/
theorem parserParseGeneral_blank (lines : List CString) :
    (parserParseGeneral sys ([10] :: lines) : Program (Loader n k) _)
      = parserParseGeneral sys lines := by
  have htok : parserTokenize (some [10]) = some ⟨[], none⟩ := parserTokenize_of_nil rfl
  have hversion : Tok.is ⟨[], none⟩ "version" = false := Tok.is_eq_false rfl (by decide)
  have hpath : Tok.is ⟨[], none⟩ "sound-path" = false := Tok.is_eq_false rfl (by decide)
  have hend : Tok.is ⟨[], none⟩ "end" = false := Tok.is_eq_false rfl (by decide)
  rw [parserParseGeneral]
  simp only [tokenize_of_some htok, pure_bind_apply, parseVersion, hversion, Bool.false_eq_true,
    if_false, parseSoundPath, hpath, isEndOf_of_not hend]

/-- A line with a version is accepted if the first numbers compare so. -/
theorem accepts_iff_le (hline : IsVersionLine line v) (hsys : sys.packageVersion = w.text)
    (s : Loader n k) : Accepts sys s line ↔ v.major.asInt ≤ w.major.leading := by
  constructor
  · intro h
    by_contra hle
    -- behind the line is an empty one, which the parse does not come to
    have hempty := h [[10]]
    rw [parserParseGeneral_version hline hsys, if_neg hle, parserParseGeneral_blank,
      parserParseGeneral, pure_apply, pure_apply] at hempty
    cases hempty
  · intro hle lines
    rw [parserParseGeneral_version hline hsys, if_pos hle]

/-! ## When the check is right -/

/-- **For which versions the check is right.** -/
theorem accepts_iff (hline : IsVersionLine line v) (hsys : sys.packageVersion = w.text)
    (s : Loader n k) : (Accepts sys s line ↔ v.key ≤ w.key) ↔ MajorDecides v w := by
  have hkey : v.key ≤ w.key ↔ v.major.value < w.major.value ∨
      v.major.value = w.major.value ∧ v.rest ≤ w.rest := Prod.Lex.toLex_le_toLex
  rw [accepts_iff_le hline hsys, hkey]
  constructor
  · intro h
    refine ⟨fun hlt => h.mpr (.inl hlt), fun hgt => ?_, fun heq => ?_⟩
    · by_contra hle
      rcases h.mp (not_lt.mp hle) with hlt | ⟨heq, -⟩
      · omega
      · omega
    · rw [h]
      simp [heq]
  · intro h
    rcases lt_trichotomy v.major.value w.major.value with hlt | heq | hgt
    · exact iff_of_true (h.lt hlt) (.inl hlt)
    · rw [h.eq heq]
      simp [heq]
    · have hnot : ¬ v.major.asInt ≤ w.major.leading := not_le.mpr (h.gt hgt)
      exact iff_of_false hnot (by omega)

/-- If the first numbers are not too large, the check is right unless they are the same and the
other numbers are not in order. -/
theorem majorDecides_iff (hv : v.major.value < 2 ^ 31) (hw : w.major.digits.length ≤ 5) :
    MajorDecides v w ↔ (v.major.value = w.major.value → v.rest ≤ w.rest) := by
  have hint : v.major.asInt = v.major.value := by
    rw [Numeral.asInt, min_eq_left (by omega), Int.bmod_eq_of_le (by omega) (by omega)]
  have hlead : w.major.leading = w.major.value := by
    rw [Numeral.leading, List.take_of_length_le hw, Numeral.value]
  constructor
  · intro h heq
    refine (h.eq heq).mp ?_
    rw [hint, hlead, heq]
  · intro h
    refine ⟨fun hlt => ?_, fun hgt => ?_, fun heq => ?_⟩
    · rw [hint, hlead]
      omega
    · rw [hint, hlead]
      omega
    · exact iff_of_true (by rw [hint, hlead, heq]) (h heq)

theorem singleton_ne_nil (c : UInt8) : [c] ≠ [] := List.cons_ne_nil c []

theorem isDigit_singleton (h : isDigit c = true) : ∀ d ∈ [c], isDigit d = true :=
  List.forall_mem_singleton.mpr h

/-- A number of one digit. -/
def oneDigit (c : UInt8) (h : isDigit c = true) : Numeral where
  digits := [c]
  ne_nil := singleton_ne_nil c
  isDigit := isDigit_singleton h

/-- A version of numbers with one digit each. -/
def shortVersion (x y z : UInt8) (hx : isDigit x = true) (hy : isDigit y = true)
    (hz : isDigit z = true) : VersionNumber :=
  ⟨oneDigit x hx, oneDigit y hy, oneDigit z hz⟩

/-- **A file for 0.5.1** is accepted by 0.5.0. -/
theorem not_accepts_iff_newer :
    IsVersionLine (ascii "  version 0.5.1\n") (shortVersion 48 53 49 rfl rfl rfl) ∧
    ¬ (Accepts { oneFile [] with packageVersion := (shortVersion 48 53 48 rfl rfl rfl).text }
        (Loader.start 12 4 2000) (ascii "  version 0.5.1\n") ↔
      (shortVersion 48 53 49 rfl rfl rfl).key ≤ (shortVersion 48 53 48 rfl rfl rfl).key) := by
  have hline : IsVersionLine (ascii "  version 0.5.1\n") (shortVersion 48 53 49 rfl rfl rfl) :=
    ⟨ascii "version", [], by decide, by decide⟩
  refine ⟨hline, fun h => ?_⟩
  have hle := h.mp ((accepts_iff_le hline rfl _).mpr (by decide))
  revert hle
  decide

/-- A file for 0.5.1 is accepted by 0.5.2, rightly. -/
theorem accepts_iff_older :
    IsVersionLine (ascii "  version 0.5.1\n") (shortVersion 48 53 49 rfl rfl rfl) ∧
    (Accepts { oneFile [] with packageVersion := (shortVersion 48 53 50 rfl rfl rfl).text }
        (Loader.start 12 4 2000) (ascii "  version 0.5.1\n") ↔
      (shortVersion 48 53 49 rfl rfl rfl).key ≤ (shortVersion 48 53 50 rfl rfl rfl).key) := by
  have hline : IsVersionLine (ascii "  version 0.5.1\n") (shortVersion 48 53 49 rfl rfl rfl) :=
    ⟨ascii "version", [], by decide, by decide⟩
  refine ⟨hline, (accepts_iff hline rfl _).mpr ((majorDecides_iff ?_ ?_).mpr fun _ => ?_)⟩
  · decide
  · decide
  · decide

end Peep
