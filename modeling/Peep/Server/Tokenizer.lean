import Peep.Server.Tokens

/-!
# The tokenizer in its buffer

`parserTokenize` (`parser.c`) works in the buffer of a line. It sets `token` to the first character
of the next word, writes a zero behind the word, and sets `remainder` to the first character behind
that which is not a blank. If the buffer ends behind the word, then `remainder` becomes `NULL`.

The contract in `parser.h` says that `remainder` is `NULL` when there is no more buffer left to
parse. If the blank behind the last word is overwritten, as the newline of a line is, then
`remainder` is the empty string instead, and one more call returns the empty token.

## Choices

`token` and `remainder` are positions in the buffer, and `none` is `NULL`. A call that reads or
writes outside the buffer has no result.

## Main results

* `TokBuffer.parserTokenize_refines` — a call in the buffer does what it does to the strings
* `TokBuffer.calls_refines`, `TokBuffer.calls_keeps` — the calls end, and tokens stay
* `LineBuffer.enumerates_iff` — the lines whose tokens are their words
-/

namespace Peep

open Bytes Decimal Text

/-! ## The buffer -/

/-- The string at a position. -/
def stringAt (mem : List UInt8) (p : ℕ) : CString := untilZero (mem.drop p)

/-- `for (; !stop (*p); p++);`, if it does not leave the buffer. -/
def scanTo (stop : UInt8 → Bool) (mem : List UInt8) (p : ℕ) : Option ℕ :=
  ((mem.drop p).findIdx? stop).map (p + ·)

/-- `struct tok`, with the buffer that its pointers are in. -/
structure TokBuffer where
  /-- The bytes of the buffer. -/
  mem : List UInt8
  /-- `token`. -/
  token : ℕ
  /-- `remainder`; `none` is `NULL`. -/
  remainder : Option ℕ
  deriving DecidableEq

namespace TokBuffer

/-- The token, as long as the buffer is not written to. -/
def string (buf : TokBuffer) : CString := stringAt buf.mem buf.token

/-- `parserTokenize`. -/
def parserTokenize (buf : TokBuffer) : Option TokBuffer := do
  let remainder ← buf.remainder
  let p ← scanTo (fun c => !isspace c) buf.mem remainder
  let q ← scanTo (fun c => (isspace c || c = 10) || c = 0) buf.mem p
  let c ← buf.mem[q]?
  if isspace c || c = 10 then
    let mem := buf.mem.set q 0
    -- the blanks behind the word
    let q ← scanTo (fun c => !isspace c) mem (q + 1)
    some { mem := mem, token := p, remainder := some q }
  else some { buf with token := p, remainder := none }

/-- `while (buf->remainder != NULL) parserTokenize (buf);`: what each call has made of the buffer,
if there are fewer calls than `fuel`. -/
def calls : ℕ → TokBuffer → Option (List TokBuffer)
  | 0, _ => none
  | fuel + 1, buf =>
    match buf.remainder with
    | none => some []
    | some _ => buf.parserTokenize.bind fun next => (calls fuel next).map (next :: ·)

end TokBuffer

/-- A buffer with a string in it. -/
def LineBuffer : Type := { mem : List UInt8 // 0 ∈ mem }

namespace LineBuffer

/-- The line in the buffer. -/
def line (buffer : LineBuffer) : CString := stringAt buffer.1 0

/-- `tok.remainder = buffer;`. Nothing has been written to `token`. -/
def start (buffer : LineBuffer) (token : ℕ) : TokBuffer := ⟨buffer.1, token, some 0⟩

/-- The calls end, their tokens are the words of the line, and after each call `remainder` is `NULL`
if and only if no word is left. -/
def Enumerates (buffer : LineBuffer) : Prop :=
  ∀ token, ∃ fuel bufs, (buffer.start token).calls fuel = some bufs ∧
    bufs.map TokBuffer.string = words isspace buffer.line ∧
    ∀ i (hi : i < bufs.length),
      bufs[i].remainder = none ↔ (words isspace buffer.line).drop (i + 1) = []

end LineBuffer

variable {mem : List UInt8} {p r i fuel fuel' : ℕ} {s w line : CString} {d : UInt8}
  {buf next : TokBuffer} {bufs bufs' : List TokBuffer} {rest : Option CString} {tok : Tok}

/-! ## Strings in memory -/

/-- The string stands at the position, with a zero behind it. -/
def Stands (mem : List UInt8) (p : ℕ) (s : CString) : Prop :=
  0 ∉ s ∧ ∃ back, mem.drop p = s ++ 0 :: back

theorem stands_stringAt (h : 0 ∈ mem.drop p) : Stands mem p (stringAt mem p) :=
  ⟨zero_notMem_untilZero _, exists_eq_untilZero_append h⟩

theorem Stands.stringAt_eq (h : Stands mem p s) : stringAt mem p = s := by
  obtain ⟨h0, back, hmem⟩ := h
  rw [stringAt, hmem, untilZero_append h0]

/-- What stands behind the first characters. -/
theorem Stands.suffix (h : Stands mem p (w ++ s)) : Stands mem (p + w.length) s := by
  obtain ⟨h0, back, hmem⟩ := h
  refine ⟨fun h => h0 (List.mem_append_right w h), back, ?_⟩
  rw [← List.drop_drop, hmem, List.append_assoc, List.drop_left]

/-- The character at the position, or the zero. -/
theorem Stands.getElem? (h : Stands mem p s) : mem[p]? = some (s.headD 0) := by
  obtain ⟨-, back, hmem⟩ := h
  have hget : mem[p]? = (mem.drop p).head? := by
    rw [List.head?_drop]
  rw [hget, hmem]
  cases s <;> rfl

/-- The string and its zero are what counts. -/
theorem Stands.take {n : ℕ} (h : Stands mem p s) (hn : p + s.length < n) :
    Stands (mem.take n) p s := by
  obtain ⟨h0, back, hmem⟩ := h
  obtain ⟨k, hk⟩ : ∃ k, n - p = s.length + (k + 1) := ⟨n - p - s.length - 1, by omega⟩
  refine ⟨h0, back.take k, ?_⟩
  rw [List.drop_take, hmem, hk, List.take_length_add_append, List.take_succ_cons]

theorem Stands.of_take {n : ℕ} (h : Stands (mem.take n) p s) : Stands mem p s := by
  obtain ⟨h0, back, hmem⟩ := h
  obtain ⟨more, hmore⟩ := List.take_prefix (n - p) (mem.drop p)
  rw [List.drop_take] at hmem
  exact ⟨h0, back ++ more, by rw [← hmore, hmem, List.append_assoc, List.cons_append]⟩

/-- **A scan** goes over the first characters and stops at the next one, or at the zero. -/
theorem Stands.scanTo_eq {stop : UInt8 → Bool} (h : Stands mem p (w ++ s))
    (hw : ∀ c ∈ w, stop c = false) (hs : stop (s.headD 0) = true) :
    scanTo stop mem p = some (p + w.length) := by
  obtain ⟨-, back, hmem⟩ := h
  have hfirst : w.findIdx? stop = none := List.findIdx?_eq_none_iff.mpr hw
  have hstop : (s ++ 0 :: back).findIdx? stop = some 0 := by
    cases s with
    | nil => exact if_pos hs
    | cons c s => exact if_pos hs
  rw [scanTo, hmem, List.append_assoc, List.findIdx?_append, hfirst, hstop, Option.none_or,
    Option.map_some, Option.map_some, Nat.zero_add]

/-- Blanks are skipped. -/
theorem Stands.scanTo_blanks (h : Stands mem p s) :
    ∃ q, p ≤ q ∧ scanTo (fun c => !isspace c) mem p = some q ∧
      Stands mem q (s.dropWhile isspace) := by
  have hsplit : s.takeWhile isspace ++ s.dropWhile isspace = s := List.takeWhile_append_dropWhile
  rw [← hsplit] at h
  refine ⟨p + (s.takeWhile isspace).length, Nat.le_add_right _ _, h.scanTo_eq ?_ ?_, h.suffix⟩
  · intro c hc
    rw [List.mem_takeWhile_imp hc]
    rfl
  · rcases hrest : s.dropWhile isspace with - | ⟨c, rest⟩
    · rfl
    · rw [List.headD_cons, eq_false_of_dropWhile_eq_cons hrest]
      rfl

/-- **Writing a zero** ends a word. What is behind it stays. -/
theorem Stands.set (h : Stands mem p (w ++ d :: s)) :
    Stands (mem.set (p + w.length) 0) p w ∧
      Stands (mem.set (p + w.length) 0) (p + w.length + 1) s := by
  obtain ⟨h0, back, hmem⟩ := h
  have hset : (mem.set (p + w.length) 0).drop p = w ++ 0 :: (s ++ 0 :: back) := by
    rw [List.drop_set, if_neg (by omega), Nat.add_sub_cancel_left, hmem, List.append_assoc,
      List.set_append_right _ _ le_rfl, Nat.sub_self]
    rfl
  refine ⟨⟨fun h => h0 (List.mem_append_left _ h), _, hset⟩,
    fun h => h0 (List.mem_append_right w (List.mem_cons_of_mem d h)), back, ?_⟩
  rw [Nat.add_assoc, ← List.drop_drop, hset, ← List.drop_drop, List.drop_left]
  rfl

/-! ## One call -/

/-- The string stands in the part of the buffer that later calls do not write to. -/
def TokBuffer.Keeps (buf : TokBuffer) (p : ℕ) (s : CString) : Prop :=
  Stands (buf.mem.take (buf.remainder.getD buf.mem.length)) p s

/-- What the buffer means: a token, and what is left of the line. -/
structure TokBuffer.Means (buf : TokBuffer) (tok : Tok) : Prop where
  /-- The token stands at `token`. -/
  token : buf.Keeps buf.token tok.token
  /-- What is left stands at `remainder`. -/
  remainder : Option.Rel (Stands buf.mem) buf.remainder tok.remainder

theorem TokBuffer.Means.string_eq (h : buf.Means tok) : buf.string = tok.token :=
  h.token.of_take.stringAt_eq

/-- The second scan of a call goes to the end of the word. -/
theorem Stands.scanTo_word (h : Stands mem p (w ++ s)) (hw : ∀ c ∈ w, isspace c = false)
    (hs : s = [] ∨ isspace (s.headD 0) = true) :
    scanTo (fun c => (isspace c || c = 10) || c = 0) mem p = some (p + w.length) := by
  refine h.scanTo_eq (fun c hc => ?_) ?_
  · have hzero : c ≠ 0 := fun h0 => h.1 (List.mem_append_left s (h0 ▸ hc))
    have hnewline : c ≠ 10 := by
      rintro rfl
      exact absurd (hw 10 hc) (by decide)
    simp [hw c hc, hzero, hnewline]
  · rcases hs with rfl | hblank
    · rfl
    · rw [hblank]
      rfl

/-- A call at the last word, with nothing behind it. -/
theorem TokBuffer.parserTokenize_end (hr : buf.remainder = some r)
    (hskip : scanTo (fun c => !isspace c) buf.mem r = some p) (hp : Stands buf.mem p w)
    (hw : ∀ c ∈ w, isspace c = false) :
    buf.parserTokenize = some { buf with token := p, remainder := none } := by
  rw [← List.append_nil w] at hp
  rw [TokBuffer.parserTokenize, hr]
  simp only [Option.bind_eq_bind, Option.bind_some, hskip, hp.scanTo_word hw (.inl rfl),
    hp.suffix.getElem?]
  rfl

/-- A call at a word with a blank behind it. -/
theorem TokBuffer.parserTokenize_blank (hr : buf.remainder = some r)
    (hskip : scanTo (fun c => !isspace c) buf.mem r = some p)
    (hp : Stands buf.mem p (w ++ d :: s)) (hw : ∀ c ∈ w, isspace c = false)
    (hd : isspace d = true) :
    ∃ q, buf.parserTokenize = some ⟨buf.mem.set (p + w.length) 0, p, some q⟩ ∧
      p + w.length < q ∧ Stands (buf.mem.set (p + w.length) 0) q (s.dropWhile isspace) := by
  obtain ⟨q, hq, hblanks, hrest⟩ := hp.set.2.scanTo_blanks
  refine ⟨q, ?_, hq, hrest⟩
  rw [TokBuffer.parserTokenize, hr]
  simp only [Option.bind_eq_bind, Option.bind_some, hskip, hp.scanTo_word hw (.inr hd),
    hp.suffix.getElem?, List.headD_cons, hd, hblanks, Bool.true_or, if_true]

/-- **A call in the buffer** does what it does to the strings, and keeps the tokens. -/
theorem TokBuffer.parserTokenize_refines (hr : buf.remainder = some r)
    (h : Stands buf.mem r line) :
    ∃ next tok, buf.parserTokenize = some next ∧ Peep.parserTokenize (some line) = some tok ∧
      next.Means tok ∧ ∀ p s, buf.Keeps p s → next.Keeps p s := by
  obtain ⟨p, hrp, hskip, hp⟩ := h.scanTo_blanks
  have hw : ∀ c ∈ (line.dropWhile isspace).takeWhile (fun c => !isspace c), isspace c = false :=
    fun c hc => by simpa using List.mem_takeWhile_imp hc
  have hsplit : ((line.dropWhile isspace).takeWhile fun c => !isspace c) ++
      ((line.dropWhile isspace).dropWhile fun c => !isspace c) = line.dropWhile isspace :=
    List.takeWhile_append_dropWhile
  rcases hrest : (line.dropWhile isspace).dropWhile (fun c => !isspace c) with - | ⟨d, s⟩
  · have htok : Peep.parserTokenize (some line)
        = some ⟨(line.dropWhile isspace).takeWhile fun c => !isspace c, none⟩ := by
      simp only [Peep.parserTokenize, Option.map_some, hrest]
    rw [hrest, List.append_nil] at hsplit
    rw [← hsplit] at hp
    have hkept (p : ℕ) (s : CString) (h : Stands buf.mem p s) :
        TokBuffer.Keeps { buf with token := p, remainder := none } p s := by
      rw [TokBuffer.Keeps, Option.getD_none, List.take_length]
      exact h
    exact ⟨_, _, TokBuffer.parserTokenize_end hr hskip hp hw, htok, ⟨hkept _ _ hp, .none⟩,
      fun p s hkeeps => hkept p s hkeeps.of_take⟩
  · have htok : Peep.parserTokenize (some line)
        = some ⟨(line.dropWhile isspace).takeWhile fun c => !isspace c,
            some (s.dropWhile isspace)⟩ := by
      simp only [Peep.parserTokenize, Option.map_some, hrest]
    have hd : isspace d = true := by simpa using eq_false_of_dropWhile_eq_cons hrest
    rw [hrest] at hsplit
    rw [← hsplit] at hp
    obtain ⟨q, hcall, hwq, hq⟩ := TokBuffer.parserTokenize_blank hr hskip hp hw hd
    refine ⟨_, _, hcall, htok, ⟨hp.set.1.take hwq, .some hq⟩, fun p' s' hkeeps => ?_⟩
    -- the zero is written behind the old `remainder`
    rw [TokBuffer.Keeps, hr, Option.getD_some] at hkeeps
    refine Stands.of_take (n := r) ?_
    rwa [Option.getD_some, List.take_take, min_eq_left (by omega), List.take_set_of_le (by omega)]

/-! ## All calls -/

theorem TokBuffer.calls_none (hr : buf.remainder = none) (fuel : ℕ) :
    buf.calls (fuel + 1) = some [] := by
  rw [TokBuffer.calls, hr]

theorem TokBuffer.calls_cons (hr : buf.remainder = some r) (hcall : buf.parserTokenize = some next)
    (hbufs : next.calls fuel = some bufs) : buf.calls (fuel + 1) = some (next :: bufs) := by
  rw [TokBuffer.calls, hr]
  simp only [hcall, Option.bind_some, hbufs, Option.map_some]

/-- Calls that end are none, or one and then others. -/
theorem TokBuffer.calls_cases (h : buf.calls (fuel + 1) = some bufs) :
    (buf.remainder = none ∧ bufs = []) ∨
      ∃ r next more, buf.remainder = some r ∧ buf.parserTokenize = some next ∧
        next.calls fuel = some more ∧ bufs = next :: more := by
  rw [TokBuffer.calls] at h
  rcases hr : buf.remainder with - | r
  · rw [hr] at h
    exact .inl ⟨rfl, (Option.some.inj h).symm⟩
  · rw [hr] at h
    obtain ⟨next, hcall, hrest⟩ := Option.bind_eq_some_iff.mp h
    obtain ⟨more, hmore, rfl⟩ := Option.map_eq_some_iff.mp hrest
    exact .inr ⟨r, next, more, rfl, hcall, hmore, rfl⟩

/-- **The calls end**, and yield the tokens of the line. -/
theorem TokBuffer.calls_refines (h : Option.Rel (Stands buf.mem) buf.remainder rest)
    (hfuel : roomOf rest < fuel) :
    ∃ bufs, buf.calls fuel = some bufs ∧ List.Forall₂ TokBuffer.Means bufs (tokens rest) := by
  induction fuel generalizing buf rest with
  | zero => exact absurd hfuel (Nat.not_lt_zero _)
  | succ fuel ih =>
    rcases hr : buf.remainder with - | r
    · rw [hr] at h
      cases h
      exact ⟨[], TokBuffer.calls_none hr fuel, .nil⟩
    · rw [hr] at h
      obtain ⟨hline⟩ := h
      obtain ⟨next, tok, hcall, htok, hmeans, -⟩ := TokBuffer.parserTokenize_refines hr hline
      have hlt := roomOf_remainder_lt htok
      obtain ⟨bufs, hbufs, hrest⟩ := ih hmeans.remainder (by omega)
      refine ⟨next :: bufs, TokBuffer.calls_cons hr hcall hbufs, ?_⟩
      rw [tokens_of_some htok]
      exact .cons hmeans hrest

/-- More fuel does not matter. -/
theorem TokBuffer.calls_mono (h : buf.calls fuel = some bufs) (hle : fuel ≤ fuel') :
    buf.calls fuel' = some bufs := by
  induction fuel generalizing buf fuel' bufs with
  | zero => cases h
  | succ fuel ih =>
    obtain ⟨fuel', rfl⟩ := Nat.exists_eq_add_one_of_ne_zero (Nat.ne_zero_of_lt hle)
    rcases TokBuffer.calls_cases h with ⟨hr, rfl⟩ | ⟨r, next, more, hr, hcall, hmore, rfl⟩
    · exact TokBuffer.calls_none hr fuel'
    · exact TokBuffer.calls_cons hr hcall (ih hmore (Nat.le_of_succ_le_succ hle))

theorem TokBuffer.calls_unique (h : buf.calls fuel = some bufs)
    (h' : buf.calls fuel' = some bufs') : bufs = bufs' :=
  Option.some.inj
    ((TokBuffer.calls_mono h (le_max_left fuel fuel')).symm.trans
      (TokBuffer.calls_mono h' (le_max_right fuel fuel')))

/-- `remainder` is `NULL` after the last call, and only then. -/
theorem TokBuffer.remainder_eq_none_iff (h : buf.calls fuel = some bufs) (hi : i < bufs.length) :
    bufs[i].remainder = none ↔ i + 1 = bufs.length := by
  induction fuel generalizing buf bufs i with
  | zero => cases h
  | succ fuel ih =>
    rcases TokBuffer.calls_cases h with ⟨-, rfl⟩ | ⟨r, next, more, -, -, hmore, rfl⟩
    · exact absurd hi (Nat.not_lt_zero _)
    rcases i with - | i
    · rcases fuel with - | fuel
      · cases hmore
      rcases TokBuffer.calls_cases hmore with ⟨hr, rfl⟩ | ⟨r, next, more, hr, -, -, rfl⟩
      · exact iff_of_true hr rfl
      · simp [hr]
    · rw [List.length_cons, Nat.add_right_cancel_iff]
      exact ih hmore (Nat.lt_of_succ_lt_succ hi)

/-- A token stays where it is while the others are read. -/
def TokBuffer.Stays (buf later : TokBuffer) : Prop := stringAt later.mem buf.token = buf.string

/-- **Tokens stay**, as does what stood in front of `remainder` before. -/
theorem TokBuffer.calls_keeps (hbufs : buf.calls fuel = some bufs)
    (h : Option.Rel (Stands buf.mem) buf.remainder rest) :
    (∀ later ∈ bufs, ∀ p s, buf.Keeps p s → later.Keeps p s) ∧ bufs.Pairwise TokBuffer.Stays := by
  induction fuel generalizing buf bufs rest with
  | zero => cases hbufs
  | succ fuel ih =>
    rcases TokBuffer.calls_cases hbufs with ⟨-, rfl⟩ | ⟨r, next, more, hr, hcall, hmore, rfl⟩
    · exact ⟨fun later hlater => absurd hlater List.not_mem_nil, .nil⟩
    rw [hr] at h
    obtain ⟨hline⟩ := h
    obtain ⟨next', tok, hcall', -, hmeans, hkeeps⟩ := TokBuffer.parserTokenize_refines hr hline
    obtain rfl := Option.some.inj (hcall.symm.trans hcall')
    obtain ⟨hlater, hstays⟩ := ih hmore hmeans.remainder
    refine ⟨fun later hmem p s hold => ?_, .cons (fun later hmem => ?_) hstays⟩
    · rcases List.mem_cons.mp hmem with rfl | hmem
      · exact hkeeps p s hold
      · exact hlater later hmem p s (hkeeps p s hold)
    · rw [TokBuffer.Stays, hmeans.string_eq]
      exact (hlater later hmem _ _ hmeans.token).of_take.stringAt_eq

/-! ## Lines that are enumerated -/

namespace LineBuffer

variable {buffer : LineBuffer} {token : ℕ}

theorem rel_start (buffer : LineBuffer) (token : ℕ) :
    Option.Rel (Stands (buffer.start token).mem) (buffer.start token).remainder
      (some buffer.line) :=
  .some (stands_stringAt buffer.2)

/-- The calls on a line end with its tokens. -/
theorem exists_calls (buffer : LineBuffer) (token : ℕ) :
    ∃ fuel bufs, (buffer.start token).calls fuel = some bufs ∧
      bufs.map TokBuffer.string = (tokens (some buffer.line)).map Tok.token := by
  obtain ⟨bufs, hbufs, hmeans⟩ :=
    TokBuffer.calls_refines (buffer.rel_start token) (Nat.lt_succ_self _)
  refine ⟨_, bufs, hbufs, ?_⟩
  rw [← List.forall₂_eq_eq_eq, List.forall₂_map_left_iff, List.forall₂_map_right_iff]
  exact hmeans.imp fun _ _ h => h.string_eq

/-- **Tokens stay** in the buffer while the rest of the line is read. -/
theorem pairwise_stays (h : (buffer.start token).calls fuel = some bufs) :
    bufs.Pairwise TokBuffer.Stays :=
  (TokBuffer.calls_keeps h (buffer.rel_start token)).2

/-- **The lines that are enumerated** are those that end in a word. -/
theorem enumerates_iff (buffer : LineBuffer) :
    buffer.Enumerates ↔ ∃ c ∈ buffer.line.getLast?, isspace c = false := by
  constructor
  · intro h
    by_contra hblank
    have hholds : Holds (some buffer.line) (words isspace buffer.line) :=
      ⟨_, rfl, fun c hc => by simpa using fun hnot => hblank ⟨c, hc, hnot⟩, rfl⟩
    obtain ⟨fuel, bufs, hbufs, hwords, -⟩ := h 0
    obtain ⟨fuel', bufs', hbufs', htokens⟩ := buffer.exists_calls 0
    rw [TokBuffer.calls_unique hbufs hbufs', htokens, hholds.map_token] at hwords
    exact absurd hwords (by simp)
  · intro hlast token
    have hragged : Ragged (some buffer.line) (words isspace buffer.line) := ⟨_, rfl, hlast, rfl⟩
    obtain ⟨fuel, bufs, hbufs, htokens⟩ := buffer.exists_calls token
    have hwords := htokens.trans hragged.map_token
    refine ⟨fuel, bufs, hbufs, hwords, fun i hi => ?_⟩
    have hlength : (words isspace buffer.line).length = bufs.length := by
      rw [← hwords, List.length_map]
    rw [TokBuffer.remainder_eq_none_iff hbufs hi, List.drop_eq_nil_iff, hlength]
    omega

/-- The line `end`, with its newline. -/
def endLine : LineBuffer := ⟨ascii "end\n" ++ [0], by decide⟩

/-- The newline is not taken for the end of the buffer: there is another token, which is empty. -/
theorem not_enumerates_endLine : ¬ endLine.Enumerates := by
  intro h
  obtain ⟨fuel, bufs, hbufs, hwords, -⟩ := h 0
  have hcalls : (endLine.start 0).calls 3 = some
      [⟨ascii "end" ++ [0, 0], 0, some 4⟩, ⟨ascii "end" ++ [0, 0], 4, none⟩] := by decide
  rw [TokBuffer.calls_unique hbufs hcalls] at hwords
  exact absurd hwords (by decide)

end LineBuffer

end Peep
