import Mathlib.Algebra.Order.Group.Multiset
import Mathlib.Data.Multiset.Range
import Mathlib.Tactic.Abel
import Peep.Library.Program

/-!
# Blocks of memory and who owns them

A program allocates blocks and releases them. It crashes where it releases something that is not
the beginning of an allocated block, or accesses memory that is in no such block; so a program that
returns has released nothing twice. What it has forgotten to release is what is still allocated.

`Owns A p B` says that `p` returns if it is given the blocks `A`, and that it has the blocks `B a`
when it returns `a`: it has released or kept those of `A`, allocated the others, and left alone
whatever else is allocated. As the blocks of a heap are a multiset without duplicates, a sum of
multisets of blocks says that they are disjoint, and the frame of a program is one more summand.

## Main results

* `Owns.bind` — the rule for a sequence
* `Owns.frame` — blocks that a program does not know of stay as they are
* `owns_foldlM` — the rule for a loop over a list
* `tracks_foldlM` — the rule for a loop that may crash
-/

namespace Blocks

open Program

/-- What may be in a variable for a pointer. -/
inductive Pointer
  /-- The null pointer. -/
  | null
  /-- The beginning of a block. -/
  | start (b : ℕ)
  /-- A place in a block that is not its beginning. -/
  | inside (b : ℕ)
  /-- What is in a variable that was never written. -/
  | wild
  deriving DecidableEq

/-- The blocks that are allocated, and the one that is allocated next. -/
structure Arena where
  /-- The blocks. -/
  live : Multiset ℕ
  /-- The next one. -/
  next : ℕ
  /-- No block is allocated twice. -/
  nodup : live.Nodup
  /-- The next block is a new one. -/
  lt_next : ∀ b ∈ live, b < next

/-- The heap with one more block. -/
def Arena.allocate (h : Arena) : Arena where
  live := h.next ::ₘ h.live
  next := h.next + 1
  nodup := Multiset.nodup_cons.mpr ⟨fun hmem => lt_irrefl _ (h.lt_next _ hmem), h.nodup⟩
  lt_next := by
    intro b hb
    obtain rfl | hb := Multiset.mem_cons.mp hb
    · exact Nat.lt_succ_self _
    · exact (h.lt_next b hb).trans (Nat.lt_succ_self _)

/-- The heap without a block. -/
def Arena.release (h : Arena) (b : ℕ) : Arena where
  live := h.live.erase b
  next := h.next
  nodup := h.nodup.erase b
  lt_next := fun c hc => h.lt_next c (Multiset.mem_of_mem_erase hc)

/-- The heap of a program that has allocated `n` blocks. -/
def Arena.initial (n : ℕ) : Arena where
  live := Multiset.range n
  next := n
  nodup := Multiset.nodup_range n
  lt_next := fun _ hb => Multiset.mem_range.mp hb

@[simp] theorem Arena.live_allocate (h : Arena) : h.allocate.live = h.next ::ₘ h.live := rfl

@[simp] theorem Arena.live_release (h : Arena) (b : ℕ) : (h.release b).live = h.live.erase b := rfl

/-- `malloc`, `calloc`: memory can be allocated. -/
def malloc : Program Arena ℕ := do
  let h ← get
  change Arena.allocate
  return h.next

/-- `free`. -/
def free : Pointer → Program Arena Unit
  | .null => return ()
  | .start b => do
    let h ← get
    if b ∈ h.live then change fun h => h.release b else crash
  | _ => crash

/-- `malloc` of a size that may be negative, which is more than there is. -/
def mallocSized (size : ℤ) : Program Arena Pointer :=
  if size < 0 then return .null
  else do
    let b ← malloc
    return .start b

/-- An access through a pointer. -/
def access : Pointer → Program Arena Unit
  | .start b | .inside b => do
    let h ← get
    if b ∈ h.live then return () else crash
  | _ => crash

@[simp] theorem malloc_bind_apply {β : Type} (f : ℕ → Program Arena β) (h : Arena) :
    (malloc >>= f) h = f h.next h.allocate := rfl

theorem free_apply {h : Arena} {b : ℕ} (hmem : b ∈ h.live) :
    free (.start b) h = (some (), h.release b) := by
  rw [free, get_bind, if_pos hmem]
  rfl

theorem free_bind_apply {β : Type} (f : Unit → Program Arena β) {h : Arena} {b : ℕ}
    (hmem : b ∈ h.live) : (free (.start b) >>= f) h = f () (h.release b) :=
  bind_of_some (free_apply hmem)

theorem mallocSized_bind_of_neg {β : Type} (f : Pointer → Program Arena β) {size : ℤ}
    (h : size < 0) : (mallocSized size >>= f) = f .null := by
  rw [mallocSized, if_pos h, pure_bind]

theorem mallocSized_bind_of_nonneg {β : Type} (f : Pointer → Program Arena β) {size : ℤ}
    (h : 0 ≤ size) : (mallocSized size >>= f) = malloc >>= fun b => f (.start b) := by
  rw [mallocSized, if_neg (not_lt.mpr h), bind_assoc]
  rfl

/-- The block that a pointer to its beginning owns. -/
def owned : Pointer → Multiset ℕ
  | .start b => {b}
  | _ => 0

/-- The program returns if it is given the blocks `A`, and then it has the blocks `B`. -/
def Owns {α : Type} (A : Multiset ℕ) (p : Program Arena α) (B : α → Multiset ℕ) : Prop :=
  ∀ h F, h.live = A + F → ∃ a h', p h = (some a, h') ∧ h'.live = B a + F

variable {α β : Type} {A A' R : Multiset ℕ} {p : Program Arena α} {B B' : α → Multiset ℕ}
  {f : α → Program Arena β} {C : β → Multiset ℕ} {b : ℕ}

theorem owns_pure (a : α) : Owns (B a) (pure a) B := fun h _ hlive => ⟨a, h, rfl, hlive⟩

/-- **The rule for a sequence.** -/
theorem Owns.bind (hp : Owns A p B) (hf : ∀ a, Owns (B a) (f a) C) : Owns A (p >>= f) C := by
  intro h F hlive
  obtain ⟨a, h', hrun, hlive'⟩ := hp h F hlive
  rw [bind_of_some hrun]
  exact hf a h' F hlive'

/-- The rule for a sequence, with what is known of the value of its first part. -/
theorem Owns.bind_of_yields {Q : α → Prop} (hp : Owns A p B) (hQ : Yields Q p)
    (hf : ∀ a, Q a → Owns (B a) (f a) C) : Owns A (p >>= f) C := by
  intro h F hlive
  obtain ⟨a, h', hrun, hlive'⟩ := hp h F hlive
  rw [bind_of_some hrun]
  exact hf a (hQ h a h' hrun) h' F hlive'

/-- **The frame rule.** -/
theorem Owns.frame (hp : Owns A p B) (R : Multiset ℕ) : Owns (A + R) p fun a => B a + R := by
  intro h F hlive
  obtain ⟨a, h', hrun, hlive'⟩ := hp h (R + F) (by rw [hlive, add_assoc])
  exact ⟨a, h', hrun, by rw [hlive', add_assoc]⟩

/-- The blocks may be written in another way. -/
theorem Owns.congr (hp : Owns A p B) (hA : A = A') (hB : ∀ a, B a = B' a) : Owns A' p B' := by
  intro h F hlive
  obtain ⟨a, h', hrun, hlive'⟩ := hp h F (by rw [hlive, hA])
  exact ⟨a, h', hrun, by rw [hlive', hB]⟩

/-- A program that needs only some of the blocks, and then the rest of the sequence. -/
theorem Owns.bind_frame (hp : Owns A p B) (hf : ∀ a, Owns (B a + R) (f a) C) :
    Owns (A + R) (p >>= f) C :=
  (hp.frame R).bind hf

/-- The same, where the blocks are written in another way. -/
theorem Owns.bind_of_eq (hp : Owns A p B) (hA : A' = A + R)
    (hf : ∀ a, Owns (B a + R) (f a) C) : Owns A' (p >>= f) C := by
  rw [hA]
  exact hp.bind_frame hf

theorem owns_malloc : Owns 0 malloc fun b => {b} := by
  intro h F hlive
  refine ⟨h.next, h.allocate, rfl, ?_⟩
  simp [hlive]

theorem owns_free (b : ℕ) : Owns {b} (free (.start b)) fun _ => 0 := by
  intro h F hlive
  have hmem : b ∈ h.live := by
    rw [hlive]
    exact Multiset.mem_add.mpr (.inl (Multiset.mem_singleton_self b))
  exact ⟨(), h.release b, free_apply hmem, by simp [hlive]⟩

theorem owns_free_null : Owns 0 (free .null) fun _ => 0 := fun h _ hlive => ⟨(), h, rfl, hlive⟩

theorem owns_free_owned {p : Pointer} (h : p = .null ∨ ∃ b, p = .start b) :
    Owns (owned p) (free p) fun _ => 0 := by
  obtain rfl | ⟨b, rfl⟩ := h
  · exact owns_free_null
  · exact owns_free b

theorem owns_ite {c : Prop} [Decidable c] {q : Program Arena α} (hp : c → Owns A p B)
    (hq : ¬ c → Owns A q B) : Owns A (if c then p else q) B := by
  by_cases h : c
  · rw [if_pos h]
    exact hp h
  · rw [if_neg h]
    exact hq h

/-- A new block, and then the rest of the sequence. -/
theorem Owns.malloc_bind {g : ℕ → Program Arena β} (hg : ∀ b, Owns (A + {b}) (g b) C) :
    Owns A (malloc >>= g) C := by
  have h := owns_malloc.bind_frame (R := A) fun b =>
    (hg b).congr (add_comm A {b}) fun _ => rfl
  exact h.congr (zero_add A) fun _ => rfl

/-- A block is released, and then the rest of the sequence. -/
theorem Owns.free_bind {g : Unit → Program Arena β} (hg : Owns A (g ()) C) :
    Owns (A + {b}) (free (.start b) >>= g) C := by
  have h := (owns_free b).bind_frame (R := A) fun _ =>
    hg.congr (zero_add A).symm fun _ => rfl
  exact h.congr (add_comm {b} A) fun _ => rfl

/-- **The rule for a loop over a list**, whose states have `J`. -/
theorem owns_foldlM {σ γ : Type} {step : σ → γ → Program Arena σ} {I : σ → Multiset ℕ}
    {J : σ → Prop} (hstep : ∀ s c, J s → Owns (I s) (step s c) I)
    (hJ : ∀ s c, J s → Yields J (step s c)) (cs : List γ) (s : σ) (hs : J s) :
    Owns (I s) (cs.foldlM step s) I := by
  induction cs generalizing s with
  | nil => exact owns_pure s
  | cons c cs ih =>
    rw [List.foldlM_cons]
    exact (hstep s c hs).bind_of_yields (hJ s c hs) ih

/-! ## Losing blocks -/

/-- The program returns if it is given the blocks `A`; then it has the blocks `B`, and `n` others
that nobody knows of any more. -/
def Loses (n : ℕ) (A : Multiset ℕ) (p : Program Arena α) (B : α → Multiset ℕ) : Prop :=
  ∀ h F, h.live = A + F →
    ∃ a h' L, p h = (some a, h') ∧ L.card = n ∧ h'.live = B a + L + F

theorem Owns.loses (hp : Owns A p B) : Loses 0 A p B := by
  intro h F hlive
  obtain ⟨a, h', hrun, hlive'⟩ := hp h F hlive
  exact ⟨a, h', 0, hrun, rfl, by rw [hlive', add_zero]⟩

/-- **The rule for a sequence**: what is lost adds up. -/
theorem Loses.bind {m n : ℕ} (hp : Loses m A p B) (hf : ∀ a, Loses n (B a) (f a) C) :
    Loses (m + n) A (p >>= f) C := by
  intro h F hlive
  obtain ⟨a, h', L, hrun, hm, hlive'⟩ := hp h F hlive
  obtain ⟨b, h'', L', hrun', hn, hlive''⟩ := hf a h' (L + F) (by rw [hlive', add_assoc])
  refine ⟨b, h'', L + L', ?_, ?_, ?_⟩
  · rw [bind_of_some hrun]
    exact hrun'
  · rw [Multiset.card_add, hm, hn]
  · rw [hlive'']
    abel

theorem Loses.frame {n : ℕ} (hp : Loses n A p B) (R : Multiset ℕ) :
    Loses n (A + R) p fun a => B a + R := by
  intro h F hlive
  obtain ⟨a, h', L, hrun, hn, hlive'⟩ := hp h (R + F) (by rw [hlive, add_assoc])
  refine ⟨a, h', L, hrun, hn, ?_⟩
  rw [hlive', ← add_assoc, add_right_comm (B a)]

/-- **A block is lost** where a program goes on without it. -/
theorem Loses.forget {n : ℕ} (hp : Loses n A p B) : Loses (n + 1) (A + {b}) p B := by
  intro h F hlive
  obtain ⟨a, h', L, hrun, hn, hlive'⟩ := hp h ({b} + F) (by rw [hlive, add_assoc])
  refine ⟨a, h', L + {b}, hrun, ?_, ?_⟩
  · rw [Multiset.card_add, hn, Multiset.card_singleton]
  · rw [hlive']
    abel

/-- A new block, and then the rest of the sequence. -/
theorem Loses.malloc_bind {n : ℕ} {g : ℕ → Program Arena β}
    (hg : ∀ b, Loses n (A + {b}) (g b) C) : Loses n A (malloc >>= g) C := by
  intro h F hlive
  refine hg h.next h.allocate F ?_
  rw [Arena.live_allocate, hlive, ← Multiset.singleton_add, ← add_assoc, add_comm {h.next} A]

/-! ## Loops that may crash -/

section Tracks

variable {σ ν γ : Type} {n : ℕ} {I : σ → Multiset ℕ} {J : ν → σ → Arena → Prop} {v : ν} {s : σ}
  {h : Arena} {F : Multiset ℕ}

/-- In the heap `h`, the blocks `F` of others in it, the program crashes if the result `o` does not
exist. Otherwise it returns a state that `J` relates to the result, and has lost `n` blocks. -/
def Tracks (n : ℕ) (I : σ → Multiset ℕ) (J : ν → σ → Arena → Prop) (h : Arena) (F : Multiset ℕ)
    (p : Program Arena σ) (o : Option ν) : Prop :=
  match o with
  | none => ∃ h', p h = (none, h')
  | some v => ∃ s h' L, p h = (some s, h') ∧ L.card = n ∧ h'.live = I s + L + F ∧ J v s h'

theorem Loses.tracks {p : Program Arena σ} (hp : Loses n (I s) p I) (hlive : h.live = I s + F)
    (hv : ∀ t h', p h = (some t, h') → J v t h') : Tracks n I J h F p (some v) := by
  obtain ⟨t, h', L, hrun, hn, hlive'⟩ := hp h F hlive
  exact ⟨t, h', L, hrun, hn, hlive', hv t h' hrun⟩

/-- **The rule for a loop over a list** each turn of which is tracked. -/
theorem tracks_foldlM {step : σ → γ → Program Arena σ} {next : ν → γ → Option ν} {m : γ → ℕ}
    (cs : List γ) (hstep : ∀ c ∈ cs, ∀ v s h F, J v s h → h.live = I s + F →
      Tracks (m c) I J h F (step s c) (next v c)) (hv : J v s h) (hlive : h.live = I s + F) :
    Tracks (cs.map m).sum I J h F (cs.foldlM step s) (cs.foldlM next v) := by
  induction cs generalizing v s h F with
  | nil => exact ⟨s, h, 0, rfl, rfl, by rw [hlive, add_zero], hv⟩
  | cons c cs ih =>
    rw [List.foldlM_cons, List.foldlM_cons, List.map_cons, List.sum_cons]
    have hc := hstep c List.mem_cons_self v s h F hv hlive
    cases hnext : next v c with
    | none =>
      rw [hnext] at hc
      obtain ⟨h', hrun⟩ := hc
      exact ⟨h', bind_of_none hrun⟩
    | some v' =>
      rw [hnext] at hc
      obtain ⟨s', h', L, hrun, hm, hlive', hv'⟩ := hc
      have hrest := ih (fun d hd => hstep d (List.mem_cons_of_mem _ hd)) hv' (F := L + F)
        (by rw [hlive', add_assoc])
      rw [Option.bind_eq_bind, Option.bind_some]
      cases hloop : cs.foldlM next v' with
      | none =>
        rw [hloop] at hrest
        obtain ⟨h'', hcrash⟩ := hrest
        exact ⟨h'', (bind_of_some hrun).trans hcrash⟩
      | some w =>
        rw [hloop] at hrest
        obtain ⟨t, h'', L', hrun', hsum, hlive'', hw⟩ := hrest
        refine ⟨t, h'', L + L', (bind_of_some hrun).trans hrun', ?_, ?_, hw⟩
        · rw [Multiset.card_add, hm, hsum]
        · rw [hlive'']
          abel

/-- **When a tracked program returns**: if the result exists. -/
theorem Tracks.returns_iff {p : Program Arena σ} {o : Option ν} (hp : Tracks n I J h F p o) :
    (∃ s h', p h = (some s, h')) ↔ o.isSome := by
  cases o with
  | none =>
    obtain ⟨h', hrun⟩ := hp
    simp [hrun]
  | some v =>
    obtain ⟨s, h', -, hrun, -⟩ := hp
    exact iff_of_true ⟨s, h', hrun⟩ rfl

/-- What is left when it returns. -/
theorem Tracks.live {p : Program Arena σ} {o : Option ν} {h' : Arena} (hp : Tracks n I J h F p o)
    (hrun : p h = (some s, h')) :
    (∃ v, J v s h') ∧ ∃ L, L.card = n ∧ h'.live = I s + L + F := by
  cases o with
  | none =>
    obtain ⟨h'', hcrash⟩ := hp
    simp [hcrash] at hrun
  | some v =>
    obtain ⟨t, h'', L, hrun', hcard, hlive, hv⟩ := hp
    obtain ⟨rfl, rfl⟩ : t = s ∧ h'' = h' := by simpa using hrun'.symm.trans hrun
    exact ⟨⟨v, hv⟩, L, hcard, hlive⟩

end Tracks

/-! ## Crashes -/

/-- What is released must be a block. -/
theorem free_crashes {q : Pointer} {h : Arena} (hnull : q ≠ .null)
    (hblock : ∀ b, q = .start b → b ∉ h.live) : free q h = (none, h) := by
  cases q with
  | null => exact absurd rfl hnull
  | start b =>
    rw [free, get_bind, if_neg (hblock b rfl)]
    rfl
  | inside b => rfl
  | wild => rfl

/-- A block can be accessed only while it is allocated. -/
theorem access_crashes {q : Pointer} {h : Arena}
    (hblock : ∀ b, q = .start b ∨ q = .inside b → b ∉ h.live) : access q h = (none, h) := by
  cases q with
  | null => rfl
  | start b =>
    rw [access, get_bind, if_neg (hblock b (.inl rfl))]
    rfl
  | inside b =>
    rw [access, get_bind, if_neg (hblock b (.inr rfl))]
    rfl
  | wild => rfl

end Blocks
