import Mathlib.Data.List.Nodup
import Mathlib.Logic.Function.Basic

/-!
# Doubly linked lists in a memory

A memory is a partial map from addresses to nodes; `none` is an address that is not allocated. A
list is named by its addresses: `Chain mem p as` says that the nodes at `as` are linked in that
order, forwards through `next` and backwards through `prev`, that the first one points back to
`p`, and that the last one points nowhere. What the nodes hold is read off with `values`.

Only what happens at the end of a list is developed here: walking to it, linking a node behind
it, and removing the last node.
-/

namespace Linked

variable {α : Type*}

/-- A node of a doubly linked list. -/
structure Node (α : Type*) where
  /-- What the node holds. -/
  value : α
  /-- The address of the next node. -/
  next : Option ℕ
  /-- The address of the node before. -/
  prev : Option ℕ
  deriving DecidableEq

/-- A memory of nodes. -/
abbrev Memory (α : Type*) := ℕ → Option (Node α)

variable {mem mem' : Memory α} {p : Option ℕ} {a b c : ℕ} {as bs : List ℕ}

/-- The nodes at `as` are linked in that order behind `p`. -/
def Chain (mem : Memory α) : Option ℕ → List ℕ → Prop
  | _, [] => True
  | p, a :: as => (∃ v, mem a = some ⟨v, as.head?, p⟩) ∧ Chain mem (some a) as

/-- What the nodes at `as` hold. -/
def values (mem : Memory α) (as : List ℕ) : List α := as.filterMap fun a => (mem a).map Node.value

/-- The last address of `as`, or `p` when there is none. -/
def lastOr (p : Option ℕ) (as : List ℕ) : Option ℕ := as.getLast?.or p

@[simp] theorem lastOr_nil (p : Option ℕ) : lastOr p [] = p := rfl

@[simp] theorem lastOr_concat (p : Option ℕ) (as : List ℕ) (a : ℕ) :
    lastOr p (as ++ [a]) = some a := by simp [lastOr]

theorem lastOr_cons (p : Option ℕ) (as : List ℕ) (a : ℕ) :
    lastOr p (a :: as) = lastOr (some a) as := by
  rcases List.eq_nil_or_concat' as with rfl | ⟨bs, b, rfl⟩
  · rfl
  · rw [← List.cons_append, lastOr_concat, lastOr_concat]

/-- A chain depends on the nodes at its addresses only. -/
theorem Chain.congr (h : Chain mem p as) (heq : ∀ a ∈ as, mem a = mem' a) : Chain mem' p as := by
  induction as generalizing p with
  | nil => trivial
  | cons a as ih =>
    exact ⟨heq a List.mem_cons_self ▸ h.1,
      ih h.2 fun b hb => heq b (List.mem_cons_of_mem _ hb)⟩

theorem Chain.exists_node (h : Chain mem p as) (ha : a ∈ as) : ∃ n, mem a = some n := by
  induction as generalizing p with
  | nil => simp at ha
  | cons b as ih =>
    rcases List.mem_cons.mp ha with rfl | ha
    · obtain ⟨v, hv⟩ := h.1
      exact ⟨_, hv⟩
    · exact ih h.2 ha

/-- **Walking.** From a node of the chain, `next` leads to the one behind it. -/
theorem Chain.next (h : Chain mem p (bs ++ a :: as)) : ∃ n, mem a = some n ∧ n.next = as.head? := by
  induction bs generalizing p with
  | nil =>
    obtain ⟨v, hv⟩ := h.1
    exact ⟨_, hv, rfl⟩
  | cons b bs ih => exact ih h.2

/-- Every node of the chain points back to the one before it. -/
theorem Chain.prev (h : Chain mem p (bs ++ a :: as)) :
    ∃ n, mem a = some n ∧ n.prev = lastOr p bs := by
  induction bs generalizing p with
  | nil =>
    obtain ⟨v, hv⟩ := h.1
    exact ⟨_, hv, rfl⟩
  | cons b bs ih =>
    rw [lastOr_cons]
    exact ih h.2

/-- **`prev` is the inverse of `next`** along a chain that begins at its first node. -/
theorem Chain.next_eq_iff_prev_eq (h : Chain mem none as) (ha : a ∈ as) (hb : b ∈ as) :
    (mem a).map Node.next = some (some b) ↔ (mem b).map Node.prev = some (some a) := by
  constructor
  · intro hnext
    obtain ⟨bs, cs, rfl⟩ := List.append_of_mem ha
    obtain ⟨n, hn, hnext'⟩ := h.next
    rw [hn, Option.map_some, Option.some.injEq, hnext'] at hnext
    obtain ⟨ds, rfl⟩ := List.head?_eq_some_iff.mp hnext
    rw [List.append_cons] at h
    have hback : ∃ m, mem b = some m ∧ m.prev = lastOr none (bs ++ [a]) := h.prev
    obtain ⟨m, hm, hprev⟩ := hback
    rw [hm, Option.map_some, hprev, lastOr_concat]
  · intro hprev
    obtain ⟨bs, cs, rfl⟩ := List.append_of_mem hb
    obtain ⟨m, hm, hprev'⟩ := h.prev
    rw [hm, Option.map_some, Option.some.injEq, hprev'] at hprev
    rcases List.eq_nil_or_concat' bs with rfl | ⟨ds, c, rfl⟩
    · cases hprev
    · rw [lastOr_concat, Option.some.injEq] at hprev
      subst hprev
      rw [List.append_assoc] at h
      have hforth : ∃ n, mem c = some n ∧ n.next = some b := h.next
      obtain ⟨n, hn, hnext⟩ := hforth
      rw [hn, Option.map_some, hnext]

/-- The last node of a chain. -/
theorem Chain.last (h : Chain mem p (bs ++ [a])) : ∃ v, mem a = some ⟨v, none, lastOr p bs⟩ := by
  induction bs generalizing p with
  | nil => exact h.1
  | cons b bs ih =>
    rw [lastOr_cons]
    exact ih h.2

/-- `next` leads from a pointer to the node at an address. -/
inductive Reaches (mem : Memory α) : Option ℕ → ℕ → Prop
  /-- The pointer is the address. -/
  | here {a : ℕ} : Reaches mem (some a) a
  /-- The node that the pointer points to leads there. -/
  | next {a b : ℕ} {n : Node α} (hn : mem a = some n) (h : Reaches mem n.next b) :
      Reaches mem (some a) b

/-- **What is reachable** from the start of a chain are its nodes. -/
theorem Chain.reaches_iff (h : Chain mem p as) : Reaches mem as.head? a ↔ a ∈ as := by
  induction as generalizing p with
  | nil =>
    refine iff_of_false ?_ List.not_mem_nil
    intro hr
    cases hr
  | cons b as ih =>
    obtain ⟨⟨v, hv⟩, hrest⟩ := h
    rw [List.mem_cons, ← ih hrest]
    constructor
    · rintro (_ | ⟨hn, hr⟩)
      · exact .inl rfl
      · rw [hv] at hn
        cases hn
        exact .inr hr
    · rintro (rfl | hr)
      · exact .here
      · exact .next hv hr

theorem mem_values_iff {v : α} :
    v ∈ values mem as ↔ ∃ a ∈ as, ∃ n, mem a = some n ∧ n.value = v := by
  simp [values]

theorem values_congr (heq : ∀ a ∈ as, (mem a).map Node.value = (mem' a).map Node.value) :
    values mem as = values mem' as := by
  rw [values, values]
  exact List.filterMap_congr heq

theorem values_append (mem : Memory α) (as bs : List ℕ) :
    values mem (as ++ bs) = values mem as ++ values mem bs := by simp [values]

theorem values_singleton {n : Node α} (h : mem a = some n) : values mem [a] = [n.value] := by
  simp [values, h]

theorem Chain.length_values (h : Chain mem p as) : (values mem as).length = as.length := by
  induction as generalizing p with
  | nil => rfl
  | cons a as ih =>
    obtain ⟨v, hv⟩ := h.1
    rw [← List.singleton_append, values_append, values_singleton hv]
    simp [ih h.2]

/-! ## Linking a node behind the last one -/

/-- The memory after a node that holds `v` has been linked at `b` behind the node at `a`. -/
def link (mem : Memory α) (a b : ℕ) (v : α) : Memory α :=
  Function.update (Function.update mem b (some ⟨v, none, some a⟩)) a
    ((mem a).map fun n => { n with next := some b })

theorem link_of_ne {v : α} (ha : c ≠ a) (hb : c ≠ b) : link mem a b v c = mem c := by
  rw [link, Function.update_of_ne ha, Function.update_of_ne hb]

theorem link_self {v : α} : link mem a b v a = (mem a).map fun n => { n with next := some b } := by
  rw [link, Function.update_self]

theorem link_new {v : α} (h : b ≠ a) : link mem a b v b = some ⟨v, none, some a⟩ := by
  rw [link, Function.update_of_ne h, Function.update_self]

theorem isSome_link {v : α} (h : b ≠ a) : (link mem a b v c).isSome ↔ (mem c).isSome ∨ c = b := by
  rcases eq_or_ne c a with rfl | hca
  · simp [link_self, h.symm]
  · rcases eq_or_ne c b with rfl | hcb
    · simp [link_new h]
    · simp [link_of_ne hca hcb, hcb]

theorem Chain.link {v : α} (h : Chain mem p (bs ++ [a])) (hnd : (bs ++ [a]).Nodup)
    (hb : b ∉ bs ++ [a]) : Chain (link mem a b v) p (bs ++ [a, b]) := by
  have hba : b ≠ a := fun he => hb (by simp [he])
  induction bs generalizing p with
  | nil =>
    obtain ⟨w, hw⟩ := h.1
    exact ⟨⟨w, by rw [link_self, hw]; rfl⟩, ⟨v, link_new hba⟩, trivial⟩
  | cons c bs ih =>
    obtain ⟨⟨w, hw⟩, hrest⟩ := h
    have hc : c ≠ a ∧ c ≠ b := by
      constructor
      · rintro rfl; simp at hnd
      · rintro rfl; simp at hb
    refine ⟨⟨w, ?_⟩, ih hrest hnd.of_cons fun hm => hb (List.mem_cons_of_mem _ hm)⟩
    rw [link_of_ne hc.1 hc.2, hw]
    cases bs <;> rfl

theorem values_link {v : α} (h : Chain mem p (bs ++ [a])) (hb : b ∉ bs ++ [a]) :
    values (Linked.link mem a b v) (bs ++ [a, b]) = values mem (bs ++ [a]) ++ [v] := by
  have hba : b ≠ a := fun he => hb (by simp [he])
  rw [show bs ++ [a, b] = (bs ++ [a]) ++ [b] by simp, values_append,
    values_singleton (link_new hba)]
  congr 1
  refine values_congr ?_
  intro c hc
  rcases eq_or_ne c a with rfl | hca
  · rw [link_self, Option.map_map]
    rfl
  · have hcb : c ≠ b := fun he => hb (he ▸ hc)
    rw [link_of_ne hca hcb]

/-! ## Removing the last node -/

/-- The memory after the node at `b`, the last one, has been cut off from the node at `a` and
freed. -/
def cut (mem : Memory α) (a b : ℕ) : Memory α :=
  Function.update (Function.update mem b none) a ((mem a).map fun n => { n with next := none })

theorem cut_of_ne (ha : c ≠ a) (hb : c ≠ b) : cut mem a b c = mem c := by
  rw [cut, Function.update_of_ne ha, Function.update_of_ne hb]

theorem cut_self : cut mem a b a = (mem a).map fun n => { n with next := none } := by
  rw [cut, Function.update_self]

theorem isSome_cut (h : b ≠ a) : (cut mem a b c).isSome ↔ (mem c).isSome ∧ c ≠ b := by
  rcases eq_or_ne c a with rfl | hca
  · simp [cut_self, h.symm]
  · rcases eq_or_ne c b with rfl | hcb
    · simp [cut, Function.update_of_ne hca]
    · simp [cut_of_ne hca hcb, hcb]

theorem Chain.cut (h : Chain mem p (bs ++ [a, b])) (hnd : (bs ++ [a, b]).Nodup) :
    Chain (cut mem a b) p (bs ++ [a]) := by
  induction bs generalizing p with
  | nil =>
    obtain ⟨w, hw⟩ := h.1
    exact ⟨⟨w, by rw [cut_self, hw]; rfl⟩, trivial⟩
  | cons c bs ih =>
    obtain ⟨⟨w, hw⟩, hrest⟩ := h
    have hc : c ≠ a ∧ c ≠ b := by
      constructor <;> · rintro rfl; simp at hnd
    refine ⟨⟨w, ?_⟩, ih hrest hnd.of_cons⟩
    rw [cut_of_ne hc.1 hc.2, hw]
    cases bs <;> rfl

theorem values_cut (hnd : (bs ++ [a, b]).Nodup) :
    values (Linked.cut mem a b) (bs ++ [a]) = values mem (bs ++ [a]) := by
  refine values_congr ?_
  intro c hc
  rcases eq_or_ne c a with rfl | hca
  · rw [cut_self, Option.map_map]
    rfl
  · have hcb : c ≠ b := by
      rintro rfl
      have hmem : c ∈ bs := by simpa [hca] using hc
      have := List.nodup_append.mp hnd
      exact this.2.2 c hmem c (by simp) rfl
    rw [cut_of_ne hca hcb]

end Linked
