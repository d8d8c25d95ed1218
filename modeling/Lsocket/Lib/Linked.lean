import Mathlib.Data.Nat.Notation
import Mathlib.Data.List.Nodup
import Mathlib.Data.Finset.Card
import Mathlib.Tactic.Common

/-!
# Heaps and singly linked lists

`Heap β` is a C heap of cells of one type: finitely many addresses hold a cell. `Seg get next p l q`
says that following `next` from the pointer `p` reads exactly the cells `l`, each with its address,
and arrives at the pointer `q`; `Linked` is a segment that ends in the null pointer, and `Queue` a
linked list together with the pointer to its last cell that `push` writes through.

A null-terminated list never repeats an address (`Linked.nodup`), so a walk over it needs no more
steps than the heap has addresses (`Linked.length_le_top`), and writing one of its cells leaves the
rest of it as it was.
-/

/-! ## Heaps -/

/-- A heap of cells of type `β`. No address from `top` on is allocated. -/
structure Heap (β : Type) where
  cell : ℕ → Option β
  top : ℕ
  cell_top : ∀ a, top ≤ a → cell a = none

namespace Heap

variable {β : Type}

/-- The heap with no cell. -/
def empty : Heap β := ⟨fun _ => none, 0, fun _ _ => rfl⟩

/-- Write the cell at `a`, allocating it if it was not. -/
def store (h : Heap β) (a : ℕ) (b : β) : Heap β where
  cell x := if x = a then some b else h.cell x
  top := max h.top (a + 1)
  cell_top x hx := by
    rw [if_neg (by omega)]
    exact h.cell_top x (by omega)

/-- Release the cell at `a`. -/
def free (h : Heap β) (a : ℕ) : Heap β where
  cell x := if x = a then none else h.cell x
  top := h.top
  cell_top x hx := by
    split
    · rfl
    · exact h.cell_top x hx

@[simp] theorem store_cell_self (h : Heap β) (a : ℕ) (b : β) : (h.store a b).cell a = some b :=
  if_pos rfl

theorem store_cell_ne (h : Heap β) {a x : ℕ} (b : β) (hx : x ≠ a) :
    (h.store a b).cell x = h.cell x :=
  if_neg hx

theorem free_cell_ne (h : Heap β) {a x : ℕ} (hx : x ≠ a) : (h.free a).cell x = h.cell x :=
  if_neg hx

end Heap

/-! ## Segments of linked lists -/

section Linked

variable {β : Type}

/-- Following `next` from `p` reads the cells `l` and arrives at `q`. -/
inductive Seg (get : ℕ → Option β) (next : β → Option ℕ) : Option ℕ → List (ℕ × β) → Option ℕ → Prop
  | nil (p : Option ℕ) : Seg get next p [] p
  | cons {a : ℕ} {b : β} {l : List (ℕ × β)} {q : Option ℕ} (ha : get a = some b)
      (hl : Seg get next (next b) l q) : Seg get next (some a) ((a, b) :: l) q

/-- Following `next` from `p` reads the cells `l` and then finds the null pointer. -/
def Linked (get : ℕ → Option β) (next : β → Option ℕ) (p : Option ℕ) (l : List (ℕ × β)) : Prop :=
  Seg get next p l none

variable {get get' : ℕ → Option β} {next : β → Option ℕ}

namespace Seg

variable {p q r : Option ℕ} {l l' : List (ℕ × β)} {a : ℕ} {b : β}

@[simp] theorem nil_iff : Seg get next p [] q ↔ p = q := by
  constructor
  · intro h
    cases h
    rfl
  · rintro rfl
    exact .nil p

@[simp] theorem cons_iff :
    Seg get next p ((a, b) :: l) q ↔ p = some a ∧ get a = some b ∧ Seg get next (next b) l q := by
  constructor
  · intro h
    cases h with
    | cons ha hl => exact ⟨rfl, ha, hl⟩
  · rintro ⟨rfl, ha, hl⟩
    exact .cons ha hl

/-- A segment of two parts meets in the middle. -/
theorem append_iff :
    Seg get next p (l ++ l') r ↔ ∃ q, Seg get next p l q ∧ Seg get next q l' r := by
  induction l generalizing p with
  | nil => simp
  | cons x l ih =>
    obtain ⟨a, b⟩ := x
    simp only [List.cons_append, cons_iff, ih]
    constructor
    · rintro ⟨hp, ha, q, hl, hl'⟩
      exact ⟨q, ⟨hp, ha, hl⟩, hl'⟩
    · rintro ⟨q, ⟨hp, ha, hl⟩, hl'⟩
      exact ⟨hp, ha, q, hl, hl'⟩

/-- Two segments that meet make one. -/
theorem append (h : Seg get next p l q) (h' : Seg get next q l' r) :
    Seg get next p (l ++ l') r :=
  append_iff.mpr ⟨q, h, h'⟩

/-- A segment only depends on the cells it reads. -/
theorem congr (h : Seg get next p l q) (hget : ∀ x ∈ l, get' x.1 = get x.1) :
    Seg get' next p l q := by
  induction h with
  | nil p => exact .nil p
  | cons ha hl ih =>
    refine .cons ?_ (ih fun x hx => hget x (List.mem_cons_of_mem _ hx))
    rw [hget _ List.mem_cons_self, ha]

/-- Every cell of a segment is in the heap. -/
theorem get_of_mem (h : Seg get next p l q) {x : ℕ × β} (hx : x ∈ l) : get x.1 = some x.2 := by
  induction h with
  | nil p => cases hx
  | cons ha hl ih =>
    rcases List.mem_cons.mp hx with rfl | hx
    · exact ha
    · exact ih hx

end Seg

namespace Linked

variable {p : Option ℕ} {l l' : List (ℕ × β)}

/-- From a null pointer there is no node. -/
@[simp] theorem none_iff : Linked get next none l ↔ l = [] := by
  constructor
  · intro h
    cases h
    rfl
  · rintro rfl
    exact .nil none

/-- The list of a null pointer is empty, and only this one. -/
theorem eq_nil_iff (h : Linked get next p l) : l = [] ↔ p = none := by
  cases h with
  | nil => simp
  | cons ha hl => simp

/-- A pointer that is not null points to the first cell of its list. -/
theorem exists_cons {a : ℕ} (h : Linked get next (some a) l) :
    ∃ b l', l = (a, b) :: l' ∧ get a = some b ∧ Linked get next (next b) l' := by
  cases h with
  | cons ha hl => exact ⟨_, _, rfl, ha, hl⟩

/-- A pointer determines its list. -/
theorem unique (h : Linked get next p l) (h' : Linked get next p l') : l = l' := by
  induction l generalizing p l' with
  | nil =>
    obtain rfl := Seg.nil_iff.mp h
    exact (none_iff.mp h').symm
  | cons x l ih =>
    obtain ⟨a, b⟩ := x
    obtain ⟨rfl, ha, hl⟩ := Seg.cons_iff.mp h
    obtain ⟨b', m, rfl, ha', hm⟩ := exists_cons h'
    obtain rfl : b = b' := by rw [ha] at ha'; exact Option.some.inj ha'
    rw [ih hl hm]

/-- The lists from two cells of one list at the same address are the same list. -/
theorem nodup (h : Linked get next p l) : (l.map Prod.fst).Nodup := by
  induction l generalizing p with
  | nil => exact List.nodup_nil
  | cons x l ih =>
    obtain ⟨a, b⟩ := x
    obtain ⟨rfl, ha, hl⟩ := Seg.cons_iff.mp h
    rw [List.map_cons, List.nodup_cons]
    refine ⟨fun hmem => ?_, ih hl⟩
    -- a second visit of `a` would make the list a proper part of itself
    obtain ⟨⟨a', b'⟩, hx, rfl⟩ := List.mem_map.mp hmem
    obtain ⟨l₁, l₂, rfl⟩ := List.append_of_mem hx
    obtain ⟨q, _, hq⟩ := Seg.append_iff.mp hl
    obtain ⟨rfl, _, _⟩ := Seg.cons_iff.mp hq
    have hlen := congrArg List.length (unique h hq)
    simp only [List.length_cons, List.length_append] at hlen
    omega

theorem congr (h : Linked get next p l) (hget : ∀ x ∈ l, get' x.1 = get x.1) :
    Linked get' next p l :=
  Seg.congr h hget

/-- A linked list has no more cells than there are addresses. -/
theorem length_le {n : ℕ} (hl : Linked get next p l) (hn : ∀ a, n ≤ a → get a = none) :
    l.length ≤ n := by
  have hsub : (l.map Prod.fst).toFinset ⊆ Finset.range n := by
    intro a ha
    obtain ⟨x, hx, rfl⟩ := List.mem_map.mp (List.mem_toFinset.mp ha)
    refine Finset.mem_range.mpr (not_le.mp fun hle => ?_)
    have hget := Seg.get_of_mem hl hx
    rw [hn _ hle] at hget
    cases hget
  have hcard := Finset.card_le_card hsub
  rwa [List.toFinset_card_of_nodup hl.nodup, Finset.card_range, List.length_map] at hcard

/-- A list on a heap is no longer than the heap is high. -/
theorem length_le_top {h : Heap β} (hl : Linked h.cell next p l) : l.length ≤ h.top :=
  hl.length_le h.cell_top

/-- The cells found by following `next` from `p` for at most `fuel` steps. -/
def walk (get : ℕ → Option β) (next : β → Option ℕ) : ℕ → Option ℕ → List (ℕ × β)
  | 0, _ => []
  | _ + 1, none => []
  | fuel + 1, some a =>
    match get a with
    | none => []
    | some b => (a, b) :: walk get next fuel (next b)

/-- Enough steps of a walk find exactly the list. -/
theorem walk_eq {fuel : ℕ} (h : Linked get next p l) (hf : l.length ≤ fuel) :
    walk get next fuel p = l := by
  induction fuel generalizing p l with
  | zero => exact (List.length_eq_zero_iff.mp (Nat.le_zero.mp hf)).symm
  | succ fuel ih =>
    cases h with
    | nil => rfl
    | cons ha hl =>
      simp only [List.length_cons] at hf
      simp only [walk, ha, ih hl (by omega)]

end Linked

/-! ## Queues: a linked list and the pointer to its last cell -/

/-- The list from `head` holds the cells `l`, and `tail` points to the last of them. Of an empty
list the tail pointer says nothing: it may dangle. -/
structure Queue (get : ℕ → Option β) (next : β → Option ℕ) (head tail : Option ℕ)
    (l : List (ℕ × β)) : Prop where
  linked : Linked get next head l
  tail_eq : ∀ x ∈ l.getLast?, tail = some x.1

namespace Queue

variable {head tail : Option ℕ} {l : List (ℕ × β)} {a t : ℕ} {b b' : β}

theorem empty : Queue get next none tail [] :=
  ⟨.nil none, by simp⟩

/-- A queue of one node, which is head and tail. -/
theorem singleton (ha : get a = some b) (hb : next b = none) :
    Queue get next (some a) (some a) [(a, b)] :=
  ⟨.cons ha (Seg.nil_iff.mpr hb), by simp⟩

/-- A queue only depends on the cells it holds. -/
theorem congr (h : Queue get next head tail l) (hget : ∀ x ∈ l, get' x.1 = get x.1) :
    Queue get' next head tail l :=
  ⟨h.linked.congr hget, h.tail_eq⟩

/-- Dropping the first cell leaves the rest. -/
theorem pop (h : Queue get next head tail ((a, b) :: l)) : Queue get next (next b) tail l := by
  refine ⟨(Seg.cons_iff.mp h.linked).2.2, fun x hx => h.tail_eq x ?_⟩
  cases l with
  | nil => simp at hx
  | cons y l => simpa using hx

/-- The last cell of a queue that is not empty: what the tail pointer points to. -/
theorem exists_tail (h : Queue get next head tail l) (hl : l ≠ []) :
    ∃ m t b, l = m ++ [(t, b)] ∧ tail = some t ∧ get t = some b ∧ next b = none := by
  obtain ⟨m, ⟨t, b⟩, rfl⟩ := List.eq_nil_or_concat l |>.resolve_left hl
  rw [List.concat_eq_append] at h
  obtain ⟨q, _, hq⟩ := Seg.append_iff.mp h.linked
  obtain ⟨rfl, ht, hn⟩ := Seg.cons_iff.mp hq
  refine ⟨m, t, b, by simp, h.tail_eq (t, b) (by simp), ht, Seg.nil_iff.mp hn⟩

/-- Writing the new cell and the link to it appends the cell. -/
theorem push {c d : β} (h : Queue get next head tail (l ++ [(t, b)]))
    (hold : ∀ x ∈ l, get' x.1 = get x.1) (ht : get' t = some d) (hd : next d = some a)
    (ha : get' a = some c) (hc : next c = none) :
    Queue get' next head (some a) (l ++ [(t, d), (a, c)]) := by
  obtain ⟨q, hq, ht'⟩ := Seg.append_iff.mp h.linked
  obtain ⟨rfl, _, _⟩ := Seg.cons_iff.mp ht'
  refine ⟨(hq.congr hold).append (.cons ht ?_), by simp⟩
  rw [hd]
  exact .cons ha (Seg.nil_iff.mpr hc)

end Queue

end Linked
