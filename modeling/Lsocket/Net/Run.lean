import Lsocket.Net.Polling
import Lsocket.Lib.System
import Mathlib.Data.List.Range

/-!
# Runs

The runs of a net: the calls of the interface in any order, with any answers of the system, from
`net_create` to `net_free`. Every world that a run reaches represents a net that chains of changes
reach from an empty one (`Reach.abs`), so an invariant of changes holds in every run.
-/

namespace Lsocket

open CInt

variable {σ : Type} {B : Backend σ} {w w' : World σ} {a a' : Abs σ} {i : ℕ} {c : Conn} {op : Op}
variable {rs : List Reply} {v : ℤ}

/-! ## The systems -/

/-- A call that returned. -/
structure Call where
  op : Op
  ret : ℤ

/-- The world, with the answers that the system is going to give. -/
def World.answer (w : World σ) (replies : List Reply) : World σ :=
  { w with os := { w.os with replies } }

/-- A net in use: calls with proper arguments, until the net is gone. -/
def net (B : Backend σ) : System (World σ) Call where
  init w := ∃ max junk, w = netCreate B max junk
  step w l w' := .destroyed ∉ w.log ∧ l.op.Allowed w.net.max ∧
    ∃ replies, l.op.call B (w.answer replies) = (.ok l.ret, w')

/-- An empty net. -/
def Abs.initial (B : Backend σ) (max : ℕ) : Abs σ where
  max
  slot _ := none
  free := List.range max
  np := B.npInit max
  err := 0
  log := []

/-- The same, one change at a time. -/
def changes (B : Backend σ) : System (Abs σ) Call where
  init a := ∃ max, 0 < max ∧ a = Abs.initial B max
  step a l a' := Change B l.op l.ret a a'

/-! ## The start -/

/-- The links of `_alloc_sockets` run through the whole array. -/
theorem linked_allocSockets {max : ℕ} (slots : ℕ → Option Socket) {junk : ℕ → Socket} (k n : ℕ)
    (hk : k + n = max) (hs : ∀ i < max, slots i = some (allocSockets max junk i)) :
    Linked slots Socket.link (if n = 0 then none else some k)
      ((List.range' k n).map fun i => (i, allocSockets max junk i)) := by
  induction n generalizing k with
  | zero => exact .nil none
  | succ n ih =>
    rw [if_neg (Nat.succ_ne_zero n), List.range'_succ, List.map_cons]
    refine .cons (hs k (by omega)) ?_
    have hlink : (allocSockets max junk k).link = if n = 0 then none else some (k + 1) := by
      by_cases hn : n = 0
      · have hlast : k = max - 1 := by omega
        simp [Socket.link, allocSockets, hn, hlast]
      · have hlast : k ≠ max - 1 := by omega
        have hfd : (0 : ℤ) ≤ (k : ℤ) + 1 := by omega
        simp [Socket.link, allocSockets, hn, hlast, hfd]
    rw [hlink]
    exact ih (k + 1) (by omega)

/-- A new net represents the empty one, whatever was in the memory. -/
theorem rep_netCreate (max : ℤ) (junk : ℕ → Socket) :
    Rep B (netCreate B max junk) (Abs.initial B (if max ≤ 0 then 1 else max.toNat)) := by
  obtain ⟨m, hm, hpos⟩ : ∃ m : ℕ, (if max ≤ 0 then 1 else max.toNat) = m ∧ 0 < m := by
    refine ⟨_, rfl, ?_⟩
    split <;> omega
  have hw : netCreate B max junk = ({
      net :=
        { max := m
          err := 0
          sockets := allocSockets m junk
          freeSocket := some 0
          tailSocket := some (m - 1) }
      mem := Heap.empty
      np := B.npInit m
      os := { replies := [], errno := 0 }
      log := [] } : World σ) := by
    unfold netCreate
    rw [hm]
  rw [hw, hm]
  refine Rep.of_lists ((List.range m).map fun i => (i, allocSockets m junk i)) (fun _ => [])
    ⟨?_, ?_⟩ (fun i hi => .empty) ?_ ?_ ?_ (fun _ _ _ => rfl)
    (fun _ _ _ _ _ x hx => absurd hx List.not_mem_nil) ?_ ?_ ?_
  · have := linked_allocSockets (fun i => if i < m then some (allocSockets m junk i) else none) 0 m
      (by omega) fun i hi => if_pos hi
    rwa [if_neg (by omega), ← List.range_eq_range'] at this
  · intro x hx
    rw [List.getLast?_map, List.getLast?_range, if_neg (by omega)] at hx
    obtain rfl : (m - 1, allocSockets m junk (m - 1)) = x := by simpa using hx
    rfl
  · intro i
    rw [List.map_map]
    simp [allocSockets]
  · intro i hi
    simp only [allocSockets]
    split <;> omega
  · rintro i ⟨-, hi⟩
    exact absurd rfl hi
  · exact fun u hu => absurd hu (B.known_init m u)
  · intro i
    exact if_neg fun hl => hl.2 rfl
  · simp [Abs.initial, List.map_map, Function.comp_def]

/-! ## Simulation -/

/-- The answers to come are not part of what is represented. -/
theorem Rep.answer (h : Rep B w a) (replies : List Reply) : Rep B (w.answer replies) a := by
  obtain ⟨h, rfl⟩ := h
  exact Rep.frame ⟨h, rfl⟩ w.np _ w.net.err w.log h.known

/-- A chain of changes is a run of changes. -/
theorem Changes.reach {v : ℤ} (h : Changes B op v a a') (ha : (changes B).Reach a) :
    (changes B).Reach a' := by
  induction h with
  | refl => exact ha
  | tail _ h ih => exact .step ih (l := ⟨op, v⟩) h

/-- A step of a run is a chain of changes. -/
theorem step_changes {l : Call} (h : Rep B w a) (hs : (net B).step w l w') :
    Rep B w' w'.abs ∧ Changes B l.op l.ret a w'.abs := by
  obtain ⟨-, hallowed, replies, hrun⟩ := hs
  obtain ⟨a', ha', hch⟩ :=
    (does_call_changes l.op (h.max_eq ▸ hallowed)).ok (h.answer replies) hrun
  obtain ⟨hinv, rfl⟩ := ha'
  exact ⟨⟨hinv, rfl⟩, hch⟩

/-- Every world that is reached represents a net that is reached. -/
theorem reach_abs (h : (net B).Reach w) : Rep B w w.abs ∧ (changes B).Reach w.abs := by
  induction h with
  | init h =>
    obtain ⟨max, junk, rfl⟩ := h
    have hrep := rep_netCreate (B := B) max junk
    have habs := hrep.2
    refine ⟨habs ▸ hrep, .init ⟨_, ?_, habs⟩⟩
    split <;> omega
  | step _ hs ih =>
    have := step_changes ih.1 hs
    exact ⟨this.1, this.2.reach ih.2⟩

/-- What a send does to a net that is in use. -/
theorem reach_send (h : (net B).Reach w) (hs : op.IsSend) (hop : op.Allowed w.net.max)
    (hrun : op.call B (w.answer rs) = (.ok v, w')) : SendCall B op w.abs rs v w'.abs := by
  obtain ⟨⟨a', rs'⟩, ⟨⟨-, rfl⟩, -⟩, hcall⟩ :=
    (doesWith_send hs hop).ok ⟨(reach_abs h).1.answer rs, rfl⟩ hrun
  exact hcall

/-- In a world that is reached, no call with proper arguments fails an assertion of the library. -/
theorem reach_fault {e : Fault} (h : (net B).Reach w) (hop : op.Allowed w.net.max)
    (replies : List Reply) (he : op.call B (w.answer replies) = (.error e, w')) : e.Outside :=
  (does_call_changes op hop).error ((reach_abs h).1.answer replies) he

/-! ## Runs on given answers -/

/-- The calls one after the other, as long as they return. -/
def exec (B : Backend σ) : List (Op × List Reply) → World σ → Option (World σ)
  | [], w => some w
  | (op, replies) :: calls, w =>
    if .destroyed ∉ w.log ∧ op.Allowed w.net.max then
      match op.call B (w.answer replies) with
      | (.ok _, w') => exec B calls w'
      | (.error _, _) => none
    else none

/-- A run on given answers is a run. -/
theorem reach_exec {calls : List (Op × List Reply)} (h : (net B).Reach w)
    (he : exec B calls w = some w') : (net B).Reach w' := by
  induction calls generalizing w with
  | nil => exact Option.some.inj he ▸ h
  | cons x calls ih =>
    obtain ⟨op, replies⟩ := x
    unfold exec at he
    split at he
    · next hok =>
      rcases hr : op.call B (w.answer replies) with ⟨_ | v, w₁⟩ <;> rw [hr] at he
      · cases he
      · exact ih (.step h (l := ⟨op, v⟩) ⟨hok.1, hok.2, replies, hr⟩) he
    · cases he

/-- The world after one call. -/
def World.next (B : Backend σ) (w : World σ) (op : Op) (replies : List Reply) : World σ :=
  (op.call B (w.answer replies)).2

/-- A call that returns is a step. -/
theorem step_next {v : ℤ} (replies : List Reply) (hlog : .destroyed ∉ w.log)
    (hop : op.Allowed w.net.max) (hv : (op.call B (w.answer replies)).1 = .ok v) :
    (net B).step w ⟨op, v⟩ (w.next B op replies) :=
  ⟨hlog, hop, replies, Prod.ext hv rfl⟩

/-- The world after calls that all return. -/
def World.after (B : Backend σ) (w : World σ) (calls : List (Op × List Reply)) : World σ :=
  (exec B calls w).getD w

/-- Where it ends is reached. -/
theorem reach_after {calls : List (Op × List Reply)} (h : (net B).Reach w)
    (he : (exec B calls w).isSome) : (net B).Reach (w.after B calls) := by
  obtain ⟨w', hw'⟩ := Option.isSome_iff_exists.mp he
  rw [World.after, hw']
  exact reach_exec h hw'

/-- Memory from `malloc` that happens to be zero. -/
def zeroed (_ : ℕ) : Socket where
  fd := 0
  protocol := .tcp
  status := .invalid
  mask := .none
  udata := 0
  head := none
  tail := none
  sbuffersz := 0
  rbuffersz := 0
  slimit := 0
  rlimit := 0

/-- A new net for `max` sockets. -/
def fresh (B : Backend σ) (max : ℤ) : World σ := netCreate B max zeroed

theorem reach_fresh {max : ℤ} {calls : List (Op × List Reply)}
    (h : (exec B calls (fresh B max)).isSome) : (net B).Reach ((fresh B max).after B calls) :=
  reach_after (.init ⟨max, zeroed, rfl⟩) h

end Lsocket
