import Lsocket.Buffer.Detach
import Lsocket.Lib.Upholds

/-!
# The memory of a buffer

The nodes of a buffer are malloc'ed by `lpush` and freed by `freebuffer` and `lfree`. In every run they
are exactly those on the list from `head` to `tail`, also after a `detach` that leaves an offset behind
the end of its node, and after a `lfree` that Lua code calls before the collector does: no node is lost,
none is on the list after it was freed, and every loop over the list ends.
-/

namespace Lsocket.Buffer

open Prog CInt

variable {b b' : Buf} {mem : Heap BufferNode} {l : List (ℕ × BufferNode)} {a : ℕ} {nd : BufferNode}
variable {p node : Option ℕ} {fuel : ℕ} {stop : ℤ}

/-! ## Ownership -/

/-- The nodes on the list are the ones allocated, and `tail` is the last of them. -/
structure Owns (b : Buf) : Prop where
  queue : Queue b.mem.cell BufferNode.next b.sb.head b.sb.tail (nodes b)
  mem_nodes : ∀ a, b.mem.cell a ≠ none → a ∈ (nodes b).map Prod.fst

/-- The fault is not a loop that does not end. -/
def Fault.Ends (e : Fault) : Prop := e ≠ .spin

namespace Fault

end Fault

/-- A program keeps the nodes in order, also where it stops with a fault. -/
abbrev Tidy {α : Type} (p : BufM α) : Prop := Upholds Owns Fault.Ends p

namespace Owns

/-- The nodes are known from any list that is linked from `head` to `tail`. -/
theorem of_queue (hq : Queue b.mem.cell BufferNode.next b.sb.head b.sb.tail l)
    (h : ∀ a, b.mem.cell a ≠ none → a ∈ l.map Prod.fst) : Owns b := by
  obtain rfl := nodes_eq hq.linked
  exact ⟨hq, h⟩

/-- A new buffer owns nothing. -/
theorem lnew : Owns lnew := .of_queue .empty fun _ h => absurd rfl h

/-- The head is freed, and the list goes on behind it. -/
theorem pop (h : Owns b) (hl : nodes b = (a, nd) :: l) (b' : Buf) (hmem : b'.mem = b.mem.free a)
    (hhead : b'.sb.head = nd.next) (htail : b'.sb.tail = b.sb.tail) : Owns b' ∧ nodes b' = l := by
  have hq := h.queue
  rw [hl] at hq
  have hnodup := hq.linked.nodup
  rw [List.map_cons, List.nodup_cons] at hnodup
  have hq' : Queue b'.mem.cell BufferNode.next b'.sb.head b'.sb.tail l := by
    rw [hmem, hhead, htail]
    exact hq.pop.congr fun x hx => Heap.free_cell_ne _ fun hxa =>
      hnodup.1 (List.mem_map.mpr ⟨x, hx, hxa⟩)
  refine ⟨.of_queue hq' fun x hx => ?_, nodes_eq hq'.linked⟩
  rw [hmem] at hx
  have hxa : x ≠ a := by
    rintro rfl
    exact hx (if_pos rfl)
  rw [Heap.free_cell_ne _ hxa] at hx
  have hmem' := h.mem_nodes x hx
  rw [hl, List.map_cons] at hmem'
  exact (List.mem_cons.mp hmem').resolve_left hxa

end Owns

/-! ## Loops that read -/

/-- A computation that goes on with the value of another one. -/
theorem ends_bind {α β : Type} {x : Except Fault α} {f : α → Except Fault β} {e : Fault}
    (hx : ∀ e, x = .error e → e.Ends) (hf : ∀ v, x = .ok v → f v = .error e → e.Ends)
    (h : x >>= f = .error e) : e.Ends := by
  cases x with
  | error e' =>
    obtain rfl : e' = e := Except.error.inj h
    exact hx _ rfl
  | ok v => exact hf v rfl h

/-- Calls of `memcmp` leave the buffer as it is. -/
abbrev Looks {α : Type} (mem : Heap BufferNode) (p : BufM α) : Prop :=
  Upholds (fun b => Owns b ∧ b.mem = mem) Fault.Ends p

/-- A look at the buffer comes first. -/
theorem Looks.at {α : Type} {r : BufM α} (h : Looks b.mem r) (hb : Owns b) :
    UpholdsAt Owns Fault.Ends r b :=
  .of_stronger ⟨hb, rfl⟩ h fun _ ht => ht.1

/-- What Lua code can call on a buffer: the finalizer, too, which it finds in the metatable. -/
inductive Use
  | call (op : Op)
  | detach
  | free

namespace Use

/-- The function called. -/
def run : Use → BufM LuaValue
  | .call op => op.call
  | .detach => ldetach
  | .free => do
    lfree
    pure .nil

/-- `malloc` returns an address that is not in use. -/
def Fresh (b : Buf) : Use → Prop
  | .call (.push a _ _) => b.mem.cell a = none
  | _ => True

end Use

/-- All uses of a buffer made by `lnew`. A Lua error can be caught. -/
def uses : System Buf Use where
  init b := b = lnew
  step b u b' := u.Fresh b ∧ ((∃ v, u.run b = (.ok v, b')) ∨ u.run b = (.error .luaError, b'))

end Lsocket.Buffer
