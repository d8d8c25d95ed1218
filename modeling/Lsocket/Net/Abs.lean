import Lsocket.Net.Model
import Mathlib.Logic.Function.Basic

/-!
# The net without pointers

`Abs` is what the slots and their queues are, read off the memory: a slot is free or holds a
connection (`Conn`) with a list of chunks, and the free slots form a list. `Inv` is what makes this
reading possible: the queues are linked lists that do not share nodes, and the links between free
slots run through exactly the free ones. `Rep` puts both together; the programs are specified by
what they do to the `Abs` that a world represents.
-/

namespace Lsocket

variable {σ : Type}

/-! ## Connections and nets -/

/-- What occupies a slot. -/
structure Conn where
  fd : ℤ
  protocol : Protocol
  status : Status
  mask : Mask
  udata : ℤ
  queue : List Chunk
  sbuffersz : ℤ
  rbuffersz : ℤ
  slimit : ℤ
  rlimit : ℤ
deriving DecidableEq

/-- The fields of a slot, with its queue. -/
def Socket.conn (s : Socket) (queue : List Chunk) : Conn where
  fd := s.fd
  protocol := s.protocol
  status := s.status
  mask := s.mask
  udata := s.udata
  queue := queue
  sbuffersz := s.sbuffersz
  rbuffersz := s.rbuffersz
  slimit := s.slimit
  rlimit := s.rlimit

/-- What `_create_socket` puts into a slot. The read limit is the one that was there. -/
def newConn (fd slimit udata protocol rlimit : ℤ) : Conn where
  fd
  protocol := protocolOf protocol
  status := .suspend
  mask := .none
  udata
  queue := []
  sbuffersz := 0
  rbuffersz := RBUFFER_SZ
  slimit := if slimit ≤ 0 then CInt.INT_MAX else slimit
  rlimit

/-- A net: its slots, the free ones in order, the poller, the last error and the log. -/
structure Abs (σ : Type) where
  max : ℕ
  slot : ℕ → Option Conn
  free : List ℕ
  np : σ
  err : ℤ
  log : List Ev

/-- The log, after the blocks of a queue are freed. -/
def freedLog : List Chunk → List Ev → List Ev
  | [], log => log
  | c :: q, log =>
    match c.begin with
    | some token => freedLog q (.freed token :: log)
    | none => freedLog q log

namespace Abs

theorem eta (a : Abs σ) : ⟨a.max, a.slot, a.free, a.np, a.err, a.log⟩ = a := rfl

variable (a : Abs σ) (i : ℕ)

/-- Change the connection in a slot, or put one there. -/
def set (c : Conn) : Abs σ := { a with slot := Function.update a.slot i (some c) }

/-- Record what happened. -/
def emit (e : Ev) : Abs σ := { a with log := e :: a.log }

def setErr (err : ℤ) : Abs σ := { a with err }

/-- Free the blocks of a queue. -/
def freeData (q : List Chunk) : Abs σ := { a with log := freedLog q a.log }

/-- What closing a descriptor does. -/
def closeFd (B : Backend σ) (fd : ℤ) : Abs σ :=
  { a with np := B.closed fd a.np, log := .released fd :: a.log }

/-- Give the first free slot to a connection. -/
def create (rest : List ℕ) (c : Conn) : Abs σ :=
  { a with
    slot := Function.update a.slot i (some c)
    free := rest
    log := .opened i c.fd c.protocol :: a.log }

/-- The slot is free, behind all others. -/
def remove : Abs σ :=
  { a with slot := Function.update a.slot i none, free := a.free ++ [i] }

/-- Close the connection `c` in slot `i`: its descriptor, unless it is a standard stream, then its
queue. -/
def close (B : Backend σ) (c : Conn) : Abs σ :=
  let a := a.emit (.closed i c.fd c.mask)
  let a := if c.fd > STDERR_FILENO then a.closeFd B c.fd else a
  (a.freeData c.queue).remove i

/-- A free slot is another one than an occupied slot. -/
theorem ne_of_slot {a : Abs σ} {i j : ℕ} {c : Conn} (hn : a.slot j = none) (hc : a.slot i = some c) :
    j ≠ i := by
  rintro rfl
  cases hn.symm.trans hc

@[simp] theorem set_slot_self (c : Conn) : (a.set i c).slot i = some c :=
  Function.update_self ..

@[simp] theorem set_set (c c' : Conn) : (a.set i c).set i c' = a.set i c' := by
  simp [set]

end Abs

/-! ## Reading a world -/

/-- The slot that a free slot links to. -/
def Socket.link (s : Socket) : Option ℕ := if 0 ≤ s.fd then some s.fd.toNat else none

namespace World

variable (w : World σ) (i : ℕ)

/-- The array of sockets, as memory. -/
def slots (i : ℕ) : Option Socket := if i < w.net.max then some (w.net.sockets i) else none

/-- The free slots, in order. -/
def freeSlots : List (ℕ × Socket) :=
  Linked.walk w.slots Socket.link w.net.max w.net.freeSocket

/-- The nodes queued on a slot. -/
def nodes : List (ℕ × SBuffer) :=
  Linked.walk w.mem.cell SBuffer.next w.mem.top (w.net.sockets i).head

/-- The queue is the list of its nodes without their addresses. -/
theorem queue_eq : w.queue i = (w.nodes i).map fun x => x.2.toChunk := rfl

/-- Whether a slot is occupied. -/
def Live : Prop := i < w.net.max ∧ (w.net.sockets i).status ≠ .invalid

instance : Decidable (w.Live i) := inferInstanceAs (Decidable (_ ∧ _))

/-- The net that a world represents. -/
def abs : Abs σ where
  max := w.net.max
  slot i := if w.Live i then some ((w.net.sockets i).conn (w.queue i)) else none
  free := w.freeSlots.map Prod.fst
  np := w.np
  err := w.net.err
  log := w.log

end World

/-- The memory of a net is in order. -/
structure Inv (B : Backend σ) (w : World σ) : Prop where
  free : Queue w.slots Socket.link w.net.freeSocket w.net.tailSocket w.freeSlots
  free_iff : ∀ i, i ∈ w.freeSlots.map Prod.fst ↔ i < w.net.max ∧ (w.net.sockets i).status = .invalid
  free_fd : ∀ i < w.net.max, -1 ≤ (w.net.sockets i).fd
  free_head : ∀ i < w.net.max, (w.net.sockets i).status = .invalid → (w.net.sockets i).head = none
  live_fd : ∀ i, w.Live i → 0 ≤ (w.net.sockets i).fd
  queue : ∀ i < w.net.max, Queue w.mem.cell SBuffer.next (w.net.sockets i).head
    (w.net.sockets i).tail (w.nodes i)
  apart : ∀ i < w.net.max, ∀ j < w.net.max, i ≠ j →
    ∀ x ∈ w.nodes i, ∀ y ∈ w.nodes j, x.1 ≠ y.1
  known : ∀ u, B.known w.np u → u < w.net.max

/-- The world represents the net. -/
def Rep (B : Backend σ) (w : World σ) (a : Abs σ) : Prop := Inv B w ∧ w.abs = a

/-- A program does `Q` to the net `a`. -/
abbrev Does (B : Backend σ) {α : Type} (p : NetM σ α) (a : Abs σ) (Q : α → Abs σ → Prop) : Prop :=
  Prog.Refines (Rep B) Fault.Outside p a Q

end Lsocket
