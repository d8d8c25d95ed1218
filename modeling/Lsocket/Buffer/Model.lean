import Lsocket.Lib.CInt
import Lsocket.Lib.Linked
import Lsocket.Lib.Prog

/-!
# The socket buffer

`lsocketbuffer.c`: a queue of malloc'ed blocks from which Lua code pops bytes, by number or up to a
separator. Nodes live in a heap and are reached through pointers, as in the source; the loops over
the node list carry a bound on their number of steps, the number of addresses of the heap, which a
null-terminated list cannot exceed.

A Lua string is read in C through a pointer: `LuaString.mem` is what lies in memory from there on.
-/

namespace Lsocket.Buffer

open CInt

/-- How a C function of the buffer can fail to return. -/
inductive Fault
  /-- An `assert` of the source is false. -/
  | assert
  /-- A null or dangling pointer is followed, or a block is read outside its bounds. -/
  | wild
  /-- A Lua error is raised. -/
  | luaError
  /-- A loop over the nodes does not end. -/
  | spin
deriving DecidableEq, Repr

/-- `struct buffer_node`; `p` holds the bytes of the block that the pointer points to. -/
structure BufferNode where
  p : List UInt8
  sz : ℤ
  next : Option ℕ
deriving DecidableEq, Repr

/-- `struct socket_buffer`. -/
structure SocketBuffer where
  size : ℤ
  offset : ℤ
  head : Option ℕ
  tail : Option ℕ
deriving DecidableEq, Repr

/-- One call `memcmp(node->p+offset, sep+start, len)`, and how many bytes of `sep` a comparison
byte by byte looks at before it knows the answer. -/
structure Cmp where
  start : ℤ
  len : ℤ
  looked : ℤ
deriving DecidableEq, Repr

/-- The buffer, the heap of its nodes, and (ghost) the calls of `memcmp` made so far. -/
structure Buf where
  sb : SocketBuffer
  mem : Heap BufferNode
  cmps : List Cmp

/-- A Lua string as C sees it: its bytes, and what the memory from its first byte on holds. Lua
puts a zero byte behind the last one; nothing is known of the memory after that. -/
structure LuaString where
  bytes : List UInt8
  mem : ℕ → UInt8
  mem_lt : ∀ i (h : i < bytes.length), mem i = bytes[i]
  mem_length : mem bytes.length = 0

/-- A value handed to Lua. `block` is a light userdata followed by its size. -/
inductive LuaValue
  | nil
  | true
  | integer (n : ℤ)
  | string (bytes : List UInt8)
  | block (bytes : List UInt8) (n : ℤ)
deriving DecidableEq, Repr

/-- The optional second argument of `pop`, by its Lua type. -/
inductive PopArg
  | none
  | string (s : LuaString)
  | number (n : ℤ)
  | other

abbrev BufM : Type → Type := Prog Fault Buf

/-! ## Memory -/

/-- Follow a node pointer. -/
def deref (mem : Heap BufferNode) (p : Option ℕ) : Except Fault BufferNode :=
  match p.bind mem.cell with
  | some node => .ok node
  | none => .error .wild

def load (p : Option ℕ) : BufM BufferNode := do
  Prog.demand (p.bind (← Prog.read Buf.mem).cell) .wild

/-- Change fields of the buffer. -/
def setBuf (f : SocketBuffer → SocketBuffer) : BufM Unit :=
  Prog.write fun b => { b with sb := f b.sb }

/-- Write a node, allocated by `malloc` or already there. -/
def store (a : ℕ) (node : BufferNode) : BufM Unit :=
  Prog.write fun b => { b with mem := b.mem.store a node }

/-- `free` a node (and the block it holds). -/
def release (a : ℕ) : BufM Unit :=
  Prog.write fun b => { b with mem := b.mem.free a }

/-- `luaL_addlstring(&b, p+offset, len)`: the bytes it copies. A negative `len` becomes a huge
`size_t`, for which the Lua buffer raises an error. -/
def addlstring (p : List UInt8) (offset len : ℤ) : Except Fault (List UInt8) :=
  if len < 0 then .error .luaError
  else if offset < 0 ∨ p.length < offset + len then .error .wild
  else .ok ((p.drop offset.toNat).take len.toNat)

/-- How many leading bytes of `xs` agree with the memory from `start` on -/
def agree (mem : ℕ → UInt8) : ℕ → List UInt8 → ℕ
  | _, [] => 0
  | start, x :: xs => if x = mem start then agree mem (start + 1) xs + 1 else 0

/-- `memcmp(p+offset, sep+start, len)`: whether the bytes are equal, and the record of the call. -/
def memcmp (p : List UInt8) (offset : ℤ) (mem : ℕ → UInt8) (start len : ℤ) :
    Except Fault (Bool × Cmp) :=
  if len < 0 ∨ offset < 0 ∨ p.length < offset + len then .error .wild
  else
    let xs := (p.drop offset.toNat).take len.toNat
    let k := agree mem start.toNat xs
    .ok (k = xs.length, { start, len, looked := min (k + 1) len })

/-! ## The functions of the source -/

/-- `lnew`: a new buffer. -/
def lnew : Buf where
  sb := { size := 0, offset := 0, head := none, tail := none }
  mem := Heap.empty
  cmps := []

/-- The loop of `lfree`. -/
def lfreeLoop : ℕ → BufM Unit
  | 0 => Prog.fault .spin
  | fuel + 1 => do
    let sb ← Prog.read Buf.sb
    match sb.head with
    | none => pure ()
    | some a => do
      let node ← load (some a)
      release a
      setBuf fun sb => { sb with head := node.next }
      lfreeLoop fuel

/-- `lfree`: free all nodes. -/
def lfree : BufM Unit := do
  let b ← Prog.read id
  lfreeLoop (b.mem.top + 1)

/-- The part of `lpush` that links in the node at `a`. -/
def linkNode (a : ℕ) : BufM Unit := do
  let sb ← Prog.read Buf.sb
  if sb.head = none then
    setBuf fun sb => { sb with head := some a, tail := some a }
  else
    let t ← Prog.demand sb.tail .assert
    let last ← load (some t)
    store t { last with next := some a }
    setBuf fun sb => { sb with tail := some a }

/-- `lpush`: `p` is the block that the light userdata points to, `a` the address that
`malloc(sizeof(*node))` returns. -/
def lpush (a : ℕ) (p : Option (List UInt8)) (n : ℤ) : BufM LuaValue := do
  let sz := wrap n
  match p with
  | none => pure .nil
  | some p =>
    if sz ≤ 0 then pure .nil
    else
      store a { p, sz, next := none }
      linkNode a
      setBuf fun sb => { sb with size := wrap (sb.size + sz) }
      let sb ← Prog.read Buf.sb
      pure (.integer sb.size)

/-- The loop of `pushpack`, from `current` on. -/
def pushpackLoop (mem : Heap BufferNode) (node : Option ℕ) (stop : ℤ) :
    ℕ → Option ℕ → ℤ → Except Fault (List UInt8)
  | 0, _, _ => .error .spin
  | fuel + 1, current, offset =>
    if current ≠ node then do
      let c ← deref mem current
      let bs ← addlstring c.p offset (c.sz - offset)
      let rest ← pushpackLoop mem node stop fuel c.next 0
      pure (bs ++ rest)
    else do
      let c ← deref mem current
      addlstring c.p offset (stop - offset)

/-- `pushpack`: the unread bytes up to index `stop` of `node`. -/
def pushpack (node : Option ℕ) (stop : ℤ) : BufM (List UInt8) := do
  let b ← Prog.read id
  Prog.lift (pushpackLoop b.mem node stop (b.mem.top + 1) b.sb.head b.sb.offset)

/-- The loop of `freebuffer`. -/
def freebufferLoop (node : Option ℕ) (stop : ℤ) : ℕ → BufM Unit
  | 0 => Prog.fault .spin
  | fuel + 1 => do
    let sb ← Prog.read Buf.sb
    let a ← Prog.demand sb.head .wild
    let tmp ← load (some a)
    if sb.head = node then
      if tmp.sz = stop then
        setBuf fun sb => { sb with head := tmp.next, size := wrap (sb.size - tmp.sz), offset := 0 }
        release a
      else
        setBuf fun sb => { sb with size := wrap (sb.size - stop), offset := stop }
    else
      setBuf fun sb => { sb with head := tmp.next, size := wrap (sb.size - tmp.sz) }
      release a
      freebufferLoop node stop fuel

/-- `freebuffer`: drop everything before index `stop` of `node`. -/
def freebuffer (node : Option ℕ) (stop : ℤ) : BufM Unit := do
  setBuf fun sb => { sb with size := wrap (sb.size + sb.offset) }
  let b ← Prog.read id
  freebufferLoop node stop (b.mem.top + 1)

/-- The loop of `checksep`, with `n` bytes compared so far: the node and index where the separator
ends, if it starts here, and the calls of `memcmp` made. -/
def checksepLoop (mem : Heap BufferNode) (sep : ℕ → UInt8) (l : ℤ) :
    ℕ → ℕ → ℤ → ℤ → Except Fault (Option (ℕ × ℤ) × List Cmp)
  | 0, _, _, _ => .error .spin
  | fuel + 1, node, offset, n => do
    let nd ← deref mem (some node)
    let sz := if nd.sz - offset > l then l else nd.sz - offset
    let (same, c) ← memcmp nd.p offset sep n sz
    if same then
      if n + sz ≥ l then pure (some (node, offset + sz), [c])
      else
        match nd.next with
        | some next => do
          let (r, cs) ← checksepLoop mem sep l fuel next 0 (n + sz)
          pure (r, c :: cs)
        | none => pure (none, [c])
    else pure (none, [c])

/-- `checksep`. -/
def checksep (node : ℕ) (offset : ℤ) (sep : ℕ → UInt8) (l : ℤ) : BufM (Option (ℕ × ℤ)) := do
  let b ← Prog.read id
  let (r, cs) ← Prog.lift (checksepLoop b.mem sep l (b.mem.top + 1) node offset 0)
  Prog.write fun b => { b with cmps := b.cmps ++ cs }
  pure r

/-- The inner `for` of `readsep` and `lfindsep`: try the separator at `k` positions of the node at
`current`, from index `i` on. -/
def scanNode (current : ℕ) (sep : ℕ → UInt8) (l : ℤ) : ℕ → ℤ → BufM (Option (ℤ × ℕ × ℤ))
  | 0, _ => pure none
  | k + 1, i => do
    match ← checksep current i sep l with
    | some (node, stop) => pure (some (i, node, stop))
    | none => scanNode current sep l k (i + 1)

/-- The loops of `readsep` and `lfindsep`: the first node and index where `checksep` succeeds, and
the node and index it reports. -/
def scanLoop (sep : ℕ → UInt8) (l : ℤ) :
    ℕ → Option ℕ → ℤ → BufM (Option (ℕ × ℤ × ℕ × ℤ))
  | 0, _, _ => Prog.fault .spin
  | _ + 1, none, _ => pure none
  | fuel + 1, some current, offset => do
    let nd ← load (some current)
    match ← scanNode current sep l (nd.sz - offset).toNat offset with
    | some (i, node, stop) => pure (some (current, i, node, stop))
    | none => scanLoop sep l fuel nd.next 0

/-- `readsep`. -/
def readsep (sep : ℕ → UInt8) (l : ℤ) : BufM LuaValue := do
  let b ← Prog.read id
  match ← scanLoop sep l (b.mem.top + 1) b.sb.head b.sb.offset with
  | some (current, i, node, stop) => do
    let bs ← pushpack (some current) i
    freebuffer (some node) stop
    pure (.string bs)
  | none => pure .nil

/-- `readall`. -/
def readall : BufM LuaValue := do
  let sb ← Prog.read Buf.sb
  if sb.head = none then pure .nil
  else
    let node ← load sb.tail
    let bs ← pushpack sb.tail node.sz
    freebuffer sb.tail node.sz
    let sb ← Prog.read Buf.sb
    Prog.check (sb.size = 0) .assert
    Prog.check (sb.offset = 0) .assert
    pure (.string bs)

/-- The loop of `readn`: the node and the index in it where the first `n` bytes end. -/
def readnLoop (n : ℤ) : ℕ → Option ℕ → ℤ → ℤ → BufM (Option (ℕ × ℤ))
  | 0, _, _, _ => Prog.fault .spin
  | _ + 1, none, _, _ => pure none
  | fuel + 1, some current, offset, sz => do
    let nd ← load (some current)
    let sz := wrap (sz + (nd.sz - offset))
    if sz ≥ n then pure (some (current, wrap (nd.sz - wrap (sz - n))))
    else readnLoop n fuel nd.next 0 sz

/-- `readn`. -/
def readn (n : ℤ) : BufM LuaValue := do
  if n = 0 then pure (.string [])
  else
    let b ← Prog.read id
    if b.sb.size < n then pure .nil
    else
      match ← readnLoop n (b.mem.top + 1) b.sb.head b.sb.offset 0 with
      | some (current, stop) => do
        let bs ← pushpack (some current) stop
        freebuffer (some current) stop
        pure (.string bs)
      | none => pure .nil

/-- `lfindsep`. -/
def lfindsep (sep : LuaString) : BufM LuaValue := do
  let b ← Prog.read id
  match ← scanLoop sep.mem (wrap sep.bytes.length) (b.mem.top + 1) b.sb.head b.sb.offset with
  | some _ => pure .true
  | none => pure .nil

/-- `lpop`: a number goes through `uint32_t` to `int`, the length of a string from `size_t` to
`int`. -/
def lpop : PopArg → BufM LuaValue
  | .none => readall
  | .string sep =>
    if sep.bytes.length > 0 then readsep sep.mem (wrap sep.bytes.length)
    else Prog.fault .luaError
  | .number n => readn (wrap (n % 4294967296))
  | .other => readall

/-- The loop of `ldetach` that copies the unread bytes; `diff` counts them. -/
def detachLoop (mem : Heap BufferNode) (size : ℤ) :
    ℕ → Option ℕ → ℤ → ℤ → Except Fault (List UInt8 × ℤ)
  | 0, _, _, _ => .error .spin
  | _ + 1, none, _, diff => .ok ([], diff)
  | fuel + 1, some current, offset, diff => do
    if diff < size then
      let c ← deref mem (some current)
      if c.sz - offset < 0 ∨ offset < 0 ∨ c.p.length < c.sz then .error .wild
      else
        let (bs, d) ← detachLoop mem size fuel c.next 0 (wrap (diff + (c.sz - offset)))
        pure ((c.p.drop offset.toNat).take (c.sz - offset).toNat ++ bs, d)
    else .error .assert

/-- `ldetach`. -/
def ldetach : BufM LuaValue := do
  let b ← Prog.read id
  if b.sb.size ≤ 0 then pure .nil
  else
    let (bs, diff) ← Prog.lift (detachLoop b.mem b.sb.size (b.mem.top + 1) b.sb.head b.sb.offset 0)
    Prog.check (diff = b.sb.size) .assert
    freebuffer b.sb.tail b.sb.size
    pure (.block bs b.sb.size)

/-- A call of the buffer's Lua interface: for `push` with the address that `malloc` returns. -/
inductive Op
  | push (a : ℕ) (p : Option (List UInt8)) (n : ℤ)
  | pop (arg : PopArg)
  | findsep (sep : LuaString)

/-- The function that a call runs. -/
def Op.call : Op → BufM LuaValue
  | .push a p n => lpush a p n
  | .pop arg => lpop arg
  | .findsep sep => lfindsep sep

/-! ## What a buffer holds -/

/-- The bytes of a node, read or not. -/
def BufferNode.bytes (nd : BufferNode) : List UInt8 := nd.p.take nd.sz.toNat

/-- The nodes from `head` on, each with its address. -/
def nodes (b : Buf) : List (ℕ × BufferNode) :=
  Linked.walk b.mem.cell BufferNode.next b.mem.top b.sb.head

/-- The total size of the nodes held, read or not. -/
def total (l : List (ℕ × BufferNode)) : ℤ := (l.map fun x => x.2.sz).sum

/-- The bytes of the nodes, read or not. -/
def raw (l : List (ℕ × BufferNode)) : List UInt8 := (l.map fun x => x.2.bytes).flatten

/-- The unread bytes: those of the nodes, with the first `offset` dropped. -/
def content (b : Buf) : List UInt8 := (raw (nodes b)).drop b.sb.offset.toNat

/-- The unread bytes, node by node. -/
def chunks (b : Buf) : List (List UInt8) :=
  match nodes b with
  | [] => []
  | x :: l => x.2.bytes.drop b.sb.offset.toNat :: l.map fun x => x.2.bytes

end Lsocket.Buffer
