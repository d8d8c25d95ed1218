import Lsocket.Buffer.Model
import Lsocket.Net.Run

/-!
# The Lua layer

`socket.lua`, over the functions of `lsocket.c` and `psocket.c` that it calls. It keeps a table of the
sockets that were started, each with a buffer and with the coroutine that waits for it; the handlers of
events push what was read, and wake the coroutine.

A function of the library ends by returning values or by suspending the coroutine that called it, and a
handler ends by waking a coroutine or by calling a callback. What Lua code does in between is left open.
-/

namespace Lsocket.Lua

open CInt

variable {σ : Type}

/-! ## Data -/

/-- How a Lua function can fail to return. -/
inductive Fault
  /-- A Lua error is raised. -/
  | error
  /-- A C function of the net does not return. -/
  | net (e : Lsocket.Fault)
  /-- A C function of the buffer does not return. -/
  | buffer (e : Buffer.Fault)
deriving DecidableEq, Repr

/-- What the library uses as a key of `socket_pool`: an id, or (in one handler) the table `c`. -/
inductive Key
  | id (n : ℤ)
  | c
deriving DecidableEq, Repr

/-- Where a coroutine is suspended: in a call of the library, or elsewhere. One that has not started yet
counts as suspended elsewhere. -/
inductive Point
  | connecting (id : ℤ)
  | reading (id : ℤ)
  | elsewhere
deriving DecidableEq, Repr

/-- An entry of `socket_pool`. The main thread is the coroutine 0. -/
structure Entry where
  id : ℤ
  co : ℕ
  buffer : Option Buffer.Buf
  mode : Buffer.PopArg
  callback : Bool

/-- `socket_error`: the errors of the library have texts of their own, the others those of the system. -/
inductive Text
  | library (s : String)
  | system (err : ℤ)
deriving DecidableEq, Repr

/-- `STRERROR`. -/
def STRERROR : List String :=
  ["", "net error end of file", "net error msg", "net error no socket", "net error create socket",
    "net error write buffer over", "net error no buffer", "net error listen", "net error connect",
    "net connecting", "ipc trunc", "recvmsg control type error", "net error status"]

/-- `socket_error`. -/
def socketError (err : ℤ) : Text :=
  if err ≤ 0 then .library (STRERROR.getD (-err).toNat "") else .system err

/-- A Lua value that the library hands out. -/
inductive Value
  | nil
  | true
  | number (n : ℤ)
  | text (t : Text)
  | data (v : Buffer.LuaValue)
deriving DecidableEq

/-- What `c.read` returns: a block and its length, nothing, or an error number. -/
inductive Heard
  | data (block : List UInt8) (n : ℤ)
  | nothing
  | failed (err : ℤ)
deriving DecidableEq

/-- What `c.send` returns: nil, false if there is nothing to send, or an error number. -/
inductive Answer
  | nil
  | nothing
  | failed (err : ℤ)
deriving DecidableEq

/-- How a function of the library ends. -/
inductive Result
  | values (vs : List Value)
  | yield (p : Point)
deriving DecidableEq

/-- How a handler ends: it is done, it wakes a coroutine, or it calls the callback of a listener. -/
inductive Ending
  | done
  | wakeup (co : ℕ) (args : List Value)
  | callback (id : ℤ)
deriving DecidableEq

/-- How the dispatch of an event ends. -/
inductive Verdict
  | done
  | woke (co : ℕ) (args : List Value)
  | called (id : ℤ)
  /-- The handler raises an error, which `_dispatch` logs. -/
  | raised
deriving DecidableEq

/-- The dispatch of an event: `socket_pool` and the coroutines before, what `c.read` returned, and how it
ends. -/
structure Turn where
  event : SocketEvent
  pool : Key → Option Entry
  point : ℕ → Option Point
  heard : Option Heard
  verdict : Verdict
  pool' : Key → Option Entry

/-- What happened. -/
inductive Note
  /-- There is a new entry for the id. -/
  | started (id : ℤ)
  /-- A pop returned `bytes` from the buffer of the id, and took `cut` off behind them. -/
  | popped (id : ℤ) (mode : Buffer.PopArg) (bytes cut : List UInt8)
  /-- `socket.read` returned data at once. -/
  | returned (id : ℤ) (bytes : List UInt8)
  | turn (t : Turn)

/-- Who runs, above the main chunk: a coroutine that a handler has woken, a callback, or a coroutine that
other code has resumed. -/
inductive Frame
  | woken (co : ℕ)
  | callback
  | resumed (co : ℕ)
deriving DecidableEq, Repr

/-- A Lua state with the library, over a net. `point` says where each coroutine is suspended; `heard` and
`log` only record. -/
structure State (σ : Type) where
  world : World σ
  pool : Key → Option Entry
  point : ℕ → Option Point
  stack : List Frame
  pending : List SocketEvent
  heard : Option Heard
  log : List Note

abbrev LuaM (σ : Type) : Type → Type := Prog Fault (State σ)

/-- `coroutine.running`. -/
def State.running (s : State σ) : ℕ :=
  match s.stack with
  | .woken k :: _ => k
  | .resumed k :: _ => k
  | _ => 0

/-! ## Access -/

/-- A call of a C function of the net. -/
def net {α : Type} (p : NetM σ α) : LuaM σ α := fun s =>
  match p s.world with
  | (.ok v, w) => (.ok v, { s with world := w })
  | (.error e, w) => (.error (.net e), { s with world := w })

/-- `psocket_lasterrno`. -/
def lasterrno : LuaM σ ℤ := Prog.read fun s => s.world.net.err

def note (n : Note) : LuaM σ Unit := Prog.write fun s => { s with log := n :: s.log }

/-- `socket_pool[id]`. -/
def lookup (k : Key) : LuaM σ (Option Entry) := Prog.read fun s => s.pool k

/-- An entry that must be there: it is asserted, or indexed. -/
def entry (k : Key) : LuaM σ Entry := do
  Prog.demand (← lookup k) .error

def setPool (k : Key) (o : Option Entry) : LuaM σ Unit :=
  Prog.write fun s => { s with pool := Function.update s.pool k o }

/-- Write fields of an entry. -/
def setEntry (k : Key) (f : Entry → Entry) : LuaM σ Unit :=
  Prog.write fun s => { s with pool := Function.update s.pool k ((s.pool k).map f) }

/-- A method of the buffer of an entry. -/
def onBuffer (id : ℤ) (op : Entry → Buffer.Op) : LuaM σ Buffer.LuaValue := do
  let s ← entry (.id id)
  let b ← Prog.demand s.buffer .error
  let r := (op s).call b
  match r.1 with
  | .ok v => do
    setEntry (.id id) fun s => { s with buffer := some r.2 }
    pure v
  | .error .luaError => do
    setEntry (.id id) fun s => { s with buffer := some r.2 }
    Prog.fault .error
  | .error e => Prog.fault (.buffer e)

/-- `s.buffer:push(data, n)`; `a` is the address of the new node. -/
def push (id : ℤ) (a : ℕ) (block : List UInt8) (n : ℤ) : LuaM σ Buffer.LuaValue :=
  onBuffer id fun _ => .push a (some block) n

/-- What a pop that returned `bytes` took off behind them. -/
def cutOf (b b' : Buffer.Buf) (bytes : List UInt8) : List UInt8 :=
  ((Buffer.content b).drop bytes.length).take
    ((Buffer.content b).length - bytes.length - (Buffer.content b').length)

/-- `s.buffer:pop(s.mode)`. -/
def pop (id : ℤ) : LuaM σ Buffer.LuaValue := do
  let s ← entry (.id id)
  let v ← onBuffer id fun s => .pop s.mode
  let s' ← entry (.id id)
  match v, s.buffer, s'.buffer with
  | .string bytes, some b, some b' => note (.popped id s.mode bytes (cutOf b b' bytes))
  | _, _, _ => pure ()
  pure v

variable (B : Backend σ)

/-! ## Functions of lsocket.c -/

/-- `lread`. -/
def lread (id : ℤ) : LuaM σ Heard := do
  let r ← net (socketRead B (wrap id))
  let err ← lasterrno
  let h : Heard := if 0 < r.n then .data r.block r.n else if r.n = 0 then .nothing else .failed err
  Prog.write fun s => { s with heard := some h }
  pure h

/-- `lclose`. -/
def lclose (k : Key) (force : Bool) : LuaM σ Unit :=
  match k with
  | .c => Prog.fault .error
  | .id id => do
    let _ ← net (socketClose B (wrap id) force)
    pure ()

/-- `lreadenable`, with `psocket_subscribe`. -/
def lreadenable (id : ℤ) (enable : Bool) : LuaM σ Unit := do
  let _ ← net (socketEnableread B (wrap id) enable)
  pure ()

/-- What `socket.send` is given: a block with its size, or a string of which it sends a part. `token` is
the block that `malloc` returns for it. -/
inductive Message
  | block (data : Block) (sz : ℤ)
  | string (bytes : List UInt8) (i j : Option ℤ) (token : ℕ)

/-- The part of a string that `lsend` copies. The end is an `int` that is compared with the length as a
`size_t`. -/
def slice (bytes : List UInt8) (i j : Option ℤ) : Option (List UInt8) :=
  let l : ℤ := bytes.length
  let start := wrap (i.getD 1)
  let start := if start < 1 then 1 else start
  let stop := wrap (j.getD l)
  let stop := if stop < 0 ∨ stop > l then wrap l else stop
  if start > stop then none
  else some ((bytes.drop (start - 1).toNat).take (stop - start + 1).toNat)

/-- `psocket_send`: zero, or the field `err` of an event that nobody has set. -/
def psocketSend (id : ℤ) (data : Block) (sz junk : ℤ) : LuaM σ ℤ := do
  let n ← net (socketSend B id data sz)
  if n ≤ 0 then pure 0 else pure junk

/-- `lsend`. -/
def lsend (id : ℤ) (m : Message) (junk : ℤ) : LuaM σ Answer := do
  match m with
  | .block data sz => do
    let err ← psocketSend B (wrap id) data (wrap sz) junk
    pure (if err ≠ 0 then .failed err else .nil)
  | .string bytes i j token =>
    match slice bytes i j with
    | none => pure .nothing
    | some part => do
      let err ← psocketSend B (wrap id) ⟨token, part⟩ part.length junk
      pure (if err ≠ 0 then .failed err else .nil)

/-! ## Functions of socket.lua -/

/-- `suspend`. The main thread cannot yield. -/
def suspend (s : Entry) (p : Point) : LuaM σ Result := do
  let me ← Prog.read State.running
  Prog.check (s.co = me) .error
  Prog.check (me ≠ 0) .error
  pure (.yield p)

/-- `disconnect`. -/
def disconnect (k : Key) (force : Bool) : LuaM σ Unit := do
  let s ← entry k
  Prog.check (k = .id s.id) .error
  lclose B k force
  setPool k none

/-- The handler of `LS_EREAD`. -/
def eventRead (id : ℤ) (a : ℕ) : LuaM σ Ending := do
  match ← lookup (.id id) with
  | none => pure .done
  | some s => do
    match ← lread B id with
    | .data block n => do
      let _ ← push id a block n
      let data ← pop id
      if data ≠ .nil then pure (.wakeup s.co [.data data]) else pure .done
    | .failed n => do
      disconnect B (.id id) true
      pure (.wakeup s.co [.nil, .text (socketError n)])
    | .nothing => pure .done

/-- The handler of `LS_EACCEPT`. -/
def eventAccept (id listenid : ℤ) : LuaM σ Ending := do
  let s ← entry (.id listenid)
  Prog.check (s.callback = true) .error
  pure (.callback id)

/-- The handler of `LS_ECONNECT`. -/
def eventConnect (id : ℤ) : LuaM σ Ending := do
  let s ← entry (.id id)
  Prog.check (s.id = id) .error
  pure (.wakeup s.co [.number s.id])

/-- The handler of `LS_ECONNERR`. -/
def eventConnerr (id err : ℤ) : LuaM σ Ending := do
  let s ← entry (.id id)
  Prog.check (s.id = id) .error
  disconnect B (.id id) true
  pure (.wakeup s.co [.nil, .text (socketError err)])

/-- The handler of `LS_ESOCKERR`. It hands the table `c` to `disconnect`. -/
def eventSockerr (id err : ℤ) : LuaM σ Ending := do
  let s ← entry (.id id)
  Prog.check (s.id = id) .error
  disconnect B .c true
  pure (.wakeup s.co [.nil, .text (socketError err)])

/-- `event[type]`, if there is one. -/
def handler (a : ℕ) (e : SocketEvent) : LuaM σ Ending :=
  match e.type with
  | .read => eventRead B e.id a
  | .accept => eventAccept e.id (e.arg.getD 0)
  | .connect => eventConnect e.id
  | .connerr => eventConnerr B e.id (e.arg.getD 0)
  | .sockerr => eventSockerr B e.id (e.arg.getD 0)
  | _ => pure .done

/-- `socket.listen`. -/
def listen : LuaM σ Result := do
  let id ← net (socketListen B 0)
  if 0 ≤ id then pure (.values [.number id])
  else do
    let err ← lasterrno
    pure (.values [.nil, .text (socketError err)])

/-- The separator `*l`. -/
def starL : Buffer.LuaString where
  bytes := [42, 108]
  mem i := [42, 108].getD i 0
  mem_lt i h := by
    rw [List.getD_eq_getElem?_getD, List.getElem?_eq_getElem h]
    rfl
  mem_length := rfl

/-- `socket.start`. -/
def start (id : ℤ) (callback : Bool) : LuaM σ Unit := do
  let me ← Prog.read State.running
  match ← lookup (.id id) with
  | some _ => setEntry (.id id) fun s => { s with co := me }
  | none => do
    setPool (.id id) (some { id, co := me, buffer := none, mode := .string starL, callback })
    note (.started id)

/-- `socket.connect`. -/
def connect : LuaM σ Result := do
  let id ← net (socketConnect B false 0)
  let err ← lasterrno
  if 0 ≤ id then do
    start id false
    if err = LS_CONNECTING then do
      let s ← entry (.id id)
      suspend s (.connecting id)
    else pure (.values [.number id])
  else pure (.values [.nil, .text (socketError err)])

/-- `socket.bind`. -/
def bind (id : ℤ) (co : ℕ) : LuaM σ Unit := do
  let _ ← entry (.id id)
  setEntry (.id id) fun s => { s with co }

/-- `socket.shutdown`. -/
def shutdown (id : ℤ) : LuaM σ Unit := disconnect B (.id id) false

/-- `socket.close`. -/
def close (id : ℤ) : LuaM σ Unit := disconnect B (.id id) true

/-- `socket.readenable`. -/
def readenable (id : ℤ) (enable : Bool) : LuaM σ Unit := do
  let _ ← entry (.id id)
  lreadenable B id enable
  let s ← entry (.id id)
  if enable ∧ s.buffer.isNone then
    setEntry (.id id) fun s => { s with buffer := some Buffer.lnew }

/-- `socket.read`. -/
def read (id : ℤ) (mode : Buffer.PopArg) : LuaM σ Result := do
  let s ← entry (.id id)
  Prog.check (s.id = id) .error
  setEntry (.id id) fun s => { s with mode }
  match ← pop id with
  | .nil => suspend s (.reading id)
  | .string bytes => do
    note (.returned id bytes)
    pure (.values [.data (.string bytes)])
  | v => pure (.values [.data v])

/-- `socket.send`. -/
def send (id : ℤ) (m : Message) (junk : ℤ) : LuaM σ Result := do
  match ← lsend B id m junk with
  | .failed err => do
    disconnect B (.id id) true
    pure (.values [.nil, .text (socketError err)])
  | .nil | .nothing => pure (.values [.true])

end Lsocket.Lua
