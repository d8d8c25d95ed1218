import Lsocket.Net.Slots
import Mathlib.Logic.Relation

/-!
# What a call can do

Each call of the interface takes the net through a chain of changes. A change leaves a net that is
as good as one between two calls: it opens a connection with its final status, it closes one, it
takes a connection through one complete action of the call (`ConnStep`), or it touches no slot.

The events that a change records are listed with the newest first, like the log.
-/

namespace Lsocket

open CInt

variable {σ : Type}

/-! ## Events of a send -/

/-- Freeing the block of a chunk. -/
def Chunk.freed (b : Chunk) : List Ev := b.begin.toList.map .freed

/-- The descriptor that is attached to the bytes of a chunk: none on a connection that is not of
protocol IPC. -/
def Chunk.cfd (p : Protocol) (b : Chunk) : ℤ := if p = .ipc then b.fd else -1

/-- What is left of a chunk when `n` bytes of it are written, but not all. -/
def Chunk.advance (p : Protocol) (n : ℤ) (b : Chunk) : Chunk :=
  { b with
    sz := wrap (b.sz - n)
    fd := if p = .ipc then -1 else b.fd
    ptr := b.ptr.map (List.drop n.toNat) }

/-- A write that returns `n` from the chunk `b`. -/
def wrote (i : ℕ) (p : Protocol) (b : Chunk) (n : ℤ) : List Ev :=
  if 0 < n then [.sent i ((b.ptr.getD [0]).take n.toNat) (b.cfd p)] else []

/-- What the first write of a send leaves of the chunk `b`, if it returns `n`. -/
inductive Rest (p : Protocol) (b : Chunk) (n : ℤ) : Chunk → Prop
  | all (h : n ≤ 0) : Rest p b n b
  | some (h0 : 0 ≤ n) (hp : p = .ipc → 0 < n) : Rest p b n (b.advance p n)

/-- The calls that send. -/
def Op.IsSend : Op → Prop
  | .send .. | .sendfd .. => True
  | _ => False

/-- The calls that set a field of a connection, or change the size of its read buffer. -/
def Op.Tunes (i : ℕ) : Op → Prop
  | .udata id _ | .limit id _ _ | .read id => id = i
  | _ => False

/-- A send of `b` on the slot `i` that gets past the checks of protocol and status. -/
inductive Sends (i : ℕ) (c : Conn) (b : Chunk) : Op → Prop
  | send {data : Block} {sz : ℤ} (hdata : Supplies (some data) sz) (hp : c.protocol = .tcp)
      (hs : c.status ≠ .halfclose) (hb : b = ⟨sz, -1, some data.token, some data.bytes⟩) :
      Sends i c b (.send i data sz)
  | sendfd {data : Option Block} {sz cfd : ℤ} (hdata : Supplies data sz) (hp : c.protocol = .ipc)
      (hb : b = ⟨sz, cfd, data.map Block.token, data.map Block.bytes⟩) :
      Sends i c b (.sendfd i data sz cfd)

/-! ## Masks -/

/-- The function of the poller for a change of a mask returns `r`. -/
def Backend.Calls (B : Backend σ) (i : ℕ) (fd : ℤ) (old new : Mask) (np : σ) (r : ℤ)
    (np' : σ) : Prop :=
  ∃ o o', (if new = .none then B.npDel fd else if old = .none then B.npAdd fd new i
    else B.npMod fd new i) (np, o) = (.ok r, (np', o'))

/-- `_subscribe` with the mask `new`: what it returns, the mask afterwards, the poller afterwards. -/
inductive Subscribe (B : Backend σ) (i : ℕ) (fd : ℤ) (old new : Mask) (np : σ) :
    ℤ → Mask → σ → List Ev → Prop
  | same (h : new = old) : Subscribe B i fd old new np 0 old np []
  | done {np' : σ} (h : new ≠ old) (hc : B.Calls i fd old new np 0 np') :
      Subscribe B i fd old new np 0 new np' [.subscribed i new 0]
  | failed {r : ℤ} {np' : σ} (h : new ≠ old) (hr : r ≠ 0) (hc : B.Calls i fd old new np r np') :
      Subscribe B i fd old new np r old np' [.subscribed i new r]

/-! ## Draining a queue -/

/-- Writing from the front of a queue up to where `_send_buffer_tcp` or `_send_buffer_ipc` stops. -/
inductive Drain (i : ℕ) : Conn → Conn → List Ev → Prop
  | stop (c : Conn) : Drain i c c []
  | part {c : Conn} {b : Chunk} {q : List Chunk} {n : ℤ} (hq : c.queue = b :: q) (h0 : 0 ≤ n)
      (hn : n < b.sz) (hp : c.protocol = .ipc → 0 < n) :
      Drain i c { c with
        queue := b.advance c.protocol n :: q
        sbuffersz := wrap (c.sbuffersz - n) } (wrote i c.protocol b n)
  | next {c c' : Conn} {b : Chunk} {q : List Chunk} {evs : List Ev} (hq : c.queue = b :: q)
      (h : Drain i { c with queue := q, sbuffersz := wrap (c.sbuffersz - b.sz) } c' evs) :
      Drain i c c' (evs ++ (b.freed ++ wrote i c.protocol b b.sz))

/-- A write event without an error: `_send_buffer`, which ends the interest in writing if it empties
the queue. -/
inductive Flush (B : Backend σ) (i : ℕ) (c : Conn) (np : σ) : Conn → σ → List Ev → Prop
  | idle (hq : c.queue = []) : Flush B i c np c np []
  | rest {c' : Conn} {evs : List Ev} (h : Drain i c c' evs) (hq : c'.queue ≠ []) :
      Flush B i c np c' np evs
  | done {c' : Conn} {evs evs' : List Ev} {r : ℤ} {mask : Mask} {np' : σ} (hne : c.queue ≠ [])
      (h : Drain i c c' evs) (hq : c'.queue = [])
      (hs : Subscribe B i c.fd c.mask c.mask.withoutWable np r mask np' evs') :
      Flush B i c np { c' with mask } np' (evs' ++ evs)

/-! ## Changes -/

/-- What the call `op`, returning `v`, does to a connection that stays. -/
inductive ConnStep (B : Backend σ) (op : Op) (v : ℤ) (i : ℕ) (c : Conn) (np : σ) :
    Conn → σ → List Ev → Prop
  | tune (udata rbuffersz slimit rlimit : ℤ) (hop : op.Tunes i) (hs : 0 < c.slimit → 0 < slimit) :
      ConnStep B op v i c np { c with udata, rbuffersz, slimit, rlimit } np []
  | received {bytes : List UInt8} {cfd : Option ℤ} (hop : op = .read i) (hv : 0 < v)
      (h : (c.protocol = .tcp ∧ c.status ≠ .halfclose ∧ cfd = none) ∨ c.protocol = .ipc) :
      ConnStep B op v i c np c np [.received i bytes cfd]
  | enable {read : Bool} {mask : Mask} {np' : σ} {evs : List Ev} (hop : op = .enableread i read)
      (h : Subscribe B i c.fd c.mask ⟨read, c.mask.wable⟩ np v mask np' evs) :
      ConnStep B op v i c np { c with mask } np' evs
  | half (hop : op = .close i false) (hv : v = 1) (hq : c.queue ≠ []) :
      ConnStep B op v i c np { c with status := .halfclose } np [.halfclosed i c.queue]
  | whole {b : Chunk} (h : Sends i c b op) (hq : c.queue = []) :
      ConnStep B op v i c np c np (b.freed ++ wrote i c.protocol b b.sz ++ [.offered i b])
  | start {b b' : Chunk} {n r : ℤ} {mask : Mask} {np' : σ} {evs : List Ev} (h : Sends i c b op)
      (hq : c.queue = []) (hn : n < b.sz) (hb : Rest c.protocol b n b')
      (hs : Subscribe B i c.fd c.mask c.mask.withWable np r mask np' evs) :
      ConnStep B op v i c np
        { c with queue := [b'], sbuffersz := wrap (c.sbuffersz + b'.sz), mask } np'
        (evs ++ (wrote i c.protocol b n ++ [.offered i b]))
  | behind {b : Chunk} (h : Sends i c b op) (hv : v = 0) (hq : c.queue ≠ []) :
      ConnStep B op v i c np
        { c with queue := c.queue ++ [b], sbuffersz := wrap (c.sbuffersz + b.sz) } np [.offered i b]
  | flushed {c' : Conn} {np' : σ} {evs : List Ev} {timeout : ℤ} (hop : op = .poll timeout)
      (h : Flush B i c np c' np' evs) (hs : c.status = .halfclose → c'.queue ≠ [])
      (hn : c.status ≠ .connecting) : ConnStep B op v i c np c' np' evs
  | completed {r : ℤ} {mask : Mask} {np' : σ} {evs : List Ev} {timeout : ℤ}
      (hop : op = .poll timeout) (hs : c.status = .connecting)
      (h : Subscribe B i c.fd c.mask .none np r mask np' evs) :
      ConnStep B op v i c np { c with status := .connected, mask } np'
        (evs ++ [.completed i (!c.queue.isEmpty)])

/-- What the call does to a connection before it closes it. -/
inductive Closing (B : Backend σ) (op : Op) (v : ℤ) (i : ℕ) (c : Conn) (np : σ) :
    Conn → σ → List Ev → Prop
  | forced (hop : op = .close i true) : Closing B op v i c np c np []
  | idle {force : Bool} (hop : op = .close i force) (hq : c.queue = []) : Closing B op v i c np c np []
  | destroyed (hop : op = .free) : Closing B op v i c np c np []
  | unread (hop : op = .read i) (hv : v = -1) : Closing B op v i c np c np []
  | unsent {b : Chunk} {n : ℤ} (h : Sends i c b op) (hv : v = -1) (hn : n < b.sz)
      (hq : c.queue = [] ∨ n ≤ 0) :
      Closing B op v i c np c np (b.freed ++ (wrote i c.protocol b n ++ [.offered i b]))
  | broken {c' : Conn} {evs : List Ev} {timeout err : ℤ} (hop : op = .poll timeout)
      (hv : v ≠ 0) (herr : err ≠ 0) (h : Drain i c c' evs) :
      Closing B op v i c np c' np
        (.raised { id := i, type := .sockerr, udata := c.udata, arg := some err } :: evs)
  | finished {c' : Conn} {np' : σ} {evs : List Ev} {timeout : ℤ} (hop : op = .poll timeout)
      (hv : v ≠ 0) (hs : c.status = .halfclose) (h : Flush B i c np c' np' evs)
      (hq : c'.queue = []) :
      Closing B op v i c np c' np'
        (.raised { id := i, type := .wridoneclose, udata := c.udata, arg := none } :: evs)
  | unconnected {timeout : ℤ} (hop : op = .poll timeout) (hs : c.status = .connecting) :
      Closing B op v i c np c np []

/-- What the call makes of a new connection. -/
inductive Opening.Makes (B : Backend σ) (op : Op) (i : ℕ) (c : Conn) (np : σ) :
    Conn → σ → List Ev → Prop
  | listening {udata : ℤ} {mask : Mask} {np' : σ} {evs : List Ev} (hop : op = .listen udata)
      (h : Subscribe B i c.fd .none ⟨true, false⟩ np 0 mask np' evs) :
      Opening.Makes B op i c np { c with status := .listening, mask } np' evs
  | connecting {block : Bool} {udata : ℤ} {mask : Mask} {np' : σ} {evs : List Ev}
      (hop : op = .connect block udata)
      (h : Subscribe B i c.fd .none ⟨true, true⟩ np 0 mask np' evs) :
      Opening.Makes B op i c np { c with status := .connecting, mask } np' evs
  | connected {block : Bool} {udata : ℤ} (hop : op = .connect block udata) :
      Opening.Makes B op i c np { c with status := .connected } np []
  | accepted {timeout : ℤ} (hop : op = .poll timeout) :
      Opening.Makes B op i c np { c with status := .connected } np []
  | bound {fd udata protocol : ℤ} (hop : op = .bind fd udata protocol) :
      Opening.Makes B op i c np { c with status := .bind } np []

/-- An event that only accounts for memory, descriptors and address lists. -/
def Ev.Note : Ev → Prop
  | .freed _ | .acquired _ | .gotAddrinfo | .freedAddrinfo => True
  | _ => False

/-- The descriptor was opened, and no slot has changed since. -/
def Loose (fd : ℤ) (log : List Ev) : Prop :=
  ∃ evs past, log = evs ++ .acquired fd :: past ∧ ∀ e ∈ evs, e.Note ∨ e = .refused

namespace Abs

/-- The slot `i` holds `c` after the events `evs`. -/
def put (a : Abs σ) (i : ℕ) (c : Conn) (np : σ) (evs : List Ev) : Abs σ :=
  { a with slot := Function.update a.slot i (some c), np, log := evs ++ a.log }

end Abs

/-- The slot holds a connection, or has held one. -/
def Abs.Knows (a : Abs σ) (i : ℕ) : Prop :=
  (∃ c, a.slot i = some c) ∨ ∃ fd mask, .closed i fd mask ∈ a.log

/-- What the call `op`, returning `v`, does at a time. -/
inductive Change (B : Backend σ) (op : Op) (v : ℤ) (a : Abs σ) : Abs σ → Prop
  | err (err : ℤ) : Change B op v a (a.setErr err)
  | note {e : Ev} (he : e.Note) (hf : ∀ token, e = .freed token → op.IsSend) :
      Change B op v a (a.emit e)
  | raised {e : SocketEvent} {timeout : ℤ} (hop : op = .poll timeout) (hv : v ≠ 0)
      (he : e.type ≠ .sockerr ∧ e.type ≠ .wridoneclose) (hid : a.Knows e.id) : Change B op v a (a.emit (.raised e))
  | refused (h : a.free = []) : Change B op v a (a.emit .refused)
  | polled {np : σ} {o o' : Os} {ies : List NpEvent} {timeout : ℤ} (hop : op = .poll timeout)
      (h : B.npPoll a.max timeout (a.np, o) = (.ok ies, (np, o'))) : Change B op v a { a with np }
  | drop {fd : ℤ} (h : Loose fd a.log) : Change B op v a (a.closeFd B fd)
  | conn {i : ℕ} {c c' : Conn} {np : σ} {evs : List Ev} (hc : a.slot i = some c)
      (h : ConnStep B op v i c a.np c' np evs) : Change B op v a (a.put i c' np evs)
  | close {i : ℕ} {c c' : Conn} {np : σ} {evs : List Ev} (hc : a.slot i = some c)
      (h : Closing B op v i c a.np c' np evs) : Change B op v a ((a.put i c' np evs).close i B c')
  | opened {i : ℕ} {rest : List ℕ} {fd slimit udata protocol rlimit : ℤ} {c : Conn} {np : σ}
      {evs : List Ev} (hfd : 0 ≤ fd) (hf : a.free = i :: rest) (hi : i < a.max)
      (hn : a.slot i = none)
      (h : Opening.Makes B op i (newConn fd slimit udata protocol rlimit) a.np c np evs) :
      Change B op v a
        ((a.create i rest (newConn fd slimit udata protocol rlimit)).put i c np evs)
  | bounced {i : ℕ} {rest : List ℕ} {fd slimit udata protocol rlimit r : ℤ} {mask new : Mask} {np : σ}
      {evs : List Ev} (hfd : 0 ≤ fd) (hf : a.free = i :: rest) (hi : i < a.max)
      (hn : a.slot i = none) (hs : Subscribe B i fd .none new a.np r mask np evs)
      (hr : new = .none ∨ r ≠ 0) :
      Change B op v a
        (((a.create i rest (newConn fd slimit udata protocol rlimit)).put i
          (newConn fd slimit udata protocol rlimit) np evs).close i B
            (newConn fd slimit udata protocol rlimit))
  | destroyed (hop : op = .free) (h : ∀ i, a.slot i = none) : Change B op v a (a.emit .destroyed)

/-- What the call does in the whole. -/
abbrev Changes (B : Backend σ) (op : Op) (v : ℤ) : Abs σ → Abs σ → Prop :=
  Relation.ReflTransGen (Change B op v)

end Lsocket
