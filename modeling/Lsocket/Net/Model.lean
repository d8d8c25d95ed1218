import Lsocket.Net.Types

/-!
# The socket library

The functions of `socket.c`, over a poller `B`. A loop that repeats a system call runs at most once
for each answer that is left; a loop over a queue at most once for each address of the heap.

An index of a slot stands for the pointer `s`; the fields are read again through it where the source
does, after anything that may have changed them.
-/

namespace Lsocket

open CInt

variable {σ : Type}

/-! ## Access to the world -/

/-- Record what happened. -/
def emit (e : Ev) : NetM σ Unit := Prog.write fun w => { w with log := e :: w.log }

/-- A call to the operating system. -/
def call (ok : Reply → Prop) [DecidablePred ok] : NetM σ Reply :=
  Prog.zoom World.os (fun o w => { w with os := o }) (sys ok)

/-- A call to the poller. -/
def poller {α : Type} (p : Prog Fault (σ × Os) α) : NetM σ α :=
  Prog.zoom (fun w => (w.np, w.os)) (fun t w => { w with np := t.1, os := t.2 }) p

/-- `_socket_error`. -/
def socketErrno : NetM σ ℤ := Prog.read fun w => w.os.errno

/-- How often a loop over system calls can go round. -/
def answersLeft : NetM σ ℕ := Prog.read fun w => w.os.replies.length + 1

def setErr (err : ℤ) : NetM σ Unit := Prog.write fun w => { w with net := { w.net with err } }

/-- The slot that a pointer into the array points to. -/
def slotAt (i : ℕ) : NetM σ Socket := do
  let n ← Prog.read World.net
  Prog.check (i < n.max) .wild
  pure (n.sockets i)

/-- Write fields of a slot. -/
def setSlot (i : ℕ) (f : Socket → Socket) : NetM σ Unit := do
  let n ← Prog.read World.net
  Prog.check (i < n.max) .wild
  Prog.write fun w => { w with net :=
    { w.net with sockets := fun j => if j = i then f (w.net.sockets i) else w.net.sockets j } }

/-- Follow a node pointer. -/
def nodeAt (p : Option ℕ) : NetM σ SBuffer := do
  Prog.demand (p.bind (← Prog.read World.mem).cell) .wild

def setNode (p : ℕ) (b : SBuffer) : NetM σ Unit :=
  Prog.write fun w => { w with mem := w.mem.store p b }

/-- `malloc(sizeof(struct sbuffer))`, at an address that is not in use. -/
def mallocNode (b : SBuffer) : NetM σ ℕ := do
  let mem ← Prog.read World.mem
  let r ← call fun r => mem.cell r.addr = none
  setNode r.addr b
  pure r.addr

/-- `free` of a node. -/
def freeNode (p : ℕ) : NetM σ Unit := Prog.write fun w => { w with mem := w.mem.free p }

/-- `free` of a block of data. -/
def freeData : Option ℕ → NetM σ Unit
  | some token => emit (.freed token)
  | none => pure ()

/-- The chunks queued on a slot. -/
def World.queue (w : World σ) (i : ℕ) : List Chunk :=
  (Linked.walk w.mem.cell SBuffer.next w.mem.top (w.net.sockets i).head).map fun x => x.2.toChunk

/-! ## System calls -/

/-- `_socket_write(s->fd, data, sz)`. -/
def socketWrite (i : ℕ) (data : List UInt8) (sz : ℤ) : NetM σ Reply := do
  let r ← call fun r => r.Failed ∨ (0 ≤ r.ret ∧ r.ret ≤ sz)
  if 0 < r.ret then emit (.sent i (data.take r.ret.toNat) (-1))
  pure r

/-- `_sendfd(s->fd, data, sz, cfd)`. -/
def sendfd (i : ℕ) (data : Option (List UInt8)) (sz cfd : ℤ) : NetM σ Reply := do
  let r ← call fun r => r.Failed ∨ (0 ≤ r.ret ∧ r.ret ≤ sz)
  if 0 < r.ret then emit (.sent i ((data.getD [0]).take r.ret.toNat) cfd)
  pure r

/-- `_socket_read(s->fd, buf, sz)`. -/
def socketReadFd (sz : ℤ) : NetM σ Reply :=
  call fun r => r.Failed ∨ (0 ≤ r.ret ∧ r.ret ≤ sz ∧ r.bytes.length = r.ret)

/-- A call that returns -1 or 0, such as `setsockopt`. -/
def simpleCall : NetM σ Reply := call fun r => r.Failed ∨ r.ret = 0

/-- A call that returns a descriptor. -/
def descriptorCall : NetM σ Reply := do
  let r ← call fun r => r.Failed ∨ (0 ≤ r.ret ∧ r.ret ≤ INT_MAX)
  if 0 ≤ r.ret then emit (.acquired r.ret)
  pure r

/-- `_socket_nonblocking` and `_socket_closeonexec`: get the flags, set the flags. The result is
-1 if one of the two fails. -/
def setFlags : NetM σ ℤ := do
  let flag ← call fun r => r.Failed ∨ 0 ≤ r.ret
  if flag.ret = -1 then pure (-1)
  else
    let r ← simpleCall
    pure r.ret

variable (B : Backend σ)

/-- `_socket_close`. -/
def socketCloseFd (fd : ℤ) : NetM σ Unit := do
  Prog.write fun w => { w with np := B.closed fd w.np }
  emit (.released fd)

/-! ## Slots -/

/-- `_socket`. -/
def socketOf (id : ℤ) : NetM σ (Option ℕ) := do
  let n ← Prog.read World.net
  Prog.check (0 ≤ id ∧ id < n.max) .argument
  let s ← slotAt id.toNat
  if s.status ≠ .invalid then pure (some id.toNat)
  else do
    setErr LS_ERR_NOSOCK
    pure none

/-- `_subscribe`. -/
def subscribe (i : ℕ) (mask : Mask) : NetM σ ℤ := do
  let s ← slotAt i
  if mask = s.mask then pure 0
  else do
    let result ← poller (
      if mask = .none then B.npDel s.fd
      else if s.mask = .none then B.npAdd s.fd mask i
      else B.npMod s.fd mask i)
    emit (.subscribed i mask result)
    if result = 0 then setSlot i fun s => { s with mask }
    pure result

/-- `_alloc_sockets`: what it writes over the memory that `malloc` returns. -/
def allocSockets (max : ℕ) (junk : ℕ → Socket) (i : ℕ) : Socket :=
  { junk i with
    fd := if i = max - 1 then -1 else i + 1
    status := .invalid
    mask := .none
    udata := -1
    head := none
    tail := none
    slimit := 0
    rlimit := 0
    sbuffersz := 0 }

/-- The protocol that a number stands for: TCP if none. -/
def protocolOf (protocol : ℤ) : Protocol :=
  if protocol = 1 then .udp else if protocol = 2 then .ipc else .tcp

/-- `_create_socket`. -/
def createSocket (fd slimit udata protocol : ℤ) : NetM σ (Option ℕ) := do
  Prog.check (0 ≤ fd) .argument
  let n ← Prog.read World.net
  match n.freeSocket with
  | none => do
    emit .refused
    pure none
  | some i => do
    let s ← slotAt i
    Prog.write fun w => { w with net :=
      { w.net with freeSocket := if 0 ≤ s.fd then some s.fd.toNat else none } }
    setSlot i fun s =>
      { s with
        fd
        protocol := protocolOf protocol
        status := .suspend
        mask := .none
        udata
        head := none
        tail := none
        sbuffersz := 0
        rbuffersz := RBUFFER_SZ
        slimit := if slimit ≤ 0 then INT_MAX else slimit }
    emit (.opened i fd (protocolOf protocol))
    pure (some i)

/-- The loop of `_close_socket` that frees the queue. -/
def freeQueue (i : ℕ) : ℕ → NetM σ Unit
  | 0 => Prog.fault .spin
  | fuel + 1 => do
    let s ← slotAt i
    match s.head with
    | none => pure ()
    | some p => do
      let b ← nodeAt (some p)
      setSlot i fun s => { s with head := b.next }
      freeData b.begin
      freeNode p
      freeQueue i fuel

/-- The end of `_close_socket`: append the slot to the list of free slots. -/
def appendFree (i : ℕ) : NetM σ Unit := do
  let n ← Prog.read World.net
  if n.freeSocket = none then
    Prog.write fun w => { w with net := { w.net with freeSocket := some i } }
  else do
    let t ← Prog.demand n.tailSocket .tailSocket
    let last ← slotAt t
    Prog.check (last.fd = -1) .tailSocket
    setSlot t fun s => { s with fd := i }
  Prog.write fun w => { w with net := { w.net with tailSocket := some i } }

/-- The part of `_close_socket` after the descriptor is closed. -/
def releaseSlot (i : ℕ) : NetM σ Unit := do
  setSlot i fun s => { s with fd := -1, status := .invalid, udata := 0 }
  let mem ← Prog.read World.mem
  freeQueue i (mem.top + 1)
  setSlot i fun s => { s with tail := none, sbuffersz := 0 }
  appendFree i

/-- `_close_socket`. -/
def closeSocket (i : ℕ) : NetM σ Unit := do
  let s ← slotAt i
  if s.fd < 0 then pure ()
  else do
    emit (.closed i s.fd s.mask)
    if s.fd > STDERR_FILENO then socketCloseFd B s.fd
    releaseSlot i

/-- `socket_close`. -/
def socketClose (id : ℤ) (force : Bool) : NetM σ ℤ := do
  match ← socketOf id with
  | none => pure 0
  | some i => do
    let s ← slotAt i
    if force ∨ s.head = none then do
      closeSocket B i
      pure 0
    else do
      setSlot i fun s => { s with status := .halfclose }
      let queue ← Prog.read fun w => w.queue i
      emit (.halfclosed i queue)
      pure 1

/-- `socket_enableread`. -/
def socketEnableread (id : ℤ) (read : Bool) : NetM σ ℤ := do
  match ← socketOf id with
  | none => pure 1
  | some i => do
    let s ← slotAt i
    subscribe B i ⟨read, s.mask.wable⟩

/-- `socket_udata`. -/
def socketUdata (id udata : ℤ) : NetM σ ℤ := do
  match ← socketOf id with
  | none => pure 1
  | some i => do
    setSlot i fun s => { s with udata }
    pure 0

/-- `net_create`, if `np_init` succeeds. -/
def netCreate (max : ℤ) (junk : ℕ → Socket) : World σ :=
  let max := if max ≤ 0 then 1 else max.toNat
  { net :=
      { max
        err := 0
        sockets := allocSockets max junk
        freeSocket := some 0
        tailSocket := some (max - 1) }
    mem := Heap.empty
    np := B.npInit max
    os := { replies := [], errno := 0 }
    log := [] }

/-- The loop of `net_free`: close the slots from `i` on. -/
def closeAll : ℕ → ℕ → NetM σ Unit
  | 0, _ => pure ()
  | k + 1, i => do
    let s ← slotAt i
    if s.status ≠ .invalid then closeSocket B i
    closeAll k (i + 1)

/-- `net_free`. -/
def netFree : NetM σ Unit := do
  let n ← Prog.read World.net
  closeAll B n.max 0
  emit .destroyed

/-! ## Reading -/

/-- `_read_close`: zero, or the error that ends the connection. -/
def readClose : ℕ → NetM σ ℤ
  | 0 => Prog.fault .stuck
  | fuel + 1 => do
    let r ← socketReadFd 1024
    if r.ret < 0 then
      if r.errno = EAGAIN then pure 0
      else if r.errno = EINTR then readClose fuel
      else pure (if r.errno ≠ 0 then r.errno else LS_ERR_EOF)
    else if r.ret = 0 then pure LS_ERR_EOF
    else pure 0

/-- What a read returns: the number of bytes, and the data if there are any. -/
structure ReadResult where
  n : ℤ
  data : List UInt8 := []
  cfd : Option ℤ := none
deriving DecidableEq, Repr

/-- The bytes of an `int` in memory. -/
def intBytes (n : ℤ) : List UInt8 :=
  (List.range 4).map fun k => UInt8.ofNat (n / 256 ^ k % 256).toNat

theorem length_intBytes (n : ℤ) : (intBytes n).length = 4 := by
  simp [intBytes]

/-- The block that a read hands over: a descriptor that came along stands before the data. -/
def ReadResult.block (r : ReadResult) : List UInt8 :=
  match r.cfd with
  | some fd => intBytes fd ++ r.data
  | none => r.data

/-- The end of a read that closes the slot. -/
def readFail (i : ℕ) (err : ℤ) : NetM σ ReadResult := do
  closeSocket B i
  setErr err
  pure { n := -1 }

/-- The loop of `_read`. -/
def readLoop (i : ℕ) (sz : ℤ) : ℕ → NetM σ ReadResult
  | 0 => Prog.fault .stuck
  | fuel + 1 => do
    let r ← socketReadFd sz
    if r.ret < 0 then
      if r.errno = EAGAIN then pure { n := 0 }
      else if r.errno = EINTR then readLoop i sz fuel
      else readFail B i (if r.errno ≠ 0 then r.errno else LS_ERR_EOF)
    else if r.ret = 0 then readFail B i LS_ERR_EOF
    else do
      let s ← slotAt i
      if s.rlimit = 0 then
        if r.ret = s.rbuffersz then
          setSlot i fun s => { s with rbuffersz := wrap (s.rbuffersz * 2) }
        else if s.rbuffersz > RBUFFER_SZ ∧ r.ret < wrap (s.rbuffersz * 2) then
          setSlot i fun s => { s with rbuffersz := s.rbuffersz / 2 }
      emit (.received i r.bytes none)
      pure { n := r.ret, data := r.bytes }

/-- `_read`. -/
def read (i : ℕ) : NetM σ ReadResult := do
  let s ← slotAt i
  let fuel ← answersLeft
  if s.status = .halfclose then do
    let err ← readClose fuel
    setErr err
    if err ≠ 0 then do
      closeSocket B i
      pure { n := -1 }
    else pure { n := 0 }
  else readLoop B i s.rbuffersz fuel

/-- The loop of `_readfd`. The length returned counts the descriptor, if one came. -/
def readfdLoop (i : ℕ) : ℕ → NetM σ ReadResult
  | 0 => Prog.fault .stuck
  | fuel + 1 => do
    let r ← socketReadFd RECVMSG_MAXSIZE
    if r.ret < 0 then
      if r.errno = EAGAIN then pure { n := 0 }
      else if r.errno = EINTR then readfdLoop i fuel
      else readFail B i (if r.errno ≠ 0 then r.errno else LS_ERR_EOF)
    else if r.ret = 0 then readFail B i LS_ERR_EOF
    else if r.trunc then readFail B i LS_ERR_TRUNC
    else if r.cmsgLen = CMSG_LEN_INT then
      if r.cmsgLevel ≠ SOL_SOCKET ∨ r.cmsgType ≠ SCM_RIGHTS then readFail B i LS_ERR_CMSGTYPE
      else do
        emit (.received i r.bytes (some r.cmsgFd))
        pure { n := r.ret + 4, data := r.bytes, cfd := some r.cmsgFd }
    else do
      emit (.received i r.bytes none)
      pure { n := r.ret, data := r.bytes }

/-- `_readfd`. -/
def readfd (i : ℕ) : NetM σ ReadResult := do
  let s ← slotAt i
  if s.protocol ≠ .ipc then do
    setErr LS_ERR_STATUS
    pure { n := -1 }
  else do
    let fuel ← answersLeft
    readfdLoop B i fuel

/-- `socket_read`. -/
def socketRead (id : ℤ) : NetM σ ReadResult := do
  match ← socketOf id with
  | none => pure { n := -1 }
  | some i => do
    let s ← slotAt i
    match s.protocol with
    | .tcp => read B i
    | .ipc => readfd B i
    | .udp => pure { n := -1 }

/-! ## Sending -/

/-- The node at `s->head`, if the pointer is not null. -/
def headNode (i : ℕ) : NetM σ (Option SBuffer) := do
  let s ← slotAt i
  match s.head with
  | none => pure none
  | some p => do
    let b ← nodeAt (some p)
    pure (some b)

/-- Write fields of the node at `s->head`. -/
def setHead (i : ℕ) (f : SBuffer → SBuffer) : NetM σ Unit := do
  let s ← slotAt i
  let p ← Prog.demand s.head .wild
  let b ← nodeAt (some p)
  setNode p (f b)

/-- Take the node off at `s->head` and free it. -/
def popHead (i : ℕ) : NetM σ Unit := do
  let s ← slotAt i
  let p ← Prog.demand s.head .wild
  let b ← nodeAt (some p)
  setSlot i fun s => { s with head := b.next }
  freeData b.begin
  freeNode p

/-- `_send_buffer_tcp`: zero, or the error of a write. -/
def sendBufferTcp (i : ℕ) : ℕ → NetM σ ℤ
  | 0 => Prog.fault .stuck
  | fuel + 1 => do
    match ← headNode i with
    | none => pure 0
    | some b => do
      let r ← socketWrite i (b.ptr.getD [0]) b.sz
      if r.ret < 0 then
        if r.errno = EAGAIN then pure 0
        else if r.errno = EINTR then sendBufferTcp i fuel
        else pure r.errno
      else if r.ret < b.sz then do
        setHead i fun b =>
          { b with ptr := b.ptr.map (List.drop r.ret.toNat), sz := wrap (b.sz - r.ret) }
        setSlot i fun s => { s with sbuffersz := wrap (s.sbuffersz - r.ret) }
        pure 0
      else do
        setSlot i fun s => { s with sbuffersz := wrap (s.sbuffersz - r.ret) }
        popHead i
        sendBufferTcp i fuel

/-- `_send_buffer_ipc`: zero, or the error of a `sendmsg`. -/
def sendBufferIpc (i : ℕ) : ℕ → NetM σ ℤ
  | 0 => Prog.fault .stuck
  | fuel + 1 => do
    match ← headNode i with
    | none => pure 0
    | some b => do
      let r ← sendfd i b.ptr b.sz b.fd
      if r.ret < 0 then
        if r.errno = EAGAIN then pure 0
        else if r.errno = EINTR then sendBufferIpc i fuel
        else pure r.errno
      else if r.ret = 0 then pure 0
      else if r.ret < b.sz then do
        setHead i fun b =>
          { b with
            fd := -1
            ptr := b.ptr.map (List.drop r.ret.toNat)
            sz := wrap (b.sz - r.ret) }
        setSlot i fun s => { s with sbuffersz := wrap (s.sbuffersz - r.ret) }
        pure 0
      else do
        setSlot i fun s => { s with sbuffersz := wrap (s.sbuffersz - r.ret) }
        popHead i
        sendBufferIpc i fuel

/-- The function that drains the queue of a slot, by its protocol. -/
def sendBufferBy (i fuel : ℕ) : Protocol → NetM σ ℤ
  | .tcp => sendBufferTcp i fuel
  | .ipc => sendBufferIpc i fuel
  | .udp => pure 0

/-- `_send_buffer`. -/
def sendBuffer (i : ℕ) : NetM σ ℤ := do
  let s ← slotAt i
  if s.head = none then pure 0
  else do
    let fuel ← answersLeft
    let err ← sendBufferBy i fuel s.protocol
    if err = 0 then do
      let s ← slotAt i
      if s.head = none then do
        let _ ← subscribe B i s.mask.withoutWable
        pure err
      else pure err
    else pure err

/-- The label `errout` of `socket_send` and `socket_sendfd`. -/
def errout (i : ℕ) (data : Option ℕ) (err : ℤ) : NetM σ ℤ := do
  freeData data
  closeSocket B i
  setErr err
  pure (-1)

/-- `s->head = s->tail = p` for a new node. -/
def startQueue (i : ℕ) (c : Chunk) : NetM σ Unit := do
  let p ← mallocNode { c with next := none }
  setSlot i fun s => { s with head := some p, tail := some p }

/-- Link a new node in behind `s->tail`. -/
def appendQueue (i : ℕ) (c : Chunk) : NetM σ Unit := do
  let p ← mallocNode { c with next := none }
  let s ← slotAt i
  let t ← Prog.demand s.tail .tail
  let last ← nodeAt (some t)
  Prog.check (last.next = none) .tail
  setNode t { last with next := some p }
  setSlot i fun s => { s with tail := some p }

/-- The end of a send on a slot with an empty queue, which `c` is left of: the queue starts with
`c`. -/
def sendRest (i : ℕ) (c : Chunk) (n : ℤ) : NetM σ ℤ := do
  setSlot i fun s => { s with sbuffersz := wrap (s.sbuffersz + c.sz) }
  let s ← slotAt i
  if s.sbuffersz > s.slimit then errout B i c.begin LS_ERR_WBUFOVER
  else do
    startQueue i c
    let s ← slotAt i
    let _ ← subscribe B i s.mask.withWable
    pure n

/-- A send on a slot that has data queued: `c` goes behind it. -/
def sendBehind (i : ℕ) (c : Chunk) : NetM σ ℤ := do
  setSlot i fun s => { s with sbuffersz := wrap (s.sbuffersz + c.sz) }
  let s ← slotAt i
  if s.sbuffersz > s.slimit then errout B i c.begin LS_ERR_WBUFOVER
  else do
    appendQueue i c
    pure 0

/-- `socket_send`. -/
def socketSend (id : ℤ) (data : Block) (sz : ℤ) : NetM σ ℤ := do
  Prog.check (0 < sz) .argument
  match ← socketOf id with
  | none => do
    freeData (some data.token)
    pure (-1)
  | some i => do
    let s ← slotAt i
    if s.protocol ≠ .tcp ∨ s.status = .halfclose then do
      freeData (some data.token)
      setErr LS_ERR_STATUS
      pure (-1)
    else do
      let c : Chunk := { sz, fd := -1, begin := some data.token, ptr := some data.bytes }
      emit (.offered i c)
      if s.head = none then do
        let r ← socketWrite i data.bytes sz
        if r.ret ≥ sz then do
          freeData (some data.token)
          pure r.ret
        else if r.ret ≥ 0 then
          sendRest B i
            { c with ptr := some (data.bytes.drop r.ret.toNat), sz := wrap (sz - r.ret) } r.ret
        else if r.errno = EAGAIN ∨ r.errno = EINTR then sendRest B i c r.ret
        else errout B i c.begin r.errno
      else sendBehind B i c

/-- `socket_sendfd`. -/
def socketSendfd (id : ℤ) (data : Option Block) (sz cfd : ℤ) : NetM σ ℤ := do
  Prog.check (0 < sz ∨ (data = none ∧ sz = 1)) .argument
  match ← socketOf id with
  | none => do
    freeData (data.map Block.token)
    pure (-1)
  | some i => do
    let s ← slotAt i
    if s.protocol ≠ .ipc then do
      freeData (data.map Block.token)
      setErr LS_ERR_STATUS
      pure (-1)
    else do
      let c : Chunk := { sz, fd := cfd, begin := data.map Block.token, ptr := data.map Block.bytes }
      emit (.offered i c)
      if s.head = none then do
        let r ← sendfd i c.ptr sz cfd
        if r.ret ≥ sz then do
          freeData c.begin
          pure 0
        else if r.ret > 0 then
          sendRest B i
            { c with
              fd := -1
              ptr := c.ptr.map (List.drop r.ret.toNat)
              sz := wrap (sz - r.ret) } r.ret
        else if r.ret = 0 then sendRest B i c r.ret
        else if r.errno = EAGAIN ∨ r.errno = EINTR then sendRest B i c r.ret
        else errout B i c.begin r.errno
      else sendBehind B i c

/-! ## Opening -/

/-- `socket_bind`. -/
def socketBind (fd udata protocol : ℤ) : NetM σ ℤ := do
  match ← createSocket fd 0 udata protocol with
  | none => do
    setErr LS_ERR_CREATESOCK
    pure (-1)
  | some i => do
    if (← setFlags) = -1 then do
      setErr (← socketErrno)
      closeSocket B i
      pure (-1)
    else do
      setSlot i fun s => { s with status := .bind }
      pure i

/-- `_accept`. -/
def accept (lis : ℕ) : NetM σ (Option ℕ) := do
  let r ← descriptorCall
  if r.ret < 0 then pure none
  else do
    let _ ← simpleCall
    let l ← slotAt lis
    match ← createSocket r.ret l.slimit l.udata 0 with
    | none => do
      socketCloseFd B r.ret
      pure none
    | some i => do
      if (← setFlags) = -1 then do
        closeSocket B i
        pure none
      else do
        setSlot i fun s => { s with status := .connected }
        pure (some i)

/-- Why the loop over the addresses ends. -/
inductive Opening
  /-- The function returns -1 from within the loop. -/
  | abandoned
  /-- No address is left, and `fd` is -1. -/
  | exhausted
  /-- An address works. -/
  | opened (fd : ℤ) (status : Status)
deriving DecidableEq, Repr

/-- A call for each of several functions that return -1 if they fail, up to the first that does. -/
def anyFails : List (NetM σ ℤ) → NetM σ Bool
  | [] => pure false
  | f :: fs => do
    if (← f) = -1 then pure true else anyFails fs

/-- The loop of `socket_listen` over the addresses left. -/
def listenLoop : ℕ → NetM σ Opening
  | 0 => pure .exhausted
  | k + 1 => do
    let r ← descriptorCall
    if r.ret = -1 then listenLoop k
    else do
      if ← anyFails [setFlags, setFlags, Reply.ret <$> simpleCall] then do
        setErr (← socketErrno)
        socketCloseFd B r.ret
        pure .abandoned
      else do
        let b ← simpleCall
        if b.ret = -1 then do
          setErr (← socketErrno)
          socketCloseFd B r.ret
          listenLoop k
        else pure (.opened r.ret .listening)

/-- `getaddrinfo`: the number of addresses found. -/
def getaddrinfo : NetM σ (Option ℕ) := do
  let r ← call fun _ => true
  if r.ret ≠ 0 then pure none
  else do
    emit .gotAddrinfo
    pure (some r.count)

/-- `socket_listen`. -/
def socketListen (udata : ℤ) : NetM σ ℤ := do
  match ← getaddrinfo with
  | none => do
    setErr LS_ERR_LISTEN
    pure (-1)
  | some count => do
    setErr 0
    match ← listenLoop B count with
    | .abandoned => pure (-1)
    | .exhausted => do
      let n ← Prog.read World.net
      if n.err = 0 then setErr LS_ERR_LISTEN
      emit .freedAddrinfo
      pure (-1)
    | .opened fd _ => do
      setErr 0
      emit .freedAddrinfo
      let r ← simpleCall
      if r.ret = -1 then do
        setErr (← socketErrno)
        socketCloseFd B fd
        pure (-1)
      else
        match ← createSocket fd 0 udata 0 with
        | none => do
          setErr LS_ERR_CREATESOCK
          socketCloseFd B fd
          pure (-1)
        | some i => do
          if (← subscribe B i ⟨true, false⟩) ≠ 0 then do
            setErr (← socketErrno)
            closeSocket B i
            pure (-1)
          else do
            setSlot i fun s => { s with status := .listening }
            pure i

/-- `_onconnect`: zero, or the error of the connect. -/
def onconnect (i : ℕ) : NetM σ ℤ := do
  -- a `getsockopt` that fails leaves `err` as it is, and it was never set
  let r ← call fun r => r.Failed ∨ (r.ret = 0 ∧ 0 ≤ r.value)
  let errno ← socketErrno
  let err := if r.ret = -1 ∧ r.value = 0 then (if errno ≠ 0 then errno else -1) else r.value
  if err = 0 then do
    let s ← slotAt i
    emit (.completed i s.head.isSome)
    setSlot i fun s => { s with status := .connected }
    let _ ← subscribe B i .none
    pure 0
  else do
    closeSocket B i
    pure err

/-- The loop of `socket_connect` over the addresses left. -/
def connectLoop (block : Bool) : ℕ → NetM σ Opening
  | 0 => pure .exhausted
  | k + 1 => do
    let r ← descriptorCall
    if r.ret = -1 then connectLoop block k
    else do
      let alive ← simpleCall
      if alive.ret ≠ 0 then do
        setErr (← socketErrno)
        socketCloseFd B r.ret
        pure .abandoned
      else if ← (if block then pure false else anyFails [setFlags]) then do
        setErr (← socketErrno)
        socketCloseFd B r.ret
        pure .abandoned
      else do
        let c ← simpleCall
        if c.ret = -1 ∧ (block ∨ c.errno ≠ EINPROGRESS) then do
          setErr c.errno
          socketCloseFd B r.ret
          connectLoop block k
        else if ← (if block then anyFails [setFlags] else pure false) then do
          setErr (← socketErrno)
          pure .abandoned
        else pure (.opened r.ret (if c.ret = -1 then .connecting else .connected))

/-- `socket_connect`. -/
def socketConnect (block : Bool) (udata : ℤ) : NetM σ ℤ := do
  setErr 0
  match ← getaddrinfo with
  | none => do
    setErr LS_ERR_CONNECT
    pure (-1)
  | some count => do
    setErr 0
    match ← connectLoop B block count with
    | .abandoned => pure (-1)
    | .exhausted => do
      let n ← Prog.read World.net
      if n.err = 0 then setErr LS_ERR_CONNECT
      emit .freedAddrinfo
      pure (-1)
    | .opened fd status => do
      setErr 0
      emit .freedAddrinfo
      match ← createSocket fd 0 udata 0 with
      | none => do
        setErr LS_ERR_CREATESOCK
        socketCloseFd B fd
        pure (-1)
      | some i => do
        setSlot i fun s => { s with status }
        if status = .connecting then
          if (← subscribe B i ⟨true, true⟩) ≠ 0 then do
            setErr (← socketErrno)
            closeSocket B i
            pure (-1)
          else do
            setErr LS_CONNECTING
            pure i
        else pure i

/-! ## Polling -/

/-- Store an event. -/
def raise (e : SocketEvent) : NetM σ (List SocketEvent) := do
  emit (.raised e)
  pure [e]

/-- Report that there is something to read. -/
def pollRead (i : ℕ) (udata : ℤ) (ie : NpEvent) : NetM σ (List SocketEvent) :=
  if ie.read then raise { id := i, type := .read, udata, arg := none } else pure []

/-- The case of `socket_poll` for a connection: write what is queued, then report that there is
something to read. -/
def pollConn (i : ℕ) (ie : NpEvent) : NetM σ (List SocketEvent) := do
  let s ← slotAt i
  if ie.write then do
    let err ← sendBuffer B i
    if err ≠ 0 then do
      let es ← raise { id := i, type := .sockerr, udata := s.udata, arg := some err }
      closeSocket B i
      pure es
    else do
      let s ← slotAt i
      if s.status = .halfclose ∧ s.head = none then do
        let es ← raise { id := i, type := .wridoneclose, udata := s.udata, arg := none }
        closeSocket B i
        pure es
      else pollRead i s.udata ie
  else pollRead i s.udata ie

/-- The body of the loop of `socket_poll`: the events made from one event of the poller. -/
def pollEvent (ie : NpEvent) : NetM σ (List SocketEvent) := do
  let i := ie.ud
  let s ← slotAt i
  match s.status with
  | .listening => do
    match ← accept B i with
    | none => pure []
    | some c => do
      let t ← slotAt c
      raise { id := c, type := .accept, udata := t.udata, arg := some i }
  | .connecting => do
    let err ← onconnect B i
    let type := if err ≠ 0 then .connerr else if ie.read then .connThenRead else .connect
    raise { id := i, type, udata := s.udata, arg := some err }
  | .invalid => pure []
  | _ => pollConn B i ie

/-- The loop of `socket_poll`. -/
def pollLoop : List NpEvent → NetM σ (List SocketEvent)
  | [] => pure []
  | ie :: ies => do
    let es ← pollEvent B ie
    let es' ← pollLoop ies
    pure (es ++ es')

/-- `socket_poll`. -/
def socketPoll (timeout : ℤ) : NetM σ (List SocketEvent) := do
  let n ← Prog.read World.net
  let ies ← poller (B.npPoll n.max timeout)
  Prog.check (ies.length ≤ n.max) .overrun
  pollLoop B ies

/-! ## The rest of the interface -/

/-- `socket_address`. -/
def socketAddress (id : ℤ) : NetM σ ℤ := do
  match ← socketOf id with
  | none => pure 1
  | some _ => do
    let r ← simpleCall
    pure (if r.ret = 0 then 0 else 1)

/-- `socket_limit`. -/
def socketLimit (id slimit rlimit : ℤ) : NetM σ ℤ := do
  match ← socketOf id with
  | none => pure 1
  | some i => do
    setSlot i fun s => { s with slimit := if slimit ≤ 0 then INT_MAX else slimit }
    if rlimit ≤ 0 then setSlot i fun s => { s with rlimit := 0 }
    else setSlot i fun s => { s with rlimit, rbuffersz := rlimit }
    pure 0

/-- `socket_fd`. -/
def socketFd (id : ℤ) : NetM σ ℤ := do
  match ← socketOf id with
  | none => pure (-1)
  | some i => do
    let s ← slotAt i
    pure s.fd

/-! ## Calls -/

/-- The calls of the interface. -/
inductive Op
  | listen (udata : ℤ)
  | connect (block : Bool) (udata : ℤ)
  | bind (fd udata protocol : ℤ)
  | close (id : ℤ) (force : Bool)
  | send (id : ℤ) (data : Block) (sz : ℤ)
  | sendfd (id : ℤ) (data : Option Block) (sz cfd : ℤ)
  | read (id : ℤ)
  | enableread (id : ℤ) (read : Bool)
  | udata (id udata : ℤ)
  | limit (id slimit rlimit : ℤ)
  | address (id : ℤ)
  | fd (id : ℤ)
  | poll (timeout : ℤ)
  | free
deriving DecidableEq, Repr

/-- The function called, and the number it returns: that of the events for `socket_poll`, zero for
`net_free`. -/
def Op.call : Op → NetM σ ℤ
  | .listen u => socketListen B u
  | .connect block u => socketConnect B block u
  | .bind d u protocol => socketBind B d u protocol
  | .close id force => socketClose B id force
  | .send id data sz => socketSend B id data sz
  | .sendfd id data sz cfd => socketSendfd B id data sz cfd
  | .read id => ReadResult.n <$> socketRead B id
  | .enableread id r => socketEnableread B id r
  | .udata id u => socketUdata id u
  | .limit id slimit rlimit => socketLimit id slimit rlimit
  | .address id => socketAddress id
  | .fd id => socketFd id
  | .poll timeout => (fun es => (es.length : ℤ)) <$> socketPoll B timeout
  | .free => (fun _ => 0) <$> netFree B

/-- An id within the array. -/
def Within (max : ℕ) (id : ℤ) : Prop := 0 ≤ id ∧ id < max

/-- Data that is as long as the given length, or null and sent as one zero byte. -/
def Supplies (data : Option Block) (sz : ℤ) : Prop :=
  0 < sz ∧ sz ≤ INT_MAX ∧ sz ≤ (data.elim 1 fun b => b.bytes.length)

/-- What the caller owes. -/
def Op.Allowed (max : ℕ) : Op → Prop
  | .listen _ | .connect _ _ | .poll _ | .free => True
  | .bind d _ _ => 0 ≤ d
  | .close id _ | .read id | .enableread id _ | .udata id _ | .limit id _ _ | .address id
  | .fd id => Within max id
  | .send id data sz => Within max id ∧ Supplies (some data) sz
  | .sendfd id data sz _ => Within max id ∧ Supplies data sz

instance (max : ℕ) (id : ℤ) : Decidable (Within max id) := inferInstanceAs (Decidable (_ ∧ _))

instance (data : Option Block) (sz : ℤ) : Decidable (Supplies data sz) :=
  inferInstanceAs (Decidable (_ ∧ _))

instance (max : ℕ) : (op : Op) → Decidable (op.Allowed max)
  | .listen _ | .connect _ _ | .poll _ | .free => inferInstanceAs (Decidable True)
  | .bind d _ _ => inferInstanceAs (Decidable (0 ≤ d))
  | .close id _ | .read id | .enableread id _ | .udata id _ | .limit id _ _ | .address id
  | .fd id => inferInstanceAs (Decidable (Within max id))
  | .send id data sz => inferInstanceAs (Decidable (Within max id ∧ Supplies (some data) sz))
  | .sendfd id data sz _ => inferInstanceAs (Decidable (Within max id ∧ Supplies data sz))

end Lsocket
