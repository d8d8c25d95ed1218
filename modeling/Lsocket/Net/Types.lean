import Lsocket.Lib.CInt
import Lsocket.Lib.Linked
import Lsocket.Lib.Match
import Lsocket.Lib.Refine

/-!
# The data of the socket library

The structures of `socket.c`, the constants of `socket_define.h`, and the world that its functions
run in: the net, the heap of queue nodes, the state of the poller, what the outside answers to
system calls, and a log of what happened, which no function reads.
-/

namespace Lsocket

/-! ## Constants -/

def LS_ERR_EOF : ℤ := -1
def LS_ERR_NOSOCK : ℤ := -3
def LS_ERR_CREATESOCK : ℤ := -4
def LS_ERR_WBUFOVER : ℤ := -5
def LS_ERR_LISTEN : ℤ := -7
def LS_ERR_CONNECT : ℤ := -8
def LS_CONNECTING : ℤ := -9
def LS_ERR_TRUNC : ℤ := -10
def LS_ERR_CMSGTYPE : ℤ := -11
def LS_ERR_STATUS : ℤ := -12

def RBUFFER_SZ : ℤ := 64
def RECVMSG_MAXSIZE : ℤ := 64
def STDERR_FILENO : ℤ := 2

def EINTR : ℤ := 4
def EAGAIN : ℤ := 11
def EINPROGRESS : ℤ := 115

/-- `CMSG_LEN(sizeof(int))`. -/
def CMSG_LEN_INT : ℕ := 20
def SOL_SOCKET : ℤ := 1
def SCM_RIGHTS : ℤ := 1

/-! ## Sockets and their queues -/

/-- `STATUS_INVALID` and the other values of a slot's status. -/
inductive Status
  | invalid
  | listening
  | connecting
  | connected
  | halfclose
  | suspend
  | bind
deriving DecidableEq, Repr

/-- `LS_PROTOCOL_TCP`, `LS_PROTOCOL_UDP`, `LS_PROTOCOL_IPC`. -/
inductive Protocol
  | tcp
  | udp
  | ipc
deriving DecidableEq, Repr

/-- A mask of `NP_RABLE` and `NP_WABLE`. -/
structure Mask where
  rable : Bool
  wable : Bool
deriving DecidableEq, Repr

namespace Mask

/-- The mask `0`. -/
def none : Mask := ⟨false, false⟩

/-- `mask | NP_WABLE`. -/
def withWable (m : Mask) : Mask := { m with wable := true }

/-- `mask & ~NP_WABLE`. -/
def withoutWable (m : Mask) : Mask := { m with wable := false }

end Mask

/-- A block of data handed over by the caller, named by a token for its address. -/
structure Block where
  token : ℕ
  bytes : List UInt8
deriving DecidableEq, Repr

/-- `struct sbuffer` without `next`. `ptr` holds the bytes from the pointer on; both pointers are
null for data that is null. -/
structure Chunk where
  sz : ℤ
  fd : ℤ
  begin : Option ℕ
  ptr : Option (List UInt8)
deriving DecidableEq, Repr

/-- The bytes that a chunk stands for. For null data `_sendfd` sends a zero byte. -/
def Chunk.bytes (c : Chunk) : List UInt8 := (c.ptr.getD [0]).take c.sz.toNat

/-- `struct sbuffer`. -/
structure SBuffer extends Chunk where
  next : Option ℕ
deriving DecidableEq, Repr

/-- `struct socket`. -/
structure Socket where
  fd : ℤ
  protocol : Protocol
  status : Status
  mask : Mask
  udata : ℤ
  head : Option ℕ
  tail : Option ℕ
  sbuffersz : ℤ
  rbuffersz : ℤ
  slimit : ℤ
  rlimit : ℤ
deriving DecidableEq, Repr

/-- `struct net`. The pointers into the array of sockets are indices. -/
structure Net where
  max : ℕ
  err : ℤ
  sockets : ℕ → Socket
  freeSocket : Option ℕ
  tailSocket : Option ℕ

/-! ## Events -/

/-- `struct np_event`; `ud` is the index of the slot that the pointer points to. -/
structure NpEvent where
  ud : ℕ
  read : Bool
  write : Bool
deriving DecidableEq, Repr

/-- The types of a `socket_event` that `socket_poll` makes. -/
inductive EventType
  | read
  | accept
  | connect
  | connerr
  | sockerr
  | wridoneclose
  | connThenRead
deriving DecidableEq, Repr

/-- `struct socket_event`. `arg` is the union of `err` and `listenid`, if the event sets it. -/
structure SocketEvent where
  id : ℕ
  type : EventType
  udata : ℤ
  arg : Option ℤ
deriving DecidableEq, Repr

/-! ## The outside -/

/-- A descriptor that `epoll_wait`, `select` or `kevent` finds ready, and for what. -/
structure Ready where
  fd : ℤ
  read : Bool
  write : Bool
  hup : Bool
deriving DecidableEq, Repr

/-- What the outside answers to one call. A call uses the fields that its result has. -/
structure Reply where
  /-- The return value. -/
  ret : ℤ := 0
  /-- `errno`, if the call fails. -/
  errno : ℤ := 0
  /-- The bytes read. -/
  bytes : List UInt8 := []
  /-- The value of `SO_ERROR`. -/
  value : ℤ := 0
  /-- The length of the address list. -/
  count : ℕ := 0
  /-- The address that `malloc` returns. -/
  addr : ℕ := 0
  /-- What is ready. -/
  ready : List Ready := []
  /-- Whether `recvmsg` sets `MSG_TRUNC` or `MSG_CTRUNC`. -/
  trunc : Bool := false
  /-- The control message of `recvmsg`, all zero if there is none. -/
  cmsgLen : ℕ := 0
  cmsgLevel : ℤ := 0
  cmsgType : ℤ := 0
  cmsgFd : ℤ := 0
deriving DecidableEq, Repr

/-- A failed call returns -1 and reports an error number. -/
def Reply.Failed (r : Reply) : Prop := r.ret = -1 ∧ 0 < r.errno

instance (r : Reply) : Decidable r.Failed := inferInstanceAs (Decidable (_ ∧ _))

/-- The answers to come, and `errno`. -/
structure Os where
  replies : List Reply
  errno : ℤ
deriving DecidableEq, Repr

/-- How a function can fail to return. -/
inductive Fault
  /-- The outside has no such behaviour: it gives no answer, or one that the call cannot have. -/
  | stuck
  /-- An assertion about the caller's arguments is false. -/
  | argument
  /-- An assertion about the tail of a send queue is false. -/
  | tail
  /-- An assertion about the tail of the list of free slots is false. -/
  | tailSocket
  /-- An assertion of the poller is false. -/
  | backend
  /-- `np_poll` stores more events than the array has room for. -/
  | overrun
  /-- A null or dangling pointer is followed. -/
  | wild
  /-- A loop over a queue does not end. -/
  | spin
deriving DecidableEq, Repr

/-- The faults of a poller. -/
def Fault.OfPoller (e : Fault) : Prop := e = .stuck ∨ e = .backend

/-- The faults that remain for a call with proper arguments: none of them is in `socket.c`. -/
def Fault.Outside (e : Fault) : Prop := e = .stuck ∨ e = .backend ∨ e = .overrun

theorem Fault.outside_stuck : Fault.stuck.Outside := .inl rfl

/-- What stops a poller is outside the library. -/
theorem Fault.OfPoller.outside {e : Fault} (h : e.OfPoller) : e.Outside := by
  rcases h with rfl | rfl
  · exact .inl rfl
  · exact .inr (.inl rfl)

/-- What happened, for the record. -/
inductive Ev
  /-- `_create_socket` gives the slot `i` to a descriptor. -/
  | opened (i : ℕ) (fd : ℤ) (protocol : Protocol)
  /-- `_create_socket` finds no free slot. -/
  | refused
  /-- `_close_socket` frees the slot. -/
  | closed (i : ℕ) (fd : ℤ) (mask : Mask)
  /-- A send gets past the checks of protocol and status. -/
  | offered (i : ℕ) (c : Chunk)
  /-- Bytes are written to the descriptor of a slot, with a descriptor attached if `cfd ≥ 0`. -/
  | sent (i : ℕ) (bytes : List UInt8) (cfd : ℤ)
  /-- Bytes read are handed to the caller, behind a descriptor if one came with them. -/
  | received (i : ℕ) (bytes : List UInt8) (cfd : Option ℤ)
  /-- `socket_close` leaves a slot half-closed with this queue. -/
  | halfclosed (i : ℕ) (queue : List Chunk)
  /-- A connect turns out to have succeeded, with data queued or not. -/
  | completed (i : ℕ) (pending : Bool)
  /-- `_subscribe` calls the poller. -/
  | subscribed (i : ℕ) (mask : Mask) (ret : ℤ)
  /-- `socket_poll` stores an event. -/
  | raised (e : SocketEvent)
  /-- A block of data is freed. -/
  | freed (token : ℕ)
  /-- A descriptor is opened or closed. -/
  | acquired (fd : ℤ)
  | released (fd : ℤ)
  /-- An address list is obtained or freed. -/
  | gotAddrinfo
  | freedAddrinfo
  /-- `net_free` is done: the net is gone. -/
  | destroyed
deriving DecidableEq, Repr

/-- All that a call works on, for a poller with state in `σ`. -/
structure World (σ : Type) where
  net : Net
  mem : Heap SBuffer
  np : σ
  os : Os
  log : List Ev

abbrev NetM (σ : Type) : Type → Type := Prog Fault (World σ)

/-! ## Calls to the outside -/

/-- A call to the outside, whose answer must be in `ok`. -/
def sys (ok : Reply → Prop) [DecidablePred ok] : Prog Fault Os Reply := fun o =>
  match o.replies with
  | [] => (.error .stuck, o)
  | r :: rs =>
    if ok r then (.ok r, { replies := rs, errno := if r.ret = -1 then r.errno else o.errno })
    else (.error .stuck, o)

/-- Any answer of a call keeps what every admissible answer keeps. -/
theorem wp_sys {ok : Reply → Prop} [DecidablePred ok] {Q : Reply → Os → Prop}
    {E : Fault → Os → Prop} {o : Os} (h : ∀ r o', ok r → Q r o') (he : E .stuck o) :
    Prog.wp (sys ok) Q E o := by
  unfold Prog.wp sys
  rcases o.replies with _ | ⟨r, rs⟩
  · exact he
  · by_cases hr : ok r
    · simp only [if_pos hr]
      exact h _ _ hr
    · simp only [if_neg hr]
      exact he

/-! ## The same answers -/

/-- Two answers that differ at most in the address of new memory. -/
def Reply.Alike (r r' : Reply) : Prop := { r with addr := r'.addr } = r'

theorem Reply.Alike.refl (r : Reply) : r.Alike r := rfl

/-- What does not look at the address is the same. -/
theorem Reply.Alike.same {β : Type} {r r' : Reply} (h : r.Alike r') (f : Reply → β)
    (hf : ∀ (r : Reply) addr, f { r with addr } = f r) : f r = f r' := by
  rw [← hf r r'.addr]
  exact congrArg f h

/-- The answers to come are the same. -/
def Os.Alike (o o' : Os) : Prop := List.Forall₂ Reply.Alike o.replies o'.replies

/-- The same answers, whatever the last error. -/
theorem Os.Alike.of_eq {o o' : Os} (h : o.replies = o'.replies) : o.Alike o' := by
  unfold Os.Alike
  rw [h]
  exact List.forall₂_same.mpr fun r _ => .refl r

/-- A call gets the same answer. -/
theorem matches_sys {ok ok' : Reply → Prop} [DecidablePred ok] [DecidablePred ok'] :
    Prog.Matches Os.Alike (sys ok) (sys ok') fun r r' o o' =>
      r.Alike r' ∧ ok r ∧ ok' r' ∧ o.Alike o' ∧ (r.ret = -1 → o.errno = o'.errno) := by
  intro o o' h v o₁ w o₁' hv hw
  unfold sys at hv hw
  unfold Os.Alike at h
  rcases ho : o.replies with _ | ⟨r, rs⟩ <;> rw [ho] at hv h
  · cases hv
  rcases ho' : o'.replies with _ | ⟨r', rs'⟩ <;> rw [ho'] at hw h
  · cases hw
  obtain ⟨hr, hrs⟩ := List.forall₂_cons.mp h
  -- an answer that the call cannot get is no run of it
  by_cases hok : ok r
  swap
  · simp [hok] at hv
  by_cases hok' : ok' r'
  swap
  · simp [hok'] at hw
  simp only [if_pos hok, if_pos hok', Prod.mk.injEq, Except.ok.injEq] at hv hw
  obtain ⟨rfl, rfl⟩ := hv
  obtain ⟨rfl, rfl⟩ := hw
  refine ⟨hr, hok, hok', hrs, fun hret => ?_⟩
  have hret' : r.ret = r'.ret := hr.same Reply.ret fun _ _ => rfl
  have herrno : r.errno = r'.errno := hr.same Reply.errno fun _ _ => rfl
  simp [hret, ← hret', herrno]

/-- What a call of the poller returns depends on the answers alone. -/
def Decided {σ : Type} (p : Prog Fault (σ × Os) ℤ) : Prop :=
  Prog.Matches (fun s t => s.2.Alike t.2) p p fun v w s t => v = w ∧ s.2.Alike t.2

namespace Decided

variable {σ : Type} {p q : Prog Fault (σ × Os) ℤ} {f : ℤ → Prog Fault (σ × Os) ℤ}

protected theorem pure (v : ℤ) : Decided (Pure.pure v : Prog Fault (σ × Os) ℤ) :=
  Prog.Matches.pure fun _ _ h => ⟨rfl, h⟩

protected theorem bind (hp : Decided p) (hf : ∀ v, Decided (f v)) : Decided (p >>= f) := by
  refine Prog.Matches.bind hp fun v w s t h => ?_
  obtain ⟨rfl, h⟩ := h
  exact hf v s t h

theorem ite {c : Prop} [Decidable c] (hp : Decided p) (hq : Decided q) :
    Decided (if c then p else q) :=
  Prog.Matches.ite Iff.rfl (fun _ => hp) fun _ => hq

end Decided

/-- A call within a poller gets the same answer, and leaves the state. -/
theorem matches_sys_snd {σ : Type} {ok ok' : Reply → Prop} [DecidablePred ok] [DecidablePred ok']
    {R : σ → σ → Prop} :
    Prog.Matches (fun s t : σ × Os => R s.1 t.1 ∧ s.2.Alike t.2)
      (Prog.zoom Prod.snd (fun o s => (s.1, o)) (sys ok))
      (Prog.zoom Prod.snd (fun o s => (s.1, o)) (sys ok'))
      fun r r' s t => r.ret = r'.ret ∧ ok r ∧ ok' r' ∧ R s.1 t.1 ∧ s.2.Alike t.2 := by
  refine .zoom matches_sys (fun _ _ h => h.2) ?_
  rintro s t r r' o o' h ⟨hr, hok, hok', hos, -⟩
  exact ⟨hr.same Reply.ret fun _ _ => rfl, hok, hok', h.1, hos⟩

/-- A call to the kernel, and a change of the state if it succeeds: two states stay related if the
change keeps them so. -/
theorem matches_ask {σ : Type} {R : σ → σ → Prop} (ok : σ → Reply → Prop)
    [∀ s, DecidablePred (ok s)] (f : σ → σ)
    (hf : ∀ s t r r', R s t → r.ret = 0 → r'.ret = 0 → ok s r → ok t r' → R (f s) (f t)) :
    Prog.Matches (fun s t => R s.1 t.1 ∧ s.2.Alike t.2)
      (do
        let s ← Prog.read Prod.fst
        let r ← Prog.zoom Prod.snd (fun o s => (s.1, o)) (sys (ok s))
        if r.ret = 0 then Prog.write fun s => (f s.1, s.2)
        pure r.ret : Prog Fault (σ × Os) ℤ)
      (do
        let s ← Prog.read Prod.fst
        let r ← Prog.zoom Prod.snd (fun o s => (s.1, o)) (sys (ok s))
        if r.ret = 0 then Prog.write fun s => (f s.1, s.2)
        pure r.ret : Prog Fault (σ × Os) ℤ)
      fun v w s t => v = w ∧ R s.1 t.1 ∧ s.2.Alike t.2 := by
  -- the states are the ones that the answers were checked against
  refine Prog.Matches.bind (Q := fun a b s t => (R s.1 t.1 ∧ s.1 = a ∧ t.1 = b) ∧ s.2.Alike t.2)
    (.read fun _ _ h => ⟨⟨h.1, rfl, rfl⟩, h.2⟩) fun a b => ?_
  refine Prog.Matches.bind (matches_sys_snd (R := fun s t => R s t ∧ s = a ∧ t = b)) fun r r' s t h => ?_
  obtain ⟨hret, hok, hok', ⟨hR, rfl, rfl⟩, hos⟩ := h
  have hpure : Prog.Matches (fun s t : σ × Os => R s.1 t.1 ∧ s.2.Alike t.2)
      (pure r.ret : Prog Fault _ ℤ) (pure r'.ret : Prog Fault _ ℤ)
      fun v w s t => v = w ∧ R s.1 t.1 ∧ s.2.Alike t.2 := .pure fun _ _ h => ⟨hret, h⟩
  by_cases h0 : r.ret = 0
  · have h0' : r'.ret = 0 := hret ▸ h0
    rw [if_pos h0, if_pos h0']
    exact hpure (f s.1, s.2) (f t.1, t.2) ⟨hf s.1 t.1 r r' hR h0 h0' hok hok', hos⟩
  · have h0' : r'.ret ≠ 0 := hret ▸ h0
    rw [if_neg h0, if_neg h0']
    exact hpure s t ⟨hR, hos⟩

/-- So what it returns is decided. -/
theorem Decided.ask {σ : Type} (ok : σ → Reply → Prop) [∀ s, DecidablePred (ok s)] (f : σ → σ) :
    Decided (do
      let s ← Prog.read Prod.fst
      let r ← Prog.zoom Prod.snd (fun o s => (s.1, o)) (sys (ok s))
      if r.ret = 0 then Prog.write fun s => (f s.1, s.2)
      pure r.ret) := by
  have hask := matches_ask (R := fun _ _ => True) ok f fun _ _ _ _ _ _ _ _ _ => trivial
  intro s t h v s' w t' hs ht
  obtain ⟨hv, -, hos⟩ := hask s t ⟨trivial, h⟩ v s' w t' hs ht
  exact ⟨hv, hos⟩

/-- A poller, as `np.h` declares it. `known` are the slots that `np_poll` may report: those that
were registered; what a registration returns is decided by the system. -/
structure Backend (σ : Type) where
  npInit : ℕ → σ
  npAdd : ℤ → Mask → ℕ → Prog Fault (σ × Os) ℤ
  npMod : ℤ → Mask → ℕ → Prog Fault (σ × Os) ℤ
  npDel : ℤ → Prog Fault (σ × Os) ℤ
  npPoll : ℕ → ℤ → Prog Fault (σ × Os) (List NpEvent)
  /-- What the kernel does to the registrations of a descriptor that is closed. -/
  closed : ℤ → σ → σ
  known : σ → ℕ → Prop
  known_init : ∀ max u, ¬ known (npInit max) u
  known_add : ∀ fd mask ud s, Prog.wp (npAdd fd mask ud)
    (fun _ t => ∀ u, known t.1 u → known s.1 u ∨ u = ud) (fun e _ => e.OfPoller) s
  known_mod : ∀ fd mask ud s, Prog.wp (npMod fd mask ud)
    (fun _ t => ∀ u, known t.1 u → known s.1 u ∨ u = ud) (fun e _ => e.OfPoller) s
  known_del : ∀ fd s, Prog.wp (npDel fd)
    (fun _ t => ∀ u, known t.1 u → known s.1 u) (fun e _ => e.OfPoller) s
  known_poll : ∀ max timeout s, Prog.wp (npPoll max timeout)
    (fun evs t => (∀ u, known t.1 u → known s.1 u) ∧ ∀ e ∈ evs, known s.1 e.ud)
    (fun e _ => e.OfPoller) s
  known_closed : ∀ fd s u, known (closed fd s) u → known s u
  decided_add : ∀ fd mask ud, Decided (npAdd fd mask ud)
  decided_mod : ∀ fd mask ud, Decided (npMod fd mask ud)
  decided_del : ∀ fd, Decided (npDel fd)

end Lsocket
