import Lsocket.Net.Twins

/-!
# The calls on a slot, in two nets

Whatever is done with a slot gives the same in two nets that agree on what the slot holds: every call
with its id (`twins_use`), and every event of the poller for it (`twins_pollEvent`). The rest of the nets
may differ.
-/

namespace Lsocket

open CInt

variable {σ α : Type} {B : Backend σ} {P : Pointers B} {w w' : World σ} {a : Abs σ} {i : ℕ} {c : Conn}
variable {o : Option Conn} {x : View}

/-- The same value, and the slot holds the same. -/
def Kept (v v' : α) (y : View) : Prop := v = v' ∧ ∃ o, y = .holds o

/-- The same value, and the slot holds the same connection. -/
def Stays (v v' : α) (y : View) : Prop := v = v' ∧ ∃ c, y = .holds (some c)

/-- The same value, and the slot holds the same again: nothing if it was free. -/
def After (o : Option Conn) (v v' : α) (y : View) : Prop :=
  v = v' ∧ ∃ o', y = .holds o' ∧ (o = none → o' = none)

/-- A call on the slot, which is free or holds a connection. -/
theorem twins_found {f : Option ℕ → NetM σ α}
    (hnone : Twins P i (f none) (f none) (.holds none) (Same (.holds none)))
    (hsome : ∀ c, Twins P i (f (some i)) (f (some i)) (.holds (some c)) Kept) :
    Twins P i (socketOf i >>= f) (socketOf i >>= f) (.holds o) (After o) := by
  apply Twins.bind twins_socketOf
  rintro _ _ _ ⟨rfl, rfl, rfl⟩
  cases o with
  | none => exact hnone.mono fun _ _ _ ⟨hv, hy⟩ => ⟨hv, none, hy, fun _ => rfl⟩
  | some c => exact (hsome c).mono fun _ _ _ ⟨hv, o', hy⟩ => ⟨hv, o', hy, fun h => by cases h⟩

/-! ## Sending -/

/-- A write with the same answer. -/
theorem twins_socketWrite (data : List UInt8) (sz : ℤ) :
    Twins P i (socketWrite i data sz) (socketWrite i data sz) x fun r r' y =>
      (∃ addr, r' = { r with addr }) ∧ y = x := by
  apply Twins.bind (twins_call _)
  rintro r _ _ ⟨⟨addr, rfl⟩, -, rfl⟩
  refine .ite Iff.rfl (fun _ => .bind (twins_emit _ _) ?_) fun _ => .pure ⟨⟨addr, rfl⟩, rfl⟩
  rintro _ _ _ ⟨-, rfl⟩
  exact .pure ⟨⟨addr, rfl⟩, rfl⟩

theorem twins_sendfd (data : Option (List UInt8)) (sz cfd : ℤ) :
    Twins P i (sendfd i data sz cfd) (sendfd i data sz cfd) x fun r r' y =>
      (∃ addr, r' = { r with addr }) ∧ y = x := by
  apply Twins.bind (twins_call _)
  rintro r _ _ ⟨⟨addr, rfl⟩, -, rfl⟩
  refine .ite Iff.rfl (fun _ => .bind (twins_emit _ _) ?_) fun _ => .pure ⟨⟨addr, rfl⟩, rfl⟩
  rintro _ _ _ ⟨-, rfl⟩
  exact .pure ⟨⟨addr, rfl⟩, rfl⟩

/-- Writing the number of bytes queued. -/
theorem twins_setSize (f : ℤ → ℤ) :
    Twins P i (setSlot i fun s => { s with sbuffersz := f s.sbuffersz })
      (setSlot i fun s => { s with sbuffersz := f s.sbuffersz }) (.holds (some c))
      (Gives () (.holds (some { c with sbuffersz := f c.sbuffersz }))) :=
  twins_setSlot (fun c => { c with sbuffersz := f c.sbuffersz }) (fun _ _ => rfl)
    (fun _ => ⟨rfl, rfl⟩) id rfl

/-- The drain of a queue on TCP. -/
theorem twins_sendBufferTcp (fuel : ℕ) :
    Twins P i (sendBufferTcp i fuel) (sendBufferTcp i fuel) (.holds (some c)) Stays := by
  induction fuel generalizing c with
  | zero => exact .fault
  | succ fuel ih =>
    apply Twins.bind twins_headNode
    rintro _ _ _ ⟨rfl, ⟨rfl, rfl, -⟩ | ⟨n, next, q, rfl, rfl, hq⟩⟩
    · exact .pure ⟨rfl, c, rfl⟩
    apply Twins.bind (twins_socketWrite _ _)
    rintro r _ _ ⟨⟨addr, rfl⟩, rfl⟩
    refine .ite Iff.rfl (fun _ => ?_) fun _ => .ite Iff.rfl (fun _ => ?_) fun _ => ?_
    · exact .ite Iff.rfl (fun _ => .pure ⟨rfl, c, rfl⟩) fun _ =>
        .ite Iff.rfl (fun _ => ih) fun _ => .pure ⟨rfl, c, rfl⟩
    · refine .bind (twins_setHead (fun b => { b with
        ptr := b.ptr.map (List.drop r.ret.toNat), sz := wrap (b.sz - r.ret) }) hq (fun _ => rfl)
        fun _ => rfl) ?_
      rintro _ _ _ ⟨-, -, rfl⟩
      apply Twins.bind (twins_setSize fun sz => wrap (sz - r.ret))
      rintro _ _ _ ⟨-, -, rfl⟩
      exact .pure ⟨rfl, _, rfl⟩
    · apply Twins.bind (twins_setSize fun sz => wrap (sz - r.ret))
      rintro _ _ _ ⟨-, -, rfl⟩
      refine .bind (twins_popHead hq) ?_
      rintro _ _ _ ⟨-, -, rfl⟩
      exact ih

/-- The drain of a queue on IPC. -/
theorem twins_sendBufferIpc (fuel : ℕ) :
    Twins P i (sendBufferIpc i fuel) (sendBufferIpc i fuel) (.holds (some c)) Stays := by
  induction fuel generalizing c with
  | zero => exact .fault
  | succ fuel ih =>
    apply Twins.bind twins_headNode
    rintro _ _ _ ⟨rfl, ⟨rfl, rfl, -⟩ | ⟨n, next, q, rfl, rfl, hq⟩⟩
    · exact .pure ⟨rfl, c, rfl⟩
    apply Twins.bind (twins_sendfd _ _ _)
    rintro r _ _ ⟨⟨addr, rfl⟩, rfl⟩
    refine .ite Iff.rfl (fun _ => ?_) fun _ => .ite Iff.rfl (fun _ => .pure ⟨rfl, c, rfl⟩) fun _ =>
      .ite Iff.rfl (fun _ => ?_) fun _ => ?_
    · exact .ite Iff.rfl (fun _ => .pure ⟨rfl, c, rfl⟩) fun _ =>
        .ite Iff.rfl (fun _ => ih) fun _ => .pure ⟨rfl, c, rfl⟩
    · refine .bind (twins_setHead (fun b => { b with
        fd := -1, ptr := b.ptr.map (List.drop r.ret.toNat), sz := wrap (b.sz - r.ret) }) hq
        (fun _ => rfl) fun _ => rfl) ?_
      rintro _ _ _ ⟨-, -, rfl⟩
      apply Twins.bind (twins_setSize fun sz => wrap (sz - r.ret))
      rintro _ _ _ ⟨-, -, rfl⟩
      exact .pure ⟨rfl, _, rfl⟩
    · apply Twins.bind (twins_setSize fun sz => wrap (sz - r.ret))
      rintro _ _ _ ⟨-, -, rfl⟩
      refine .bind (twins_popHead hq) ?_
      rintro _ _ _ ⟨-, -, rfl⟩
      exact ih

/-- `_send_buffer`. -/
theorem twins_sendBuffer :
    Twins P i (sendBuffer B i) (sendBuffer B i) (.holds (some c)) Stays := by
  apply Twins.bind twins_slotAt
  rintro s _ _ ⟨⟨head, tail, rfl⟩, hs, hs', rfl⟩
  refine .ite (hs.head_iff.trans hs'.head_iff.symm) (fun _ => .pure ⟨rfl, c, rfl⟩) fun _ => ?_
  apply Twins.bind twins_answersLeft
  rintro fuel _ _ ⟨rfl, rfl⟩
  have hby : Twins P i (sendBufferBy i fuel s.protocol) (sendBufferBy i fuel s.protocol)
      (.holds (some c)) Stays := by
    rcases s.protocol with _ | _ | _
    · exact twins_sendBufferTcp fuel
    · exact .pure ⟨rfl, c, rfl⟩
    · exact twins_sendBufferIpc fuel
  apply Twins.bind hby
  rintro err _ _ ⟨rfl, c, rfl⟩
  refine .ite Iff.rfl (fun _ => ?_) fun _ => .pure ⟨rfl, c, rfl⟩
  apply Twins.bind twins_slotAt
  rintro s _ _ ⟨⟨head, tail, rfl⟩, hs, hs', rfl⟩
  refine .ite (hs.head_iff.trans hs'.head_iff.symm) (fun _ => ?_) fun _ => .pure ⟨rfl, c, rfl⟩
  apply Twins.bind (twins_subscribe _)
  rintro _ _ _ ⟨-, m, rfl⟩
  exact .pure ⟨rfl, _, rfl⟩

/-- The label `errout`. -/
theorem twins_errout (data : Option ℕ) (err : ℤ) :
    Twins P i (errout B i data err) (errout B i data err) (.holds (some c)) Kept := by
  apply Twins.bind (twins_freeData data)
  rintro _ _ _ ⟨-, rfl⟩
  apply Twins.bind twins_closeSocket
  rintro _ _ _ ⟨-, -, rfl⟩
  apply Twins.bind (twins_setErr err err)
  rintro _ _ _ ⟨-, rfl⟩
  exact .pure ⟨rfl, _, rfl⟩

/-- What a send does after a write of a part. -/
theorem twins_sendRest (b : Chunk) (n : ℤ) :
    Twins P i (sendRest B i b n) (sendRest B i b n) (.holds (some c)) Kept := by
  apply Twins.bind (twins_setSize fun sz => wrap (sz + b.sz))
  rintro _ _ _ ⟨-, -, rfl⟩
  apply Twins.bind twins_slotAt
  rintro s _ _ ⟨⟨head, tail, rfl⟩, -, -, rfl⟩
  refine .ite Iff.rfl (fun _ => twins_errout _ _) fun _ => ?_
  apply Twins.bind (twins_startQueue b)
  rintro _ _ _ ⟨-, -, rfl⟩
  apply Twins.bind twins_slotAt
  rintro s _ _ ⟨⟨head, tail, rfl⟩, -, -, rfl⟩
  apply Twins.bind (twins_subscribe _)
  rintro _ _ _ ⟨-, m, rfl⟩
  exact .pure ⟨rfl, _, rfl⟩

/-- A send behind a queue. -/
theorem twins_sendBehind (b : Chunk) (hq : c.queue ≠ []) :
    Twins P i (sendBehind B i b) (sendBehind B i b) (.holds (some c)) Kept := by
  apply Twins.bind (twins_setSize fun sz => wrap (sz + b.sz))
  rintro _ _ _ ⟨-, -, rfl⟩
  apply Twins.bind twins_slotAt
  rintro s _ _ ⟨⟨head, tail, rfl⟩, -, -, rfl⟩
  refine .ite Iff.rfl (fun _ => twins_errout _ _) fun _ => ?_
  refine .bind (twins_appendQueue b hq) ?_
  rintro _ _ _ ⟨-, -, rfl⟩
  exact .pure ⟨rfl, _, rfl⟩

/-- `socket_send`. -/
theorem twins_socketSend (data : Block) (sz : ℤ) :
    Twins P i (socketSend B i data sz) (socketSend B i data sz) (.holds o) (After o) := by
  refine .bind (.check (Q := fun _ _ y => y = .holds o) fun _ => rfl) ?_
  rintro _ _ _ rfl
  refine twins_found (.bind (twins_freeData _) ?_) fun c => .bind twins_slotAt ?_
  · rintro _ _ _ ⟨-, rfl⟩
    exact .pure ⟨rfl, rfl⟩
  rintro s _ _ ⟨⟨head, tail, rfl⟩, hs, hs', rfl⟩
  refine .ite Iff.rfl (fun _ => ?_) fun _ => ?_
  · apply Twins.bind (twins_freeData _)
    rintro _ _ _ ⟨-, rfl⟩
    apply Twins.bind (twins_setErr _ _)
    rintro _ _ _ ⟨-, rfl⟩
    exact .pure ⟨rfl, _, rfl⟩
  apply Twins.bind (twins_emit _ _)
  rintro _ _ _ ⟨-, rfl⟩
  refine .ite (hs.head_iff.trans hs'.head_iff.symm) (fun _ => ?_) fun hne => ?_
  swap
  · exact twins_sendBehind _ fun hq => hne (hs.head_iff.mpr hq)
  apply Twins.bind (twins_socketWrite _ _)
  rintro r _ _ ⟨⟨addr, rfl⟩, rfl⟩
  refine .ite Iff.rfl (fun _ => ?_) fun _ => .ite Iff.rfl (fun _ => twins_sendRest _ _) fun _ =>
    .ite Iff.rfl (fun _ => twins_sendRest _ _) fun _ => twins_errout _ _
  apply Twins.bind (twins_freeData _)
  rintro _ _ _ ⟨-, rfl⟩
  exact .pure ⟨rfl, _, rfl⟩

/-- `socket_sendfd`. -/
theorem twins_socketSendfd (data : Option Block) (sz cfd : ℤ) :
    Twins P i (socketSendfd B i data sz cfd) (socketSendfd B i data sz cfd) (.holds o) (After o) := by
  refine .bind (.check (Q := fun _ _ y => y = .holds o) fun _ => rfl) ?_
  rintro _ _ _ rfl
  refine twins_found (.bind (twins_freeData _) ?_) fun c => .bind twins_slotAt ?_
  · rintro _ _ _ ⟨-, rfl⟩
    exact .pure ⟨rfl, rfl⟩
  rintro s _ _ ⟨⟨head, tail, rfl⟩, hs, hs', rfl⟩
  refine .ite Iff.rfl (fun _ => ?_) fun _ => ?_
  · apply Twins.bind (twins_freeData _)
    rintro _ _ _ ⟨-, rfl⟩
    apply Twins.bind (twins_setErr _ _)
    rintro _ _ _ ⟨-, rfl⟩
    exact .pure ⟨rfl, _, rfl⟩
  apply Twins.bind (twins_emit _ _)
  rintro _ _ _ ⟨-, rfl⟩
  refine .ite (hs.head_iff.trans hs'.head_iff.symm) (fun _ => ?_) fun hne => ?_
  swap
  · exact twins_sendBehind _ fun hq => hne (hs.head_iff.mpr hq)
  apply Twins.bind (twins_sendfd _ _ _)
  rintro r _ _ ⟨⟨addr, rfl⟩, rfl⟩
  refine .ite Iff.rfl (fun _ => ?_) fun _ => .ite Iff.rfl (fun _ => twins_sendRest _ _) fun _ =>
    .ite Iff.rfl (fun _ => twins_sendRest _ _) fun _ =>
      .ite Iff.rfl (fun _ => twins_sendRest _ _) fun _ => twins_errout _ _
  apply Twins.bind (twins_freeData _)
  rintro _ _ _ ⟨-, rfl⟩
  exact .pure ⟨rfl, _, rfl⟩

/-! ## Reading -/

/-- A read that throws the data away. -/
theorem twins_readClose (fuel : ℕ) :
    Twins P i (readClose (σ := σ) fuel) (readClose fuel) x (Same x) := by
  induction fuel with
  | zero => exact .fault
  | succ fuel ih =>
    apply Twins.bind (twins_call _)
    rintro r _ _ ⟨⟨addr, rfl⟩, -, rfl⟩
    refine .ite Iff.rfl (fun _ => ?_) fun _ =>
      .ite Iff.rfl (fun _ => .pure ⟨rfl, rfl⟩) fun _ => .pure ⟨rfl, rfl⟩
    exact .ite Iff.rfl (fun _ => .pure ⟨rfl, rfl⟩) fun _ =>
      .ite Iff.rfl (fun _ => ih) fun _ => .pure ⟨rfl, rfl⟩

/-- A read that closes the slot. -/
theorem twins_readFail (err : ℤ) :
    Twins P i (readFail B i err) (readFail B i err) (.holds (some c)) Kept := by
  apply Twins.bind twins_closeSocket
  rintro _ _ _ ⟨-, -, rfl⟩
  apply Twins.bind (twins_setErr _ _)
  rintro _ _ _ ⟨-, rfl⟩
  exact .pure ⟨rfl, _, rfl⟩

/-- The loop of `_read`. The buffer grows and shrinks in the same way. -/
theorem twins_readLoop (sz : ℤ) (fuel : ℕ) :
    Twins P i (readLoop B i sz fuel) (readLoop B i sz fuel) (.holds (some c)) Kept := by
  induction fuel with
  | zero => exact .fault
  | succ fuel ih =>
    apply Twins.bind (twins_call _)
    rintro r _ _ ⟨⟨addr, rfl⟩, -, rfl⟩
    refine .ite Iff.rfl (fun _ => ?_) fun _ => .ite Iff.rfl (fun _ => twins_readFail _) fun _ => ?_
    · exact .ite Iff.rfl (fun _ => .pure ⟨rfl, _, rfl⟩) fun _ =>
        .ite Iff.rfl (fun _ => ih) fun _ => twins_readFail _
    apply Twins.bind twins_slotAt
    rintro s _ _ ⟨⟨head, tail, rfl⟩, -, -, rfl⟩
    have hlast (c : Conn) : Twins P i
        (do emit (.received i r.bytes none); pure ({ n := r.ret, data := r.bytes } : ReadResult))
        (do emit (.received i r.bytes none); pure ({ n := r.ret, data := r.bytes } : ReadResult))
        (.holds (some c)) Kept := by
      apply Twins.bind (twins_emit _ _)
      rintro _ _ _ ⟨-, rfl⟩
      exact .pure ⟨rfl, _, rfl⟩
    -- both slots have the same size, so they adapt it alike
    have hsize (f : ℤ → ℤ) : Twins P i (setSlot i fun s => { s with rbuffersz := f s.rbuffersz })
        (setSlot i fun s => { s with rbuffersz := f s.rbuffersz }) (.holds (some c))
        (Gives () (.holds (some { c with rbuffersz := f c.rbuffersz }))) :=
      twins_setSlot (fun c => { c with rbuffersz := f c.rbuffersz }) (fun _ _ => rfl)
        (fun _ => ⟨rfl, rfl⟩) id rfl
    refine .ite Iff.rfl (fun _ => ?_) fun _ => hlast c
    refine .ite Iff.rfl (fun _ => ?_) fun _ => .ite Iff.rfl (fun _ => ?_) fun _ => hlast c
    · apply Twins.bind (hsize fun n => wrap (n * 2))
      rintro _ _ _ ⟨-, -, rfl⟩
      exact hlast _
    · apply Twins.bind (hsize fun n => n / 2)
      rintro _ _ _ ⟨-, -, rfl⟩
      exact hlast _

/-- A read of a message. -/
theorem twins_readfdLoop (fuel : ℕ) :
    Twins P i (readfdLoop B i fuel) (readfdLoop B i fuel) (.holds (some c)) Kept := by
  induction fuel with
  | zero => exact .fault
  | succ fuel ih =>
    apply Twins.bind (twins_call _)
    rintro r _ _ ⟨⟨addr, rfl⟩, -, rfl⟩
    refine .ite Iff.rfl (fun _ => ?_) fun _ => .ite Iff.rfl (fun _ => twins_readFail _) fun _ =>
      .ite Iff.rfl (fun _ => twins_readFail _) fun _ => .ite Iff.rfl (fun _ => ?_) fun _ => ?_
    · exact .ite Iff.rfl (fun _ => .pure ⟨rfl, _, rfl⟩) fun _ =>
        .ite Iff.rfl (fun _ => ih) fun _ => twins_readFail _
    · refine .ite Iff.rfl (fun _ => twins_readFail _) fun _ => .bind (twins_emit _ _) ?_
      rintro _ _ _ ⟨-, rfl⟩
      exact .pure ⟨rfl, _, rfl⟩
    · apply Twins.bind (twins_emit _ _)
      rintro _ _ _ ⟨-, rfl⟩
      exact .pure ⟨rfl, _, rfl⟩

/-- `socket_read`. -/
theorem twins_socketRead :
    Twins P i (socketRead B i) (socketRead B i) (.holds o) (After o) := by
  refine twins_found (.pure ⟨rfl, rfl⟩) fun c => .bind twins_slotAt ?_
  rintro s _ _ ⟨⟨head, tail, rfl⟩, -, -, rfl⟩
  dsimp only
  rcases s.protocol with _ | _ | _
  · apply Twins.bind twins_slotAt
    rintro s _ _ ⟨⟨head, tail, rfl⟩, -, -, rfl⟩
    apply Twins.bind twins_answersLeft
    rintro fuel _ _ ⟨rfl, rfl⟩
    refine .ite Iff.rfl (fun _ => ?_) fun _ => twins_readLoop _ _
    apply Twins.bind (twins_readClose fuel)
    rintro err _ _ ⟨rfl, rfl⟩
    apply Twins.bind (twins_setErr _ _)
    rintro _ _ _ ⟨-, rfl⟩
    refine .ite Iff.rfl (fun _ => .bind twins_closeSocket ?_) fun _ => .pure ⟨rfl, _, rfl⟩
    rintro _ _ _ ⟨-, -, rfl⟩
    exact .pure ⟨rfl, _, rfl⟩
  · exact .pure ⟨rfl, _, rfl⟩
  · apply Twins.bind twins_slotAt
    rintro s _ _ ⟨⟨head, tail, rfl⟩, -, -, rfl⟩
    refine .ite Iff.rfl (fun _ => .bind (twins_setErr _ _) ?_) fun _ => .bind twins_answersLeft ?_
    · rintro _ _ _ ⟨-, rfl⟩
      exact .pure ⟨rfl, _, rfl⟩
    · rintro fuel _ _ ⟨rfl, rfl⟩
      exact twins_readfdLoop fuel

/-! ## The other calls -/

/-- `socket_close`. -/
theorem twins_socketClose (force : Bool) :
    Twins P i (socketClose B i force) (socketClose B i force) (.holds o) (After o) := by
  refine twins_found (.pure ⟨rfl, rfl⟩) fun c => .bind twins_slotAt ?_
  rintro s _ _ ⟨⟨head, tail, rfl⟩, hs, hs', rfl⟩
  refine .ite (or_congr Iff.rfl (hs.head_iff.trans hs'.head_iff.symm)) (fun _ => ?_) fun _ => ?_
  · apply Twins.bind twins_closeSocket
    rintro _ _ _ ⟨-, -, rfl⟩
    exact .pure ⟨rfl, _, rfl⟩
  refine .bind (twins_setSlot (fun c => { c with status := .halfclose }) (fun _ _ => rfl)
    (fun _ => ⟨rfl, rfl⟩) (fun _ => by simp) rfl) ?_
  rintro _ _ _ ⟨-, -, rfl⟩
  -- the queues are only recorded
  refine .bind (Q := fun _ _ y => y = .holds (some { c with status := .halfclose })) ?_ ?_
  · exact Prog.Matches.read fun _ _ h => ⟨_, rfl, h⟩
  rintro _ _ _ rfl
  apply Twins.bind (twins_emit _ _)
  rintro _ _ _ ⟨-, rfl⟩
  exact .pure ⟨rfl, _, rfl⟩

/-- `socket_enableread`. -/
theorem twins_socketEnableread (read : Bool) :
    Twins P i (socketEnableread B i read) (socketEnableread B i read) (.holds o) (After o) := by
  refine twins_found (.pure ⟨rfl, rfl⟩) fun c => .bind twins_slotAt ?_
  rintro s _ _ ⟨⟨head, tail, rfl⟩, -, -, rfl⟩
  exact (twins_subscribe _).mono fun _ _ _ ⟨hr, m, hy⟩ => ⟨hr, _, hy⟩

/-- `socket_udata`. -/
theorem twins_socketUdata (udata : ℤ) :
    Twins P i (socketUdata (σ := σ) i udata) (socketUdata i udata) (.holds o) (After o) := by
  refine twins_found (.pure ⟨rfl, rfl⟩) fun c => .bind (twins_setSlot (fun c => { c with udata })
    (fun _ _ => rfl) (fun _ => ⟨rfl, rfl⟩) id rfl) ?_
  rintro _ _ _ ⟨-, -, rfl⟩
  exact .pure ⟨rfl, _, rfl⟩

/-- `socket_limit`. -/
theorem twins_socketLimit (slimit rlimit : ℤ) :
    Twins P i (socketLimit (σ := σ) i slimit rlimit) (socketLimit i slimit rlimit) (.holds o) (After o) := by
  refine twins_found (.pure ⟨rfl, rfl⟩) fun c => .bind (twins_setSlot
    (fun c => { c with slimit := if slimit ≤ 0 then INT_MAX else slimit })
    (fun _ _ => rfl) (fun _ => ⟨rfl, rfl⟩) id rfl) ?_
  rintro _ _ _ ⟨-, -, rfl⟩
  refine .ite Iff.rfl (fun _ => .bind (twins_setSlot (fun c => { c with rlimit := 0 })
    (fun _ _ => rfl) (fun _ => ⟨rfl, rfl⟩) id rfl) ?_) fun _ => .bind (twins_setSlot
    (fun c => { c with rlimit, rbuffersz := rlimit }) (fun _ _ => rfl) (fun _ => ⟨rfl, rfl⟩) id rfl) ?_
  · rintro _ _ _ ⟨-, -, rfl⟩
    exact .pure ⟨rfl, _, rfl⟩
  · rintro _ _ _ ⟨-, -, rfl⟩
    exact .pure ⟨rfl, _, rfl⟩

/-- `socket_address`. -/
theorem twins_socketAddress :
    Twins P i (socketAddress (σ := σ) i) (socketAddress i) (.holds o) (After o) := by
  refine twins_found (.pure ⟨rfl, rfl⟩) fun c => .bind (twins_call _) ?_
  rintro r _ _ ⟨⟨addr, rfl⟩, -, rfl⟩
  exact .pure ⟨rfl, _, rfl⟩

/-- `socket_fd`. -/
theorem twins_socketFd : Twins P i (socketFd (σ := σ) i) (socketFd i) (.holds o) (After o) := by
  refine twins_found (.pure ⟨rfl, rfl⟩) fun c => .bind twins_slotAt ?_
  rintro s _ _ ⟨⟨head, tail, rfl⟩, -, -, rfl⟩
  exact .pure ⟨rfl, _, rfl⟩

/-! ## Events of the slot -/

theorem twins_raise (e : SocketEvent) :
    Twins P i (raise (σ := σ) e) (raise e) x (Same x) := by
  apply Twins.bind (twins_emit _ _)
  rintro _ _ _ ⟨-, rfl⟩
  exact .pure ⟨rfl, rfl⟩

theorem twins_pollRead (udata : ℤ) (ie : NpEvent) :
    Twins P i (pollRead (σ := σ) i udata ie) (pollRead i udata ie) (.holds o) Kept :=
  .ite Iff.rfl (fun _ => (twins_raise _).mono fun _ _ _ h => ⟨h.1, _, h.2⟩) fun _ => .pure ⟨rfl, _, rfl⟩

/-- An event that ends the connection. -/
theorem twins_raiseClose (e : SocketEvent) :
    Twins P i (do
        let es ← raise e
        closeSocket B i
        pure es)
      (do
        let es ← raise e
        closeSocket B i
        pure es) (.holds (some c)) Kept := by
  apply Twins.bind (twins_raise e)
  rintro es _ _ ⟨rfl, rfl⟩
  apply Twins.bind twins_closeSocket
  rintro _ _ _ ⟨-, -, rfl⟩
  exact .pure ⟨rfl, _, rfl⟩

/-- An event of the poller for a connection. -/
theorem twins_pollConn (ie : NpEvent) :
    Twins P i (pollConn B i ie) (pollConn B i ie) (.holds (some c)) Kept := by
  apply Twins.bind twins_slotAt
  rintro s _ _ ⟨⟨head, tail, rfl⟩, -, -, rfl⟩
  refine .ite Iff.rfl (fun _ => .bind twins_sendBuffer ?_) fun _ => twins_pollRead _ _
  rintro err _ _ ⟨rfl, c, rfl⟩
  refine .ite Iff.rfl (fun _ => twins_raiseClose _) fun _ => .bind twins_slotAt ?_
  rintro s' _ _ ⟨⟨head, tail, rfl⟩, hs, hs', rfl⟩
  exact .ite (and_congr Iff.rfl (hs.head_iff.trans hs'.head_iff.symm)) (fun _ => twins_raiseClose _)
    fun _ => twins_pollRead _ _

/-- `_onconnect`. The error number is looked at only if the call has set it. -/
theorem twins_onconnect :
    Twins P i (onconnect B i) (onconnect B i) (.holds (some c)) Kept := by
  refine Prog.Matches.bind (Q := fun r r' w w' => (∃ addr, r' = { r with addr }) ∧
    (r.ret = -1 → w.os.errno = w'.os.errno) ∧ (View.holds (some c)).Both P i w w') ?_ ?_
  · refine .zoom matches_sys (fun w w' h => h.2.2.1) ?_
    rintro w w' r r' os os' ⟨h, h', -, hl⟩ ⟨hr, -, -, hos, herrno⟩
    exact ⟨⟨r'.addr, hr.symm⟩, herrno, h.frame w.np os w.net.err w.log h.inv.known,
      h'.frame w'.np os' w'.net.err w'.log h'.inv.known, hos, hl⟩
  intro r r'
  refine Prog.Matches.bind (Q := fun e e' w w' => (∃ addr, r' = { r with addr }) ∧
    (r.ret = -1 → e = e') ∧ (View.holds (some c)).Both P i w w') (.read fun _ _ h => h) ?_
  rintro e e' w w' ⟨⟨addr, rfl⟩, he, hw⟩
  -- `errno` is read in both worlds, and matters only where `getsockopt` failed alike
  have herr : (if r.ret = -1 ∧ r.value = 0 then (if e ≠ 0 then e else -1) else r.value) =
      if r.ret = -1 ∧ r.value = 0 then (if e' ≠ 0 then e' else -1) else r.value := by
    by_cases hret : r.ret = -1
    · rw [he hret]
    · simp [hret]
  -- from one error code on, the two runs are the same program
  have hend (err : ℤ) : Twins P i
      (if err = 0 then do
        let s ← slotAt i
        emit (.completed i s.head.isSome)
        setSlot i fun s => { s with status := .connected }
        let _ ← subscribe B i .none
        pure 0
      else do
        closeSocket B i
        pure err)
      (if err = 0 then do
        let s ← slotAt i
        emit (.completed i s.head.isSome)
        setSlot i fun s => { s with status := .connected }
        let _ ← subscribe B i .none
        pure 0
      else do
        closeSocket B i
        pure err) (.holds (some c)) Kept := by
    refine .ite Iff.rfl (fun _ => .bind twins_slotAt ?_) fun _ => .bind twins_closeSocket ?_
    · rintro s _ _ ⟨⟨head, tail, rfl⟩, -, -, rfl⟩
      apply Twins.bind (twins_emit _ _)
      rintro _ _ _ ⟨-, rfl⟩
      refine .bind (twins_setSlot (fun c => { c with status := .connected }) (fun _ _ => rfl)
        (fun _ => ⟨rfl, rfl⟩) (fun _ => by simp) rfl) ?_
      rintro _ _ _ ⟨-, -, rfl⟩
      apply Twins.bind (twins_subscribe _)
      rintro _ _ _ ⟨-, m, rfl⟩
      exact .pure ⟨rfl, _, rfl⟩
    · rintro _ _ _ ⟨-, -, rfl⟩
      exact .pure ⟨rfl, _, rfl⟩
  have hruns := hend (if r.ret = -1 ∧ r.value = 0 then (if e ≠ 0 then e else -1) else r.value) w w' hw
  intro v w₁ v' w₁' hv hv'
  refine hruns v w₁ v' w₁' hv ?_
  rw [herr]
  exact hv'

/-- An event of the poller, for a slot that does not listen. -/
theorem twins_pollEvent (ie : NpEvent) (hie : ie.ud = i) (hc : c.status ≠ .listening) :
    Twins P i (pollEvent B ie) (pollEvent B ie) (.holds (some c)) Kept := by
  subst hie
  apply Twins.bind twins_slotAt
  rintro s _ _ ⟨⟨head, tail, rfl⟩, hs, -, rfl⟩
  have hst : s.status = c.status := congrArg Conn.status hs.conn_eq
  rcases hstatus : s.status with _ | _ | _ | _ | _ | _ | _
  · exact .pure ⟨rfl, _, rfl⟩
  · exact absurd (hst.symm.trans hstatus) hc
  · apply Twins.bind twins_onconnect
    rintro err _ _ ⟨rfl, o, rfl⟩
    exact (twins_raise _).mono fun _ _ _ h => ⟨h.1, _, h.2⟩
  all_goals exact twins_pollConn ie

/-! ## Whatever is done with a slot -/

/-- What is done with a slot: the calls with its id. -/
inductive Use
  | close (force : Bool)
  | send (data : Block) (sz : ℤ)
  | sendfd (data : Option Block) (sz cfd : ℤ)
  | read
  | enableread (read : Bool)
  | udata (udata : ℤ)
  | limit (slimit rlimit : ℤ)
  | address
  | fd

/-- What is seen of it: the number returned, or what a read returns. -/
inductive Seen
  | number (v : ℤ)
  | data (r : ReadResult)

/-- The function called. -/
def Use.run (B : Backend σ) (i : ℕ) : Use → NetM σ Seen
  | .close force => .number <$> socketClose B i force
  | .send data sz => .number <$> socketSend B i data sz
  | .sendfd data sz cfd => .number <$> socketSendfd B i data sz cfd
  | .read => .data <$> socketRead B i
  | .enableread r => .number <$> socketEnableread B i r
  | .udata u => .number <$> socketUdata i u
  | .limit slimit rlimit => .number <$> socketLimit i slimit rlimit
  | .address => .number <$> socketAddress i
  | .fd => .number <$> socketFd i

/-- From two nets that agree on the slot, with the same answers, the same is seen, and the nets agree on
the slot again. -/
theorem twins_use (u : Use) : Twins P i (u.run B i) (u.run B i) (.holds o) (After o) := by
  have hmap {α : Type} {p : NetM σ α} (f : α → Seen) (hp : Twins P i p p (.holds o) (After o)) :
      Twins P i (f <$> p) (f <$> p) (.holds o) (After o) := by
    apply Twins.bind hp
    rintro v _ _ ⟨rfl, o', rfl, ho⟩
    exact .pure ⟨rfl, o', rfl, ho⟩
  rcases u with force | ⟨data, sz⟩ | ⟨data, sz, cfd⟩ | _ | r | udata | ⟨slimit, rlimit⟩ | _ | _
  · exact hmap Seen.number (twins_socketClose force)
  · exact hmap Seen.number (twins_socketSend data sz)
  · exact hmap Seen.number (twins_socketSendfd data sz cfd)
  · exact hmap Seen.data twins_socketRead
  · exact hmap Seen.number (twins_socketEnableread r)
  · exact hmap Seen.number (twins_socketUdata udata)
  · exact hmap Seen.number (twins_socketLimit slimit rlimit)
  · exact hmap Seen.number twins_socketAddress
  · exact hmap Seen.number twins_socketFd

end Lsocket
