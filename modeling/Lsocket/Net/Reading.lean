import Lsocket.Net.Epoll
import Lsocket.Net.Run

/-!
# What a read makes of an answer

`socket_read` asks until a call is not interrupted, and that answer decides: data is handed over, nothing
has come, or the slot is closed with the error (`asks_socketRead`). Its three routines keep to one
contract; a udp slot has no routine, and is the one kind of slot that does not (`readContract_iff`).
-/

namespace Lsocket

open CInt

variable {σ α : Type} {B : Backend σ} {a : Abs σ} {rs : List Reply} {i : ℕ} {c : Conn} {w w' : World σ}

/-! ## Answers to a read -/

/-- A call that a signal interrupted. -/
def Reply.Interrupted (r : Reply) : Prop := r.ret < 0 ∧ r.errno = EINTR

instance (r : Reply) : Decidable r.Interrupted := inferInstanceAs (Decidable (_ ∧ _))

/-- The answers that a read of up to `sz` bytes can get. -/
def Reply.Outcome (sz : ℤ) (r : Reply) : Prop :=
  r.Failed ∨ (0 ≤ r.ret ∧ r.ret ≤ sz ∧ r.bytes.length = r.ret)

/-- The first answer that is not an interruption, and those after it. -/
def uninterrupted : List Reply → Option (Reply × List Reply)
  | [] => none
  | r :: rs => if r.Interrupted then uninterrupted rs else some (r, rs)

/-- Answers that a read of up to `sz` bytes can get, until one is not an interruption. -/
def Answered (sz : ℤ) : List Reply → Prop
  | [] => False
  | r :: rs => r.Outcome sz ∧ (r.Interrupted → Answered sz rs)

/-- The first answer that is not an interruption. -/
theorem uninterrupted_append {intr : List Reply} {r : Reply} (h : ∀ x ∈ intr, x.Interrupted)
    (hr : ¬ r.Interrupted) : uninterrupted (intr ++ r :: rs) = some (r, rs) := by
  induction intr with
  | nil => exact if_neg hr
  | cons x intr ih =>
    rw [List.forall_mem_cons] at h
    exact (if_pos h.1).trans (ih h.2)

/-- A read is answered by it. -/
theorem answered_append {intr : List Reply} {r : Reply} {sz : ℤ}
    (h : ∀ x ∈ intr, x.Failed ∧ x.errno = EINTR) (hr : r.Outcome sz) (hnot : ¬ r.Interrupted) :
    Answered sz (intr ++ r :: rs) := by
  induction intr with
  | nil => exact ⟨hr, fun h => absurd h hnot⟩
  | cons x intr ih =>
    rw [List.forall_mem_cons] at h
    exact ⟨.inl h.1.1, fun _ => ih h.2⟩

/-- How a read ends: with a block, with nothing, or with the error that closes the slot. -/
inductive Receipt
  | data (block : List UInt8)
  | nothing
  | failed (err : ℤ)

/-- What a read on a connection makes of the answer. -/
def Conn.receipt (c : Conn) (r : Reply) : Receipt :=
  if r.ret < 0 then
    if r.errno = EAGAIN then .nothing else .failed (if r.errno ≠ 0 then r.errno else LS_ERR_EOF)
  else if r.ret = 0 then .failed LS_ERR_EOF
  else if c.protocol = .ipc then
    if r.trunc then .failed LS_ERR_TRUNC
    else if r.cmsgLen = CMSG_LEN_INT then
      if r.cmsgLevel ≠ SOL_SOCKET ∨ r.cmsgType ≠ SCM_RIGHTS then .failed LS_ERR_CMSGTYPE
      else .data (intBytes r.cmsgFd ++ r.bytes)
    else .data r.bytes
  else if c.status = .halfclose then .nothing
  else .data r.bytes

/-- How many bytes a read on a connection asks for. -/
def Conn.request (c : Conn) : ℤ :=
  match c.protocol with
  | .ipc => RECVMSG_MAXSIZE
  | _ => if c.status = .halfclose then 1024 else c.rbuffersz

/-- The size of the read buffer after a read of `n` bytes. -/
def adapt (rlimit rbuffersz n : ℤ) : ℤ :=
  if rlimit = 0 then
    if n = rbuffersz then wrap (rbuffersz * 2)
    else if rbuffersz > RBUFFER_SZ ∧ n < wrap (rbuffersz * 2) then rbuffersz / 2
    else rbuffersz
  else rbuffersz

/-- The connection after a read of `n` bytes. -/
def Conn.resized (c : Conn) (n : ℤ) : Conn :=
  if c.protocol = .tcp then { c with rbuffersz := adapt c.rlimit c.rbuffersz n } else c

/-- What a read that got the answer returns, and leaves in the slot. -/
def Reads (i : ℕ) (c : Conn) (r : Reply) (v : ReadResult) (a' : Abs σ) : Prop :=
  match c.receipt r with
  | .data block => v.n = block.length ∧ v.block = block ∧ a'.slot i = some (c.resized r.ret)
  | .nothing => v.n = 0 ∧ a'.slot i = some c
  | .failed err => v.n = -1 ∧ a'.slot i = none ∧ a'.err = err

/-- A read that returns data. -/
theorem reads_of_data {r : Reply} {v : ReadResult} {a' : Abs σ} (hr : c.receipt r = .data v.block)
    (hv : v.n = v.block.length) (hc : a'.slot i = some (c.resized r.ret)) : Reads i c r v a' := by
  rw [Reads, hr]
  exact ⟨hv, rfl, hc⟩

/-- A read that closes the slot with an error. -/
theorem reads_of_failed {r : Reply} {v : ReadResult} {err : ℤ} {a' : Abs σ}
    (hr : c.receipt r = .failed err) (h : v.n = -1 ∧ a'.slot i = none ∧ a'.err = err) :
    Reads i c r v a' := by
  rw [Reads, hr]
  exact h

/-- A read for which nothing has come. -/
theorem reads_of_nothing {r : Reply} {v : ReadResult} {a' : Abs σ}
    (hr : c.receipt r = .nothing) (h : v.n = 0 ∧ a'.slot i = some c) : Reads i c r v a' := by
  rw [Reads, hr]
  exact h

/-! The answers that are not data, to whatever kind of read. -/

theorem receipt_again {r : Reply} (hneg : r.ret < 0) (h : r.errno = EAGAIN) :
    c.receipt r = .nothing := by
  rw [Conn.receipt, if_pos hneg, if_pos h]

theorem receipt_error {r : Reply} (hneg : r.ret < 0) (h : r.errno ≠ EAGAIN) :
    c.receipt r = .failed (if r.errno ≠ 0 then r.errno else LS_ERR_EOF) := by
  rw [Conn.receipt, if_pos hneg, if_neg h]

theorem receipt_eof {r : Reply} (h : r.ret = 0) : c.receipt r = .failed LS_ERR_EOF := by
  rw [Conn.receipt, if_neg (by omega), if_pos h]

@[simp] theorem Abs.close_err (a : Abs σ) : (a.close i B c).err = a.err := by
  unfold Abs.close
  split <;> rfl

/-! ## The three routines -/

/-- A program that gets what it asks for, unless the answers cannot be those to a read of `sz` bytes. -/
abbrev Asks (B : Backend σ) (sz : ℤ) (p : NetM σ α) (x : Abs σ × List Reply)
    (Q : Reply → α → Abs σ → Prop) : Prop :=
  Prog.Refines (RepWith B) (fun _ => ¬ Answered sz x.2) p x fun v y =>
    ∃ r, uninterrupted x.2 = some (r, y.2) ∧ r.Outcome sz ∧ Q r v y.1

/-- One turn of a loop that reads. -/
theorem asks_turn {sz : ℤ} {g : Reply → NetM σ α} {Q : Reply → α → Abs σ → Prop}
    (hintr : ∀ r, r.Interrupted → ∀ rs', rs'.length < rs.length → Asks B sz (g r) (a, rs') Q)
    (hg : ∀ r, r.Outcome sz → ¬ r.Interrupted → ∀ rs' E, Prog.Refines (RepWith B) E (g r) (a, rs')
      fun v y => y.2 = rs' ∧ Q r v y.1) :
    Asks B sz (socketReadFd sz >>= g) (a, rs) Q := by
  refine .bind ((doesWith_answer _).weaken ?_) ?_
  · rintro - hno hans
    rcases rs with _ | ⟨r, rs⟩
    · exact hans
    · exact hno ⟨r, rs, rfl, hans.1⟩
  rintro r ⟨a, rs'⟩ ⟨hok, rfl, rfl⟩
  by_cases h : r.Interrupted
  · refine ((hintr r h rs' (Nat.lt_succ_self _)).mono ?_).weaken fun _ hno hans => hno (hans.2 h)
    rintro v ⟨a', rs''⟩ ⟨r', hr', hQ⟩
    exact ⟨r', (if_pos h).trans hr', hQ⟩
  · refine (hg r hok h rs' _).mono ?_
    rintro v ⟨a', rs''⟩ ⟨rfl, hQ⟩
    exact ⟨r, if_neg h, hok, hQ⟩

/-- The number of answers bounds the loops that read. -/
theorem asks_answersLeft {sz : ℤ} {f : ℕ → NetM σ α} {Q : Reply → α → Abs σ → Prop}
    (h : Asks B sz (f (rs.length + 1)) (a, rs) Q) : Asks B sz (answersLeft >>= f) (a, rs) Q := by
  rintro w ⟨hw, rfl⟩
  exact h w ⟨hw, rfl⟩

/-- A read that closes the slot. -/
theorem refines_readFail {E : Fault → Prop} (err : ℤ) (hc : a.slot i = some c) :
    Prog.Refines (RepWith B) E (readFail B i err) (a, rs) fun v y =>
      y.2 = rs ∧ v.n = -1 ∧ y.1.slot i = none ∧ y.1.err = err := by
  apply doesWith_inner (does_closeSocket hc) (.closeSocket B i) (.closeSocket B i)
  rintro _ _ rfl
  apply doesWith_inner (does_setErr err) (.setErr err) (.write _)
  rintro _ _ rfl
  exact .pure ⟨rfl, rfl, by simp [Abs.setErr, Abs.close, Abs.remove], rfl⟩

/-- The end of a read that has data. -/
theorem refines_data {E : Fault → Prop} {r : Reply} {v : ReadResult} {e : Ev}
    (hr : c.receipt r = .data v.block) (hv : v.n = v.block.length)
    (hc : a.slot i = some (c.resized r.ret)) :
    Prog.Refines (RepWith B) E (do
      emit e
      pure v) (a, rs) fun v y => y.2 = rs ∧ Reads i c r v y.1 := by
  apply doesWith_inner (does_emit _) (.emit _) (.write _)
  rintro _ _ rfl
  exact .pure ⟨rfl, reads_of_data hr hv hc⟩

/-- One turn of the loops of `_read` and `_readfd`, up to the point where data have come. -/
theorem asks_readTurn {sz : ℤ} {p : NetM σ ReadResult} {f : Reply → NetM σ ReadResult}
    (hc : a.slot i = some c)
    (hp : ∀ rs', rs'.length < rs.length → Asks B sz p (a, rs') (Reads i c))
    (hf : ∀ r, 0 < r.ret → (r.bytes.length : ℤ) = r.ret → ∀ rs' E,
      Prog.Refines (RepWith B) E (f r) (a, rs') fun v y => y.2 = rs' ∧ Reads i c r v y.1) :
    Asks B sz (do
      let r ← socketReadFd sz
      if r.ret < 0 then
        if r.errno = EAGAIN then pure { n := 0 }
        else if r.errno = EINTR then p
        else readFail B i (if r.errno ≠ 0 then r.errno else LS_ERR_EOF)
      else if r.ret = 0 then readFail B i LS_ERR_EOF
      else f r) (a, rs) (Reads i c) := by
  -- what every failed read does, whatever the error
  have hfail {r : Reply} {err : ℤ} (h : c.receipt r = .failed err) (rs' : List Reply)
      (E : Fault → Prop) : Prog.Refines (RepWith B) E (readFail B i err) (a, rs') fun v y =>
        y.2 = rs' ∧ Reads i c r v y.1 := by
    refine (refines_readFail err hc).mono ?_
    rintro v y ⟨hrs, hv⟩
    exact ⟨hrs, reads_of_failed h hv⟩
  apply asks_turn
  · rintro r ⟨hneg, hintr⟩ rs' hlt
    -- an interrupted turn is not one of the ends: the loop asks again
    have hagain : r.errno ≠ EAGAIN := by
      rw [hintr]
      decide
    rw [if_pos hneg, if_neg hagain, if_pos hintr]
    exact hp rs' hlt
  · intro r hok hnot rs' E
    refine .ite (fun hneg => ?_) fun hneg => .ite (fun hzero => hfail (receipt_eof hzero) _ _) ?_
    · refine .ite (fun hagain => ?_) fun hagain => ?_
      · exact .pure ⟨rfl, reads_of_nothing (receipt_again hneg hagain) ⟨rfl, hc⟩⟩
      · rw [if_neg fun hintr => hnot ⟨hneg, hintr⟩]
        exact hfail (receipt_error hneg hagain) _ _
    · intro hzero
      obtain ⟨-, -, hlen⟩ := hok.resolve_left fun h => hneg (by rw [h.1]; decide)
      exact hf r (by omega) hlen rs' E

/-- The loop of `_read`. -/
theorem asks_readLoop {fuel : ℕ} (hfuel : rs.length < fuel) (hc : a.slot i = some c)
    (hp : c.protocol = .tcp) (hs : c.status ≠ .halfclose) :
    Asks B c.rbuffersz (readLoop B i c.rbuffersz fuel) (a, rs) (Reads i c) := by
  induction fuel generalizing rs with
  | zero => exact absurd hfuel (Nat.not_lt_zero _)
  | succ fuel ih =>
    refine asks_readTurn hc (fun rs' hlt => ih (by omega)) fun r hpos hlen rs' E => ?_
    have hreceipt : c.receipt r = .data r.bytes := by
      rw [Conn.receipt, if_neg (by omega), if_neg (by omega), if_neg (by simp [hp]), if_neg hs]
    -- whatever becomes of the size, the data are handed over
    have hdone (a' : Abs σ) (ha' : a'.slot i = some (c.resized r.ret)) :=
      (refines_data (B := B) (v := { n := r.ret, data := r.bytes }) (e := .received i r.bytes none)
        hreceipt hlen.symm ha' : Prog.Refines _ E _ (a', rs') _)
    have htune (f : ℤ → ℤ) (hf : c.resized r.ret = { c with rbuffersz := f c.rbuffersz }) :
        Prog.Refines (RepWith B) E (do
          setSlot i fun s => { s with rbuffersz := f s.rbuffersz }
          emit (.received i r.bytes none)
          pure { n := r.ret, data := r.bytes }) (a, rs') fun v y => y.2 = rs' ∧ Reads i c r v y.1 := by
      refine doesWith_inner (does_setSlot (fun c => { c with rbuffersz := f c.rbuffersz }) hc
        (fun _ _ => rfl) (fun _ => ⟨rfl, rfl⟩) (fun h => h) rfl) (.setSlot i _) (.setSlot i _) ?_
      rintro _ _ rfl
      exact hdone _ ((Abs.set_slot_self ..).trans (congrArg some hf.symm))
    have hresized : c.resized r.ret = { c with rbuffersz := adapt c.rlimit c.rbuffersz r.ret } :=
      if_pos hp
    apply doesWith_inner (does_slotAt hc) (.slotAt i) (.slotAt i)
    rintro s a ⟨rfl, hs⟩
    rw [show s.rlimit = c.rlimit from congrArg Conn.rlimit hs.conn_eq,
      show s.rbuffersz = c.rbuffersz from congrArg Conn.rbuffersz hs.conn_eq]
    unfold adapt at hresized
    refine .ite (fun hlimit => ?_) fun hlimit => hdone a ?_
    · rw [if_pos hlimit] at hresized
      refine .ite (fun hfull => htune (fun z => wrap (z * 2)) ?_) fun hfull => ?_
      · rwa [if_pos hfull] at hresized
      rw [if_neg hfull] at hresized
      refine .ite (fun hhalf => htune (fun z => z / 2) ?_) fun hhalf => hdone a ?_
      · rwa [if_pos hhalf] at hresized
      · rw [hresized, if_neg hhalf]
        exact hc
    · rw [hresized, if_neg hlimit]
      exact hc

/-- `_read_close` drops data. -/
theorem asks_readClose {fuel : ℕ} (hfuel : rs.length < fuel) (hp : c.protocol = .tcp)
    (hs : c.status = .halfclose) :
    Asks B 1024 (readClose fuel) (a, rs) fun r v a' => a' = a ∧
      if v = 0 then c.receipt r = .nothing else c.receipt r = .failed v := by
  induction fuel generalizing rs with
  | zero => exact absurd hfuel (Nat.not_lt_zero _)
  | succ fuel ih =>
    apply asks_turn
    · rintro r ⟨hneg, hintr⟩ rs' hlt
      have hagain : r.errno ≠ EAGAIN := by
        rw [hintr]
        decide
      rw [if_pos hneg, if_neg hagain, if_pos hintr]
      exact ih (by omega)
    · intro r hok hnot rs' E
      refine .ite (fun hneg => ?_) fun hneg => .ite (fun hzero => ?_) fun hzero => ?_
      · refine .ite (fun hagain => ?_) fun hagain => ?_
        · exact .pure ⟨rfl, rfl, receipt_again hneg hagain⟩
        · rw [if_neg fun hintr => hnot ⟨hneg, hintr⟩]
          refine .pure ⟨rfl, rfl, ?_⟩
          rw [if_neg (by split <;> [assumption; decide])]
          exact receipt_error hneg hagain
      · exact .pure ⟨rfl, rfl, receipt_eof hzero⟩
      · refine .pure ⟨rfl, rfl, ?_⟩
        rw [if_pos rfl, Conn.receipt, if_neg hneg, if_neg hzero, if_neg (by simp [hp]), if_pos hs]

/-- `_read`. -/
theorem asks_read (hc : a.slot i = some c) (hp : c.protocol = .tcp) :
    Asks B c.request (read B i) (a, rs) (Reads i c) := by
  have hrequest : c.request = if c.status = .halfclose then 1024 else c.rbuffersz := by
    rw [Conn.request, hp]
  apply doesWith_inner (does_slotAt hc) (.slotAt i) (.slotAt i)
  rintro s _ ⟨rfl, hs⟩
  apply asks_answersLeft
  rw [show s.status = c.status from congrArg Conn.status hs.conn_eq,
    show s.rbuffersz = c.rbuffersz from congrArg Conn.rbuffersz hs.conn_eq, hrequest]
  by_cases h : c.status = .halfclose
  -- half-closed: the bytes are thrown away, and only an error matters
  · rw [if_pos h, if_pos h]
    refine .bind (asks_readClose (Nat.lt_succ_self _) hp h) ?_
    rintro err ⟨a, rs'⟩ ⟨r, hr, hok, rfl, herr⟩
    apply doesWith_inner (does_setErr err) (.setErr err) (.write _)
    rintro _ _ rfl
    refine .ite (fun hne => ?_) fun hz => ?_
    · rw [if_neg hne] at herr
      apply doesWith_inner (does_closeSocket (a := a.setErr err) hc) (.closeSocket B i) (.closeSocket B i)
      rintro _ _ rfl
      refine .pure ⟨r, hr, hok, reads_of_failed herr ⟨rfl, ?_, ?_⟩⟩
      · simp
      · rw [Abs.close_err]
        rfl
    · rw [if_pos (not_not.mp hz)] at herr
      exact .pure ⟨r, hr, hok, reads_of_nothing herr ⟨rfl, hc⟩⟩
  · rw [if_neg h, if_neg h]
    exact asks_readLoop (Nat.lt_succ_self _) hc hp h

/-- The loop of `_readfd`. -/
theorem asks_readfdLoop {fuel : ℕ} (hfuel : rs.length < fuel) (hc : a.slot i = some c)
    (hp : c.protocol = .ipc) :
    Asks B RECVMSG_MAXSIZE (readfdLoop B i fuel) (a, rs) (Reads i c) := by
  induction fuel generalizing rs with
  | zero => exact absurd hfuel (Nat.not_lt_zero _)
  | succ fuel ih =>
    refine asks_readTurn hc (fun rs' hlt => ih (by omega)) fun r hpos hlen rs' E => ?_
    have hreceipt : c.receipt r = if r.trunc then .failed LS_ERR_TRUNC
        else if r.cmsgLen = CMSG_LEN_INT then
          if r.cmsgLevel ≠ SOL_SOCKET ∨ r.cmsgType ≠ SCM_RIGHTS then .failed LS_ERR_CMSGTYPE
          else .data (intBytes r.cmsgFd ++ r.bytes)
        else .data r.bytes := by
      rw [Conn.receipt, if_neg (by omega), if_neg (by omega), if_pos hp]
    have hsame : a.slot i = some (c.resized r.ret) := by
      rw [Conn.resized, if_neg (by simp [hp]), hc]
    have hfail {err : ℤ} (h : c.receipt r = .failed err) :
        Prog.Refines (RepWith B) E (readFail B i err) (a, rs') fun v y =>
          y.2 = rs' ∧ Reads i c r v y.1 := by
      refine (refines_readFail err hc).mono ?_
      rintro v y ⟨hrs, hv⟩
      exact ⟨hrs, reads_of_failed h hv⟩
    refine .ite (fun htrunc => hfail (hreceipt.trans (if_pos htrunc))) fun htrunc => ?_
    rw [if_neg htrunc] at hreceipt
    refine .ite (fun hcmsg => ?_) fun hcmsg => ?_
    · rw [if_pos hcmsg] at hreceipt
      refine .ite (fun htype => hfail (hreceipt.trans (if_pos htype))) fun htype => ?_
      rw [if_neg htype] at hreceipt
      refine refines_data hreceipt ?_ hsame
      simp only [ReadResult.block, List.length_append, length_intBytes]
      omega
    · rw [if_neg hcmsg] at hreceipt
      exact refines_data hreceipt hlen.symm hsame

/-- `_readfd`. -/
theorem asks_readfd (hc : a.slot i = some c) (hp : c.protocol = .ipc) :
    Asks B c.request (readfd B i) (a, rs) (Reads i c) := by
  have hrequest : c.request = RECVMSG_MAXSIZE := by rw [Conn.request, hp]
  apply doesWith_inner (does_slotAt hc) (.slotAt i) (.slotAt i)
  rintro s _ ⟨rfl, hs⟩
  rw [show s.protocol = .ipc from (congrArg Conn.protocol hs.conn_eq).trans hp, hrequest]
  refine .ite (fun h => absurd rfl h) fun _ => ?_
  apply asks_answersLeft
  exact asks_readfdLoop (Nat.lt_succ_self _) hc hp

/-- `socket_read`, on a slot that has a routine for reading. -/
theorem asks_socketRead (hc : a.slot i = some c) (hp : c.protocol ≠ .udp) (hi : i < a.max) :
    Asks B c.request (socketRead B i) (a, rs) (Reads i c) := by
  apply doesWith_inner (does_socketOf (by omega) (by omega)) (.socketOf _) (.socketOf _)
  rintro r _ (⟨rfl, hnone, rfl⟩ | ⟨d, rfl, hd, rfl⟩)
  · rw [Int.toNat_natCast, hc] at hnone
    cases hnone
  obtain rfl : c = d := Option.some.inj (hc.symm.trans hd)
  apply doesWith_inner (does_slotAt hc) (.slotAt i) (.slotAt i)
  rintro s _ ⟨rfl, hs⟩
  have hs' : s.protocol = c.protocol := congrArg Conn.protocol hs.conn_eq
  rcases h : s.protocol with _ | _ | _ <;> rw [h] at hs'
  · exact asks_read hc hs'.symm
  · exact absurd hs'.symm hp
  · exact asks_readfd hc hs'.symm

/-- However often it is interrupted, a read returns, with what it makes of the answer that comes then. -/
theorem socketRead_returns {intr : List Reply} {r : Reply} (rest : List Reply) (hw : Rep B w a)
    (hc : a.slot i = some c) (hp : c.protocol ≠ .udp) (hintr : ∀ x ∈ intr, x.Failed ∧ x.errno = EINTR)
    (hok : r.Outcome c.request) (hnot : ¬ r.Interrupted) :
    ∃ v w' a', socketRead B i (w.answer (intr ++ r :: rest)) = (.ok v, w') ∧ Rep B w' a' ∧
      Reads i c r v a' := by
  have hask : Asks B c.request (socketRead B i) (a, intr ++ r :: rest) (Reads i c) :=
    asks_socketRead hc hp (hw.max_eq ▸ hw.lt_max hc)
  obtain ⟨v, w', ⟨a', rs'⟩, hrun, ⟨hw', -⟩, x, hx, -, hreads⟩ :=
    hask.returns (fun _ hno => hno (answered_append hintr hok hnot)) ⟨hw.answer _, rfl⟩
  have hskip : ∀ x ∈ intr, x.Interrupted := by
    intro x hx
    obtain ⟨⟨hret, -⟩, herrno⟩ := hintr x hx
    exact ⟨by omega, herrno⟩
  rw [uninterrupted_append hskip hnot] at hx
  obtain ⟨rfl, -⟩ := Prod.mk.inj (Option.some.inj hx)
  exact ⟨v, w', a', hrun, hw', hreads⟩

/-- `socket_read` on a udp slot asks nothing, and leaves the slot as it is. -/
theorem refines_socketRead_udp {E : Fault → Prop} (hc : a.slot i = some c) (hp : c.protocol = .udp)
    (hi : i < a.max) : Prog.Refines (RepWith B) E (socketRead B i) (a, rs) fun v y =>
      v.n = -1 ∧ y.1 = a := by
  apply doesWith_inner (does_socketOf (by omega) (by omega)) (.socketOf _) (.socketOf _)
  rintro r _ (⟨rfl, hnone, rfl⟩ | ⟨d, rfl, hd, rfl⟩)
  · rw [Int.toNat_natCast, hc] at hnone
    cases hnone
  obtain rfl : c = d := Option.some.inj (hc.symm.trans hd)
  apply doesWith_inner (does_slotAt hc) (.slotAt i) (.slotAt i)
  rintro s _ ⟨rfl, hs⟩
  have hs' : s.protocol = c.protocol := congrArg Conn.protocol hs.conn_eq
  rw [hs', hp]
  exact .pure ⟨rfl, rfl⟩

/-! ## The contract -/

/-- What has come with an answer, as the reader is to get it: a descriptor stands before the data. -/
def Reply.block (p : Protocol) (r : Reply) : List UInt8 :=
  if p = .ipc ∧ r.cmsgLen = CMSG_LEN_INT then intBytes r.cmsgFd ++ r.bytes else r.bytes

/-- Why an answer ends a connection. -/
def Reply.reason (r : Reply) : ℤ :=
  if r.ret < 0 then r.errno
  else if r.ret = 0 then LS_ERR_EOF
  else if r.trunc then LS_ERR_TRUNC
  else LS_ERR_CMSGTYPE

/-- What the caller of `socket_read` relies on. -/
structure ReadContract (p : Protocol) (i : ℕ) (r : Reply) (v : ReadResult) (w' : World σ) : Prop where
  data : 0 < v.n → w'.Live i ∧ v.block = r.block p ∧ v.n = v.block.length
  nothing : v.n = 0 → w'.Live i
  freed_iff : v.n = -1 ↔ ¬ w'.Live i
  reason : v.n = -1 → w'.net.err = r.reason ∧ w'.net.err ≠ 0
  range : -1 ≤ v.n

/-- However often it is interrupted, and whatever comes then, a read returns and keeps to the contract. -/
def KeepsReadContract (B : Backend σ) (w : World σ) (i : ℕ) (c : Conn) : Prop :=
  ∀ intr r rest, (∀ x ∈ intr, x.Failed ∧ x.errno = EINTR) → r.Outcome c.request → ¬ r.Interrupted →
    ∃ v w', socketRead B i (w.answer (intr ++ r :: rest)) = (.ok v, w') ∧
      ReadContract c.protocol i r v w'

/-- The error of an answer that closes the slot. -/
theorem receipt_failed {r : Reply} {sz err : ℤ} (hok : r.Outcome sz)
    (h : c.receipt r = .failed err) : err = r.reason ∧ err ≠ 0 := by
  unfold Conn.receipt at h
  unfold Reply.reason
  -- the order of the tests is the source's: the error, the end, then the control message
  by_cases hneg : r.ret < 0
  · obtain ⟨-, herrno⟩ := hok.resolve_right fun h => by omega
    have herr : r.errno ≠ 0 := by omega
    rw [if_pos hneg, if_pos herr] at h
    split at h
    · cases h
    · cases h
      exact ⟨(if_pos hneg).symm, herr⟩
  rw [if_neg hneg] at h
  rw [if_neg hneg]
  by_cases hzero : r.ret = 0
  · rw [if_pos hzero] at h
    cases h
    exact ⟨(if_pos hzero).symm, by decide⟩
  rw [if_neg hzero] at h
  rw [if_neg hzero]
  split at h
  · split at h
    · next htrunc =>
      cases h
      exact ⟨(if_pos htrunc).symm, by decide⟩
    · next htrunc =>
      split at h
      · split at h
        · cases h
          exact ⟨(if_neg htrunc).symm, by decide⟩
        · cases h
      · cases h
  · split at h <;> cases h

/-- The block that is handed over. -/
theorem receipt_data {r : Reply} {block : List UInt8} (h : c.receipt r = .data block) :
    0 < r.ret ∧ block = r.block c.protocol := by
  unfold Conn.receipt at h
  unfold Reply.block
  split at h
  · split at h <;> cases h
  next hneg =>
  split at h
  · cases h
  next hzero =>
  refine ⟨by omega, ?_⟩
  split at h
  · next hp =>
    split at h
    · cases h
    split at h
    · next hcmsg =>
      split at h
      · cases h
      · cases h
        rw [if_pos ⟨hp, hcmsg⟩]
    · next hcmsg =>
      cases h
      rw [if_neg fun hand => hcmsg hand.2]
  · next hp =>
    split at h
    · cases h
    · cases h
      rw [if_neg fun hand => hp hand.1]

/-- Every end of a read keeps the contract, but on protocol UDP. -/
theorem Reads.contract {r : Reply} {v : ReadResult} {sz : ℤ} (hok : r.Outcome sz)
    (hw : Rep B w' a) (h : Reads i c r v a) : ReadContract c.protocol i r v w' := by
  have hlive {d : Conn} (hd : a.slot i = some d) : w'.Live i := (hw.live hd).1
  have hgone (hd : a.slot i = none) : ¬ w'.Live i := by
    obtain ⟨-, rfl⟩ := hw
    intro hl
    cases (if_pos hl).symm.trans hd
  have herr' : w'.net.err = a.err := by
    obtain ⟨-, rfl⟩ := hw
    rfl
  unfold Reads at h
  rcases hr : c.receipt r with block | _ | err <;> rw [hr] at h
  · obtain ⟨hn, rfl, hslot⟩ := h
    obtain ⟨hpos, hblock⟩ := receipt_data hr
    exact ⟨fun _ => ⟨hlive hslot, hblock, hn⟩, fun _ => hlive hslot,
      iff_of_false (by omega) (not_not.mpr (hlive hslot)), fun _ => by omega, by omega⟩
  · obtain ⟨hn, hslot⟩ := h
    exact ⟨fun _ => by omega, fun _ => hlive hslot, iff_of_false (by omega) (not_not.mpr (hlive hslot)),
      fun _ => by omega, by omega⟩
  · obtain ⟨hn, hslot, herr⟩ := h
    obtain ⟨rfl, hne⟩ := receipt_failed hok hr
    rw [← herr, ← herr'] at hne
    exact ⟨fun _ => by omega, fun _ => by omega, iff_of_true hn (hgone hslot),
      fun _ => ⟨herr'.trans herr, hne⟩, by omega⟩

/-- `socket_read` keeps to its contract on the slots of every protocol but udp. -/
theorem readContract_iff (h : (net B).Reach w) (hc : w.abs.slot i = some c) :
    KeepsReadContract B w i c ↔ c.protocol ≠ .udp := by
  have hrep := (reach_abs h).1
  have hi : i < w.abs.max := hrep.max_eq ▸ hrep.lt_max hc
  constructor
  · intro hkeeps hp
    obtain ⟨v, w', hrun, hcontract⟩ := hkeeps [] { ret := -1, errno := EAGAIN } []
      (fun x hx => absurd hx List.not_mem_nil) (.inl ⟨rfl, by decide⟩) (by decide)
    obtain ⟨⟨a', rs'⟩, ⟨hrep', -⟩, hv, rfl⟩ :=
      (refines_socketRead_udp (E := fun _ => True) hc hp hi).ok ⟨hrep.answer _, rfl⟩ hrun
    exact hcontract.freed_iff.mp hv (hrep'.live hc).1
  · intro hp intr r rest hintr hok hnot
    obtain ⟨v, w', a', hrun, hrep', hreads⟩ := socketRead_returns rest hrep hc hp hintr hok hnot
    exact ⟨v, w', hrun, hreads.contract hok hrep'⟩

/-- One socket, bound to a descriptor with the protocol. -/
def boundAs (protocol : ℤ) : World Epoll :=
  (fresh epoll 1).next epoll (.bind 5 0 protocol) [{ ret := 0 }, { ret := 0 }]

/-- The slot is bound by one call. -/
theorem boundAs_step (protocol : ℤ) :
    (net epoll).step (fresh epoll 1) ⟨.bind 5 0 protocol, 0⟩ (boundAs protocol) :=
  step_next (w := fresh epoll 1) [{ ret := 0 }, { ret := 0 }] (by decide) (Int.le_of_lt (by decide)) rfl

theorem reach_boundAs (protocol : ℤ) : (net epoll).Reach (boundAs protocol) :=
  .step (.init ⟨1, zeroed, rfl⟩) (boundAs_step protocol)

theorem readContract_iff_ipc :
    KeepsReadContract epoll (boundAs 2) 0 { newConn 5 0 0 2 0 with status := .bind } ↔
      Protocol.ipc ≠ .udp :=
  readContract_iff (reach_boundAs 2) (by decide)

/-- A read on a udp slot returns -1, and leaves the slot as it is. -/
theorem not_readContract_udp : ∃ w : World Epoll, ∃ c, (net epoll).Reach w ∧ w.abs.slot 0 = some c ∧
    c.protocol = .udp ∧ ¬ KeepsReadContract epoll w 0 c := by
  refine ⟨boundAs 1, { newConn 5 0 0 1 0 with status := .bind }, reach_boundAs 1, by decide, by decide, ?_⟩
  intro hkeeps
  obtain ⟨v, w', hrun, hcontract⟩ := hkeeps [] { ret := -1, errno := EAGAIN } []
    (fun x hx => absurd hx List.not_mem_nil) (.inl ⟨rfl, by decide⟩) (by decide)
  have hudp : socketRead epoll 0 ((boundAs 1).answer [{ ret := -1, errno := EAGAIN }]) =
      (.ok { n := -1 }, (boundAs 1).answer [{ ret := -1, errno := EAGAIN }]) := rfl
  obtain ⟨hv, rfl⟩ := Prod.mk.inj (hudp.symm.trans hrun)
  obtain rfl := Except.ok.inj hv
  exact hcontract.freed_iff.mp rfl (by decide)

end Lsocket
