import Lsocket.Net.Reading

/-!
# What an IPC reader can tell

A descriptor that comes with a payload is handed over as four bytes in front of it, in the same block that a
plain payload is handed over in. So two receipts of one kind are told apart, but a plain payload that begins
with the bytes of a number reads like the rest of it with that number as a descriptor (`told_apart_iff`).
-/

namespace Lsocket

open CInt

variable {σ : Type} {B : Backend σ} {i j : ℕ} {c c' : Conn} {w w' : World σ}
variable {r r' : Reply} {v v' : ReadResult}

/-! ## Receipts -/

/-- The descriptor that comes with an answer to `recvmsg`, if one does. -/
def Reply.passed (r : Reply) : Option ℤ := if r.cmsgLen = CMSG_LEN_INT then some r.cmsgFd else none

/-- An answer that `_readfd` accepts. -/
structure Reply.Accepted (r : Reply) : Prop where
  outcome : r.Outcome RECVMSG_MAXSIZE
  pos : 0 < r.ret
  untruncated : r.trunc = false
  rights : r.cmsgLen = CMSG_LEN_INT → r.cmsgLevel = SOL_SOCKET ∧ r.cmsgType = SCM_RIGHTS
  descriptor : IsInt r.cmsgFd

/-- The same payload, with the same descriptor or with none. -/
def Reply.Same (r r' : Reply) : Prop := r.bytes = r'.bytes ∧ r.passed = r'.passed

/-- A plain payload that begins like a descriptor, and goes on like the payload that comes with it. -/
def Reply.Forges (r r' : Reply) : Prop :=
  r.passed = none ∧ ∃ fd, r'.passed = some fd ∧ r.bytes = intBytes fd ++ r'.bytes

/-- The block in which a receipt is handed over. -/
def receiptBlock : Option ℤ → List UInt8 → List UInt8
  | some fd, bytes => intBytes fd ++ bytes
  | none, bytes => bytes

/-- `socket_read` meets with the answer, perhaps after interruptions, and returns `v`. -/
def Receives (B : Backend σ) (w : World σ) (i : ℕ) (r : Reply) (v : ReadResult) : Prop :=
  ∃ intr rest w', (∀ x ∈ intr, x.Failed ∧ x.errno = EINTR) ∧
    socketRead B i (w.answer (intr ++ r :: rest)) = (.ok v, w')

/-- A message that is accepted did arrive. -/
theorem Reply.Accepted.not_interrupted (h : r.Accepted) : ¬ r.Interrupted := by
  rintro ⟨hneg, -⟩
  have := h.pos
  omega

/-- What a read makes of an answer that is accepted. -/
theorem Reply.Accepted.receipt (h : r.Accepted) (hp : c.protocol = .ipc) :
    c.receipt r = .data (receiptBlock r.passed r.bytes) := by
  have hpos := h.pos
  rw [Conn.receipt, if_neg (by omega), if_neg (by omega), if_pos hp, if_neg (by simp [h.untruncated]),
    Reply.passed]
  by_cases hcmsg : r.cmsgLen = CMSG_LEN_INT
  · obtain ⟨hlevel, htype⟩ := h.rights hcmsg
    rw [if_pos hcmsg, if_pos hcmsg, if_neg (by simp [hlevel, htype])]
    rfl
  · rw [if_neg hcmsg, if_neg hcmsg]
    rfl

/-- What is handed over for an answer that is accepted. -/
theorem Receives.block (hv : Receives B w i r v) (h : (net B).Reach w) (hc : w.abs.slot i = some c)
    (hp : c.protocol = .ipc) (hr : r.Accepted) :
    v.n = v.block.length ∧ v.block = receiptBlock r.passed r.bytes := by
  obtain ⟨intr, rest, w', hintr, hrun⟩ := hv
  have hudp : c.protocol ≠ .udp := by
    rw [hp]
    decide
  have hout : r.Outcome c.request := by
    rw [Conn.request, hp]
    exact hr.outcome
  obtain ⟨v', w'', a', hrun', -, hreads⟩ :=
    socketRead_returns rest (reach_abs h).1 hc hudp hintr hout hr.not_interrupted
  obtain ⟨hv, -⟩ := Prod.mk.inj (hrun.symm.trans hrun')
  obtain rfl := Except.ok.inj hv
  rw [Reads, hr.receipt hp] at hreads
  obtain ⟨hn, hblock, -⟩ := hreads
  rw [hblock]
  exact ⟨hn, rfl⟩

/-! ## Blocks -/

/-- Numbers of type `int` are told apart by their bytes. -/
theorem intBytes_injective {n m : ℤ} (hn : IsInt n) (hm : IsInt m) (h : intBytes n = intBytes m) :
    n = m := by
  have hbyte (k : ℕ) (hk : k < 4) : n / 256 ^ k % 256 = m / 256 ^ k % 256 := by
    have hget := congrArg (fun l => l[k]?) h
    simp only [intBytes, List.getElem?_map, List.getElem?_range hk, Option.map_some,
      Option.some.injEq] at hget
    have hnat := congrArg UInt8.toNat hget
    simp only [UInt8.toNat_ofNat'] at hnat
    omega
  have h0 : n / 1 % 256 = m / 1 % 256 := hbyte 0 (by decide)
  have h1 : n / 256 % 256 = m / 256 % 256 := hbyte 1 (by decide)
  have h2 : n / 65536 % 256 = m / 65536 % 256 := hbyte 2 (by decide)
  have h3 : n / 16777216 % 256 = m / 16777216 % 256 := hbyte 3 (by decide)
  unfold IsInt INT_MAX at hn hm
  omega

/-- A descriptor takes the same four bytes of every block. -/
theorem intBytes_append {n m : ℤ} {xs ys : List UInt8} (hn : IsInt n) (hm : IsInt m) :
    intBytes n ++ xs = intBytes m ++ ys ↔ n = m ∧ xs = ys := by
  constructor
  · intro h
    have hlen : (intBytes n).length = (intBytes m).length := by
      rw [length_intBytes, length_intBytes]
    obtain ⟨hbytes, htail⟩ := List.append_inj h hlen
    exact ⟨intBytes_injective hn hm hbytes, htail⟩
  · rintro ⟨rfl, rfl⟩
    rfl

/-- A descriptor that is passed is an `int`. -/
theorem Reply.Accepted.passed (h : r.Accepted) {fd : ℤ} (hfd : r.passed = some fd) : IsInt fd := by
  unfold Reply.passed at hfd
  split at hfd
  · cases hfd
    exact h.descriptor
  · cases hfd

/-- Two blocks are the same just for one receipt, or for a plain payload and the descriptor it forges. -/
theorem receiptBlock_eq_iff (hr : r.Accepted) (hr' : r'.Accepted) :
    receiptBlock r.passed r.bytes = receiptBlock r'.passed r'.bytes ↔
      r.Same r' ∨ r.Forges r' ∨ r'.Forges r := by
  unfold Reply.Same Reply.Forges
  rcases hpassed : r.passed with _ | fd <;> rcases hpassed' : r'.passed with _ | fd'
  · simp [receiptBlock]
  · simp [receiptBlock]
  · simp [receiptBlock, eq_comm]
  · rw [receiptBlock, receiptBlock, intBytes_append (hr.passed hpassed) (hr'.passed hpassed')]
    simp [and_comm]

/-- Two receipts on IPC slots read alike just when they are the same, or when one of them is a plain payload
that forges the descriptor of the other. -/
theorem told_apart_iff (h : (net B).Reach w) (hc : w.abs.slot i = some c) (hp : c.protocol = .ipc)
    (h' : (net B).Reach w') (hc' : w'.abs.slot j = some c') (hp' : c'.protocol = .ipc)
    (hr : r.Accepted) (hr' : r'.Accepted) (hv : Receives B w i r v) (hv' : Receives B w' j r' v') :
    v.n = v'.n ∧ v.block = v'.block ↔ r.Same r' ∨ r.Forges r' ∨ r'.Forges r := by
  obtain ⟨hn, hblock⟩ := hv.block h hc hp hr
  obtain ⟨hn', hblock'⟩ := hv'.block h' hc' hp' hr'
  rw [← receiptBlock_eq_iff hr hr', ← hblock, ← hblock']
  constructor
  · exact And.right
  · intro heq
    rw [hn, hn', heq]
    exact ⟨rfl, rfl⟩

/-- The byte 65, with the descriptor 7. -/
def withDescriptor : Reply where
  ret := 1
  bytes := [65]
  cmsgLen := CMSG_LEN_INT
  cmsgLevel := SOL_SOCKET
  cmsgType := SCM_RIGHTS
  cmsgFd := 7

/-- Five bytes without a descriptor. -/
def plainBytes : Reply where
  ret := 5
  bytes := [7, 0, 0, 0, 65]

theorem accepted_withDescriptor : withDescriptor.Accepted :=
  ⟨.inr (by decide), by decide, rfl, fun _ => ⟨rfl, rfl⟩, by decide⟩

theorem accepted_plainBytes : plainBytes.Accepted :=
  ⟨.inr (by decide), by decide, rfl, fun h => absurd h (by decide), by decide⟩

/-- One message comes with a descriptor. -/
theorem receives_withDescriptor :
    Receives epoll (boundAs 2) 0 withDescriptor { n := 5, data := [65], cfd := some 7 } :=
  ⟨[], [], _, nofun, rfl⟩

/-- The other has the same bytes as data. -/
theorem receives_plainBytes :
    Receives epoll (boundAs 2) 0 plainBytes { n := 5, data := [7, 0, 0, 0, 65] } :=
  ⟨[], [], _, nofun, rfl⟩

theorem boundAs_slot :
    (boundAs 2).abs.slot 0 = some { newConn 5 0 0 2 0 with status := .bind } := by decide

theorem told_apart_iff_forged :
    ((5 : ℤ) = 5 ∧
      ReadResult.block { n := 5, data := [7, 0, 0, 0, 65] } =
        ReadResult.block { n := 5, data := [65], cfd := some 7 }) ↔
      plainBytes.Same withDescriptor ∨ plainBytes.Forges withDescriptor ∨
        withDescriptor.Forges plainBytes :=
  told_apart_iff (reach_boundAs 2) boundAs_slot (by decide) (reach_boundAs 2) boundAs_slot (by decide)
    accepted_plainBytes accepted_withDescriptor receives_plainBytes receives_withDescriptor

/-- A plain payload is read as if the descriptor 7 had come with its last byte. -/
theorem not_told_apart : ∃ w : World Epoll, ∃ c r r' v v', (net epoll).Reach w ∧
    w.abs.slot 0 = some c ∧ c.protocol = .ipc ∧ r.Accepted ∧ r'.Accepted ∧
    Receives epoll w 0 r v ∧ Receives epoll w 0 r' v' ∧ v.n = v'.n ∧ v.block = v'.block ∧ ¬ r.Same r' :=
  ⟨boundAs 2, { newConn 5 0 0 2 0 with status := .bind }, plainBytes, withDescriptor, _, _,
    reach_boundAs 2, boundAs_slot, by decide, accepted_plainBytes, accepted_withDescriptor,
    receives_plainBytes, receives_withDescriptor, rfl, by decide, fun h => absurd h.1 (by decide)⟩

end Lsocket
