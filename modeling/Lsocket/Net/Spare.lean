import Lsocket.Lib.Account
import Lsocket.Net.Model

/-!
# Descriptors that no slot has

A call opens a descriptor, and gives it to a slot or closes it again; `_close_socket` closes it with its
slot. On every path of a call that opens its descriptors itself, and does not block, what is open beside
what slots have is the same at the end as at the start (`keeps_op`).
-/

namespace Lsocket

open Prog CInt

variable {σ : Type} {B : Backend σ} {d : ℤ} {op : Op}

/-! ## What is open and in no slot -/

/-- By how much the event changes how often `d` is open, less how often slots have it. -/
def Ev.shift (d : ℤ) : Ev → ℤ
  | .acquired fd | .closed _ fd _ => if fd = d then 1 else 0
  | .released fd | .opened _ fd _ => if fd = d then -1 else 0
  | _ => 0

/-- How often `d` is open, less how often slots have it. -/
def spare (d : ℤ) (log : List Ev) : ℤ := (log.map (Ev.shift d)).sum

def World.spare (d : ℤ) (w : World σ) : ℤ := Lsocket.spare d w.log

/-! ## The calls -/

theorem adds_emit (e : Ev) : Adds (World.spare (σ := σ) d) (emit e) fun _ => e.shift d :=
  .write fun w => by simp [World.spare, Lsocket.spare, add_comm]

theorem keeps_emit {e : Ev} (he : e.shift d = 0) : Keeps (World.spare (σ := σ) d) (emit e) := by
  have h := adds_emit (σ := σ) (d := d) e
  rwa [he] at h

theorem keeps_write {g : World σ → World σ} (h : ∀ w, (g w).log = w.log) :
    Keeps (World.spare d) (Prog.write g : NetM σ Unit) :=
  .write fun w => by rw [World.spare, h, add_zero, World.spare]

theorem keeps_call (ok : Reply → Prop) [DecidablePred ok] :
    Keeps (World.spare (σ := σ) d) (call ok) := .zoom fun _ _ => rfl

theorem keeps_poller {α : Type} (p : Prog Fault (σ × Os) α) : Keeps (World.spare d) (poller p) :=
  .zoom fun _ _ => rfl

theorem keeps_setErr (err : ℤ) : Keeps (World.spare (σ := σ) d) (setErr err) := keeps_write fun _ => rfl

theorem keeps_slotAt (i : ℕ) : Keeps (World.spare (σ := σ) d) (slotAt i) :=
  .seq (.read _) fun _ => .seq (.check _ _) fun _ => .pure rfl

theorem keeps_setSlot (i : ℕ) (f : Socket → Socket) : Keeps (World.spare (σ := σ) d) (setSlot i f) :=
  .seq (.read _) fun _ => .seq (.check _ _) fun _ => keeps_write fun _ => rfl

theorem keeps_nodeAt (p : Option ℕ) : Keeps (World.spare (σ := σ) d) (nodeAt p) :=
  .seq (.read _) fun _ => .demand _ _

theorem keeps_mallocNode (b : SBuffer) : Keeps (World.spare (σ := σ) d) (mallocNode b) :=
  .seq (.read _) fun _ => .seq (keeps_call _) fun _ => .seq (keeps_write fun _ => rfl) fun _ => .pure rfl

theorem keeps_freeData (b : Option ℕ) : Keeps (World.spare (σ := σ) d) (freeData b) := by
  cases b with
  | none => exact .pure rfl
  | some token => exact keeps_emit rfl

theorem keeps_socketWrite (i : ℕ) (data : List UInt8) (sz : ℤ) :
    Keeps (World.spare (σ := σ) d) (socketWrite i data sz) :=
  .seq (keeps_call _) fun _ => .ite (fun _ => .seq (keeps_emit rfl) fun _ => .pure rfl) fun _ => .pure rfl

theorem keeps_sendfd (i : ℕ) (data : Option (List UInt8)) (sz cfd : ℤ) :
    Keeps (World.spare (σ := σ) d) (sendfd i data sz cfd) :=
  .seq (keeps_call _) fun _ => .ite (fun _ => .seq (keeps_emit rfl) fun _ => .pure rfl) fun _ => .pure rfl

theorem keeps_setFlags : Keeps (World.spare (σ := σ) d) setFlags :=
  .seq (keeps_call _) fun _ => .ite (fun _ => .pure rfl) fun _ => .seq (keeps_call _) fun _ => .pure rfl

theorem keeps_socketOf (id : ℤ) : Keeps (World.spare (σ := σ) d) (socketOf id) :=
  .seq (.read _) fun _ => .seq (.check _ _) fun _ => .seq (keeps_slotAt _) fun _ =>
    .ite (fun _ => .pure rfl) fun _ => .seq (keeps_setErr _) fun _ => .pure rfl

theorem keeps_subscribe (i : ℕ) (mask : Mask) : Keeps (World.spare d) (subscribe B i mask) :=
  .seq (keeps_slotAt _) fun _ => .ite (fun _ => .pure rfl) fun _ =>
    .seq (keeps_poller _) fun _ => .seq (keeps_emit rfl) fun _ =>
      .ite (fun _ => .seq (keeps_setSlot _ _) fun _ => .pure rfl) fun _ => .pure rfl

theorem keeps_simpleCall : Keeps (World.spare (σ := σ) d) simpleCall := keeps_call _

theorem keeps_getaddrinfo : Keeps (World.spare (σ := σ) d) getaddrinfo :=
  .seq (keeps_call _) fun _ => .ite (fun _ => .pure rfl) fun _ => .seq (keeps_emit rfl) fun _ => .pure rfl

theorem keeps_freeQueue (i fuel : ℕ) : Keeps (World.spare (σ := σ) d) (freeQueue i fuel) := by
  induction fuel with
  | zero => exact .fault _
  | succ fuel ih =>
    refine .seq (keeps_slotAt _) fun s => ?_
    cases s.head with
    | none => exact .pure rfl
    | some p =>
      exact .seq (keeps_nodeAt _) fun _ => .seq (keeps_setSlot _ _) fun _ =>
        .seq (keeps_freeData _) fun _ => .seq (keeps_write fun _ => rfl) fun _ => ih

theorem keeps_appendFree (i : ℕ) : Keeps (World.spare (σ := σ) d) (appendFree i) :=
  .seq (.read _) fun _ => .ite
    (fun _ => .seq (keeps_write fun _ => rfl) fun _ => keeps_write fun _ => rfl)
    fun _ => .seq (.demand _ _) fun _ => .seq (keeps_slotAt _) fun _ => .seq (.check _ _) fun _ =>
      .seq (keeps_setSlot _ _) fun _ => keeps_write fun _ => rfl

theorem keeps_releaseSlot (i : ℕ) : Keeps (World.spare (σ := σ) d) (releaseSlot i) :=
  .seq (keeps_setSlot _ _) fun _ => .seq (.read _) fun _ => .seq (keeps_freeQueue _ _) fun _ =>
    .seq (keeps_setSlot _ _) fun _ => keeps_appendFree _

theorem keeps_readClose (fuel : ℕ) : Keeps (World.spare (σ := σ) d) (readClose fuel) := by
  induction fuel with
  | zero => exact .fault _
  | succ fuel ih =>
    exact .seq (keeps_call _) fun _ => .ite
      (fun _ => .ite (fun _ => .pure rfl) fun _ => .ite (fun _ => ih) fun _ => .pure rfl)
      fun _ => .ite (fun _ => .pure rfl) fun _ => .pure rfl

theorem keeps_headNode (i : ℕ) : Keeps (World.spare (σ := σ) d) (headNode i) := by
  refine .seq (keeps_slotAt _) fun s => ?_
  cases s.head with
  | none => exact .pure rfl
  | some p => exact .seq (keeps_nodeAt _) fun _ => .pure rfl

theorem keeps_setHead (i : ℕ) (f : SBuffer → SBuffer) : Keeps (World.spare (σ := σ) d) (setHead i f) :=
  .seq (keeps_slotAt _) fun _ => .seq (.demand _ _) fun _ => .seq (keeps_nodeAt _) fun _ =>
    keeps_write fun _ => rfl

theorem keeps_popHead (i : ℕ) : Keeps (World.spare (σ := σ) d) (popHead i) :=
  .seq (keeps_slotAt _) fun _ => .seq (.demand _ _) fun _ => .seq (keeps_nodeAt _) fun _ =>
    .seq (keeps_setSlot _ _) fun _ => .seq (keeps_freeData _) fun _ => keeps_write fun _ => rfl

theorem keeps_sendBufferTcp (i fuel : ℕ) : Keeps (World.spare (σ := σ) d) (sendBufferTcp i fuel) := by
  induction fuel with
  | zero => exact .fault _
  | succ fuel ih =>
    refine .seq (keeps_headNode _) fun b => ?_
    cases b with
    | none => exact .pure rfl
    | some b =>
      refine .seq (keeps_socketWrite _ _ _) fun r => .ite (fun _ => ?_) fun _ => .ite (fun _ => ?_)
        fun _ => .seq (keeps_setSlot _ _) fun _ => .seq (keeps_popHead _) fun _ => ih
      · exact .ite (fun _ => .pure rfl) fun _ => .ite (fun _ => ih) fun _ => .pure rfl
      · exact .seq (keeps_setHead _ _) fun _ => .seq (keeps_setSlot _ _) fun _ => .pure rfl

theorem keeps_sendBufferIpc (i fuel : ℕ) : Keeps (World.spare (σ := σ) d) (sendBufferIpc i fuel) := by
  induction fuel with
  | zero => exact .fault _
  | succ fuel ih =>
    refine .seq (keeps_headNode _) fun b => ?_
    cases b with
    | none => exact .pure rfl
    | some b =>
      refine .seq (keeps_sendfd _ _ _ _) fun r => .ite (fun _ => ?_) fun _ => .ite (fun _ => .pure rfl)
        fun _ => .ite (fun _ => ?_)
          fun _ => .seq (keeps_setSlot _ _) fun _ => .seq (keeps_popHead _) fun _ => ih
      · exact .ite (fun _ => .pure rfl) fun _ => .ite (fun _ => ih) fun _ => .pure rfl
      · exact .seq (keeps_setHead _ _) fun _ => .seq (keeps_setSlot _ _) fun _ => .pure rfl

theorem keeps_sendBuffer (i : ℕ) : Keeps (World.spare d) (sendBuffer B i) := by
  refine .seq (keeps_slotAt _) fun s => .ite (fun _ => .pure rfl) fun _ => .seq (.read _) fun fuel =>
    .seq ?_ fun _ => .ite (fun _ => ?_) fun _ => .pure rfl
  · cases s.protocol with
    | tcp => exact keeps_sendBufferTcp i fuel
    | ipc => exact keeps_sendBufferIpc i fuel
    | udp => exact .pure rfl
  · exact .seq (keeps_slotAt _) fun _ =>
      .ite (fun _ => .seq (keeps_subscribe _ _) fun _ => .pure rfl) fun _ => .pure rfl

theorem keeps_raise (e : SocketEvent) : Keeps (World.spare (σ := σ) d) (raise e) :=
  .seq (keeps_emit rfl) fun _ => .pure rfl

theorem keeps_pollRead (i : ℕ) (udata : ℤ) (ie : NpEvent) :
    Keeps (World.spare (σ := σ) d) (pollRead i udata ie) :=
  .ite (fun _ => keeps_raise _) fun _ => .pure rfl

theorem adds_socketCloseFd (fd : ℤ) :
    Adds (World.spare d) (socketCloseFd B fd) fun _ => if fd = d then -1 else 0 :=
  .seq (keeps_write fun _ => rfl) fun _ => adds_emit _

/-- Closing a slot closes its descriptor with it. -/
theorem keeps_closeSocket (hd : STDERR_FILENO < d) (i : ℕ) :
    Keeps (World.spare d) (closeSocket B i) := by
  refine .seq (keeps_slotAt _) fun s => .ite (fun _ => .pure rfl) fun _ => ?_
  refine .bind (adds_emit _) fun _ => .ite (fun _ => ?_) fun hstd => ?_
  · refine .bind (adds_socketCloseFd s.fd) fun _ => ?_
    have hzero : 0 - (Ev.closed i s.fd s.mask).shift d - (if s.fd = d then -1 else 0) = 0 := by
      simp only [Ev.shift]
      split <;> rfl
    rw [hzero]
    exact keeps_releaseSlot i
  · have hne : s.fd ≠ d := by omega
    have hzero : 0 - (Ev.closed i s.fd s.mask).shift d = 0 := by
      simp only [Ev.shift, if_neg hne, sub_zero]
    rw [hzero]
    exact keeps_releaseSlot i

/-- Giving a descriptor to a slot. -/
theorem adds_createSocket (fd slimit udata protocol : ℤ) :
    Adds (World.spare (σ := σ) d) (createSocket fd slimit udata protocol) fun r =>
      if r.isSome ∧ fd = d then -1 else 0 := by
  refine .seq (.check _ _) fun _ => .seq (.read _) fun n => ?_
  cases n.freeSocket with
  | none => exact .seq (keeps_emit rfl) fun _ => .pure rfl
  | some i =>
    refine .seq (keeps_slotAt _) fun _ => .seq (keeps_write fun _ => rfl) fun _ =>
      .seq (keeps_setSlot _ _) fun _ => .bind (adds_emit _) fun _ => .pure ?_
    simp [Ev.shift]

/-! ## The interface, but for the calls that open -/

section Calls

variable (hd : STDERR_FILENO < d)

include hd

theorem keeps_socketClose (id : ℤ) (force : Bool) : Keeps (World.spare d) (socketClose B id force) := by
  refine .seq (keeps_socketOf _) fun r => ?_
  cases r with
  | none => exact .pure rfl
  | some i =>
    exact .seq (keeps_slotAt _) fun _ => .ite
      (fun _ => .seq (keeps_closeSocket hd _) fun _ => .pure rfl)
      fun _ => .seq (keeps_setSlot _ _) fun _ => .seq (.read _) fun _ => .seq (keeps_emit rfl) fun _ =>
        .pure rfl

theorem keeps_closeAll (k i : ℕ) : Keeps (World.spare d) (closeAll B k i) := by
  induction k generalizing i with
  | zero => exact .pure rfl
  | succ k ih =>
    exact .seq (keeps_slotAt _) fun _ => .ite (fun _ => .seq (keeps_closeSocket hd _) fun _ => ih _)
      fun _ => ih _

theorem keeps_netFree : Keeps (World.spare d) (netFree B) :=
  .seq (.read _) fun _ => .seq (keeps_closeAll hd _ _) fun _ => keeps_emit rfl

theorem keeps_readFail (i : ℕ) (err : ℤ) : Keeps (World.spare d) (readFail B i err) :=
  .seq (keeps_closeSocket hd _) fun _ => .seq (keeps_setErr _) fun _ => .pure rfl

theorem keeps_readLoop (i : ℕ) (sz : ℤ) (fuel : ℕ) : Keeps (World.spare d) (readLoop B i sz fuel) := by
  induction fuel with
  | zero => exact .fault _
  | succ fuel ih =>
    have hdone (bytes : List UInt8) (r : ReadResult) : Keeps (World.spare (σ := σ) d) (do
        emit (.received i bytes none)
        pure r) := .seq (keeps_emit rfl) fun _ => .pure rfl
    refine .seq (keeps_call _) fun r => .ite (fun _ => ?_) fun _ =>
      .ite (fun _ => keeps_readFail hd _ _) fun _ => ?_
    · exact .ite (fun _ => .pure rfl) fun _ => .ite (fun _ => ih) fun _ => keeps_readFail hd _ _
    · refine .seq (keeps_slotAt _) fun s => .ite (fun _ => .ite (fun _ => ?_) fun _ => ?_)
        fun _ => hdone _ _
      · exact .seq (keeps_setSlot _ _) fun _ => hdone _ _
      · exact .ite (fun _ => .seq (keeps_setSlot _ _) fun _ => hdone _ _) fun _ => hdone _ _

theorem keeps_read (i : ℕ) : Keeps (World.spare d) (read B i) :=
  .seq (keeps_slotAt _) fun _ => .seq (.read _) fun _ => .ite
    (fun _ => .seq (keeps_readClose _) fun _ => .seq (keeps_setErr _) fun _ =>
      .ite (fun _ => .seq (keeps_closeSocket hd _) fun _ => .pure rfl) fun _ => .pure rfl)
    fun _ => keeps_readLoop hd _ _ _

theorem keeps_readfdLoop (i fuel : ℕ) : Keeps (World.spare d) (readfdLoop B i fuel) := by
  induction fuel with
  | zero => exact .fault _
  | succ fuel ih =>
    have hdone (e : Ev) (he : e.shift d = 0) (r : ReadResult) : Keeps (World.spare (σ := σ) d) (do
        emit e
        pure r) := .seq (keeps_emit he) fun _ => .pure rfl
    refine .seq (keeps_call _) fun r => .ite (fun _ => ?_) fun _ =>
      .ite (fun _ => keeps_readFail hd _ _) fun _ => .ite (fun _ => keeps_readFail hd _ _) fun _ => ?_
    · exact .ite (fun _ => .pure rfl) fun _ => .ite (fun _ => ih) fun _ => keeps_readFail hd _ _
    · exact .ite (fun _ => .ite (fun _ => keeps_readFail hd _ _) fun _ => hdone _ rfl _)
        fun _ => hdone _ rfl _

theorem keeps_readfd (i : ℕ) : Keeps (World.spare d) (readfd B i) :=
  .seq (keeps_slotAt _) fun _ => .ite (fun _ => .seq (keeps_setErr _) fun _ => .pure rfl) fun _ =>
    .seq (.read _) fun _ => keeps_readfdLoop hd _ _

theorem keeps_socketRead (id : ℤ) : Keeps (World.spare d) (socketRead B id) := by
  refine .seq (keeps_socketOf _) fun r => ?_
  cases r with
  | none => exact .pure rfl
  | some i =>
    refine .seq (keeps_slotAt _) fun s => ?_
    cases s.protocol with
    | tcp => exact keeps_read hd i
    | ipc => exact keeps_readfd hd i
    | udp => exact .pure rfl

theorem keeps_errout (i : ℕ) (data : Option ℕ) (err : ℤ) : Keeps (World.spare d) (errout B i data err) :=
  .seq (keeps_freeData _) fun _ => .seq (keeps_closeSocket hd _) fun _ => .seq (keeps_setErr _) fun _ =>
    .pure rfl

theorem keeps_sendRest (i : ℕ) (c : Chunk) (n : ℤ) : Keeps (World.spare d) (sendRest B i c n) :=
  .seq (keeps_setSlot _ _) fun _ => .seq (keeps_slotAt _) fun _ => .ite (fun _ => keeps_errout hd _ _ _)
    fun _ => .seq (.seq (keeps_mallocNode _) fun _ => keeps_setSlot _ _) fun _ =>
      .seq (keeps_slotAt _) fun _ => .seq (keeps_subscribe _ _) fun _ => .pure rfl

theorem keeps_sendBehind (i : ℕ) (c : Chunk) : Keeps (World.spare d) (sendBehind B i c) :=
  .seq (keeps_setSlot _ _) fun _ => .seq (keeps_slotAt _) fun _ => .ite (fun _ => keeps_errout hd _ _ _)
    fun _ => .seq (.seq (keeps_mallocNode _) fun _ => .seq (keeps_slotAt _) fun _ =>
      .seq (.demand _ _) fun _ => .seq (keeps_nodeAt _) fun _ => .seq (.check _ _) fun _ =>
        .seq (keeps_write fun _ => rfl) fun _ => keeps_setSlot _ _) fun _ => .pure rfl

theorem keeps_socketSend (id : ℤ) (data : Block) (sz : ℤ) :
    Keeps (World.spare d) (socketSend B id data sz) := by
  refine .seq (.check _ _) fun _ => .seq (keeps_socketOf _) fun r => ?_
  cases r with
  | none => exact .seq (keeps_freeData _) fun _ => .pure rfl
  | some i =>
    refine .seq (keeps_slotAt _) fun s => .ite (fun _ => ?_) fun _ => .seq (keeps_emit rfl) fun _ =>
      .ite (fun _ => .seq (keeps_socketWrite _ _ _) fun r => ?_) fun _ => keeps_sendBehind hd _ _
    · exact .seq (keeps_freeData _) fun _ => .seq (keeps_setErr _) fun _ => .pure rfl
    · exact .ite (fun _ => .seq (keeps_freeData _) fun _ => .pure rfl) fun _ =>
        .ite (fun _ => keeps_sendRest hd _ _ _) fun _ =>
          .ite (fun _ => keeps_sendRest hd _ _ _) fun _ => keeps_errout hd _ _ _

theorem keeps_socketSendfd (id : ℤ) (data : Option Block) (sz cfd : ℤ) :
    Keeps (World.spare d) (socketSendfd B id data sz cfd) := by
  refine .seq (.check _ _) fun _ => .seq (keeps_socketOf _) fun r => ?_
  cases r with
  | none => exact .seq (keeps_freeData _) fun _ => .pure rfl
  | some i =>
    refine .seq (keeps_slotAt _) fun s => .ite (fun _ => ?_) fun _ => .seq (keeps_emit rfl) fun _ =>
      .ite (fun _ => .seq (keeps_sendfd _ _ _ _) fun r => ?_) fun _ => keeps_sendBehind hd _ _
    · exact .seq (keeps_freeData _) fun _ => .seq (keeps_setErr _) fun _ => .pure rfl
    · exact .ite (fun _ => .seq (keeps_freeData _) fun _ => .pure rfl) fun _ =>
        .ite (fun _ => keeps_sendRest hd _ _ _) fun _ => .ite (fun _ => keeps_sendRest hd _ _ _) fun _ =>
          .ite (fun _ => keeps_sendRest hd _ _ _) fun _ => keeps_errout hd _ _ _

theorem keeps_onconnect (i : ℕ) : Keeps (World.spare d) (onconnect B i) :=
  .seq (keeps_call _) fun _ => .seq (.read _) fun _ => .ite
    (fun _ => .seq (keeps_slotAt _) fun _ => .seq (keeps_emit rfl) fun _ => .seq (keeps_setSlot _ _) fun _ =>
      .seq (keeps_subscribe _ _) fun _ => .pure rfl)
    fun _ => .seq (keeps_closeSocket hd _) fun _ => .pure rfl

theorem keeps_pollConn (i : ℕ) (ie : NpEvent) : Keeps (World.spare d) (pollConn B i ie) := by
  have hend (e : SocketEvent) : Keeps (World.spare d) (do
      let es ← raise e
      closeSocket B i
      pure es) := .seq (keeps_raise _) fun _ => .seq (keeps_closeSocket hd _) fun _ => .pure rfl
  exact .seq (keeps_slotAt _) fun _ => .ite
    (fun _ => .seq (keeps_sendBuffer _) fun _ => .ite (fun _ => hend _) fun _ =>
      .seq (keeps_slotAt _) fun _ => .ite (fun _ => hend _) fun _ => keeps_pollRead _ _ _)
    fun _ => keeps_pollRead _ _ _

/-! ## The calls that open -/

/-- A call that returns a descriptor. -/
theorem adds_descriptorCall :
    Adds (World.spare (σ := σ) d) descriptorCall fun r => if r.ret = d then 1 else 0 := by
  refine .seq (keeps_call _) fun r => .ite (fun _ => ?_) fun hneg => .pure ?_
  · exact .bind (adds_emit _) fun _ => .pure (sub_self _)
  · have hne : r.ret ≠ d := fun h => hneg (h ▸ by
      unfold STDERR_FILENO at hd
      omega)
    exact if_neg hne

end Calls

variable {α : Type}

/-- A descriptor that is at hand is closed. -/
theorem adds_giveUp {p : NetM σ α} (fd : ℤ) {k : α → ℤ} (hp : Adds (World.spare d) p k) :
    Adds (World.spare d) (do
        socketCloseFd B fd
        p) fun b => k b - if fd = d then 1 else 0 := by
  refine .bind (adds_socketCloseFd fd) fun _ => ?_
  have hback (b : α) : (k b - if fd = d then 1 else 0) - (if fd = d then -1 else 0) = k b := by
    split <;> omega
  simpa only [hback] using hp

/-- A descriptor that is at hand is given to a slot, if there is one. -/
theorem adds_place {fd slimit udata protocol : ℤ} {f : Option ℕ → NetM σ α}
    (hnone : Adds (World.spare d) (f none) fun _ => 0 - if fd = d then 1 else 0)
    (hsome : ∀ i, Keeps (World.spare d) (f (some i))) :
    Adds (World.spare d) (createSocket fd slimit udata protocol >>= f) fun _ =>
      0 - if fd = d then 1 else 0 := by
  refine .bind (adds_createSocket _ _ _ _) fun r => ?_
  cases r with
  | none => simpa using hnone
  | some i =>
    have hzero : (0 - if fd = d then 1 else 0) - (if (some i).isSome = true ∧ fd = d then -1 else 0)
        = (0 : ℤ) := by
      by_cases h : fd = d <;> simp [h]
    simpa only [hzero] using hsome i

theorem keeps_anyFails {fs : List (NetM σ ℤ)} (h : ∀ f ∈ fs, Keeps (World.spare d) f) :
    Keeps (World.spare d) (anyFails fs) := by
  induction fs with
  | nil => exact .pure rfl
  | cons f fs ih =>
    obtain ⟨hf, hfs⟩ := List.forall_mem_cons.mp h
    exact .seq hf fun _ => .ite (fun _ => .pure rfl) fun _ => ih hfs

/-- The descriptor that a loop over addresses ends with. -/
def Opening.inHand (d : ℤ) : Opening → ℤ
  | .opened fd _ => if fd = d then 1 else 0
  | _ => 0

section Opening

variable (hd : STDERR_FILENO < d)

include hd

/-- The call returned no descriptor. -/
theorem ne_of_failed {r : ℤ} (hr : r < 0) : r ≠ d := by
  unfold STDERR_FILENO at hd
  omega

theorem keeps_accept (lis : ℕ) : Keeps (World.spare d) (accept B lis) := by
  refine .bind (adds_descriptorCall hd) fun r => .ite (fun hr => .pure ?_) fun _ => ?_
  · simp [ne_of_failed hd hr]
  refine .seq keeps_simpleCall fun _ => .seq (keeps_slotAt _) fun _ => adds_place ?_ fun i => ?_
  · exact adds_giveUp _ (.pure rfl)
  · refine .seq keeps_setFlags fun _ => .ite (fun _ => ?_) fun _ => ?_
    · exact .seq (keeps_closeSocket hd _) fun _ => .pure rfl
    · exact .seq (keeps_setSlot _ _) fun _ => .pure rfl

theorem adds_listenLoop (k : ℕ) : Adds (World.spare d) (listenLoop B k) fun e => e.inHand d := by
  induction k with
  | zero => exact .pure rfl
  | succ k ih =>
    refine .bind (adds_descriptorCall hd) fun r => .ite (fun hr => ?_) fun _ => ?_
    · simpa only [if_neg (ne_of_failed hd (show r.ret < 0 by omega)), sub_zero] using ih
    refine .seq (keeps_anyFails (by simp [keeps_setFlags, keeps_simpleCall, Adds.map])) fun b => ?_
    refine .ite (fun _ => ?_) fun _ => .seq keeps_simpleCall fun b => .ite (fun _ => ?_) fun _ => ?_
    · exact .seq (.read _) fun _ => .seq (keeps_setErr _) fun _ => adds_giveUp _ (.pure rfl)
    · exact .seq (.read _) fun _ => .seq (keeps_setErr _) fun _ => adds_giveUp _ ih
    · exact .pure (sub_self _)

theorem adds_connectLoop (k : ℕ) :
    Adds (World.spare d) (connectLoop B false k) fun e => e.inHand d := by
  induction k with
  | zero => exact .pure rfl
  | succ k ih =>
    refine .bind (adds_descriptorCall hd) fun r => .ite (fun hr => ?_) fun _ => ?_
    · simpa only [if_neg (ne_of_failed hd (show r.ret < 0 by omega)), sub_zero] using ih
    -- giving up closes what this round opened, and nothing else
    have hquit : Adds (World.spare d) (do
        setErr (← socketErrno)
        socketCloseFd B r.ret
        pure Opening.abandoned) fun e => e.inHand d - if r.ret = d then 1 else 0 :=
      .seq (.read _) fun _ => .seq (keeps_setErr _) fun _ => adds_giveUp _ (.pure rfl)
    refine .seq keeps_simpleCall fun _ => .ite (fun _ => hquit) fun _ => ?_
    rw [if_neg Bool.false_ne_true]
    refine .seq (keeps_anyFails (by simp [keeps_setFlags])) fun b => .ite (fun _ => hquit) fun _ => ?_
    refine .seq keeps_simpleCall fun c => .ite (fun _ => ?_) fun _ => ?_
    · exact .seq (keeps_setErr _) fun _ => adds_giveUp _ ih
    · rw [if_neg Bool.false_ne_true]
      refine .pure_bind ?_
      rw [if_neg Bool.false_ne_true]
      exact .pure (sub_self _)

theorem keeps_socketListen (udata : ℤ) : Keeps (World.spare d) (socketListen B udata) := by
  refine .seq keeps_getaddrinfo fun r => ?_
  cases r with
  | none => exact .seq (keeps_setErr _) fun _ => .pure rfl
  | some count =>
    refine .seq (keeps_setErr _) fun _ => .bind (adds_listenLoop hd count) fun e => ?_
    cases e with
    | abandoned => exact .pure rfl
    | exhausted =>
      exact .seq (.read _) fun _ => .ite
        (fun _ => .seq (keeps_setErr _) fun _ => .seq (keeps_emit rfl) fun _ => .pure rfl)
        fun _ => .seq (keeps_emit rfl) fun _ => .pure rfl
    | opened fd status =>
      refine .seq (keeps_setErr _) fun _ => .seq (keeps_emit rfl) fun _ => .seq keeps_simpleCall fun r =>
        .ite (fun _ => ?_) fun _ => adds_place ?_ fun i => ?_
      · exact .seq (.read _) fun _ => .seq (keeps_setErr _) fun _ => adds_giveUp _ (.pure rfl)
      · exact .seq (keeps_setErr _) fun _ => adds_giveUp _ (.pure rfl)
      · refine .seq (keeps_subscribe _ _) fun _ => .ite (fun _ => ?_) fun _ => ?_
        · exact .seq (.read _) fun _ => .seq (keeps_setErr _) fun _ => .seq (keeps_closeSocket hd _) fun _ =>
            .pure rfl
        · exact .seq (keeps_setSlot _ _) fun _ => .pure rfl

theorem keeps_socketConnect (udata : ℤ) : Keeps (World.spare d) (socketConnect B false udata) := by
  refine .seq (keeps_setErr _) fun _ => .seq keeps_getaddrinfo fun r => ?_
  cases r with
  | none => exact .seq (keeps_setErr _) fun _ => .pure rfl
  | some count =>
    refine .seq (keeps_setErr _) fun _ => .bind (adds_connectLoop hd count) fun e => ?_
    cases e with
    | abandoned => exact .pure rfl
    | exhausted =>
      exact .seq (.read _) fun _ => .ite
        (fun _ => .seq (keeps_setErr _) fun _ => .seq (keeps_emit rfl) fun _ => .pure rfl)
        fun _ => .seq (keeps_emit rfl) fun _ => .pure rfl
    | opened fd status =>
      refine .seq (keeps_setErr _) fun _ => .seq (keeps_emit rfl) fun _ => adds_place ?_ fun i => ?_
      · exact .seq (keeps_setErr _) fun _ => adds_giveUp _ (.pure rfl)
      · refine .seq (keeps_setSlot _ _) fun _ => .ite (fun _ => .seq (keeps_subscribe _ _) fun _ =>
          .ite (fun _ => ?_) fun _ => ?_) fun _ => .pure rfl
        · exact .seq (.read _) fun _ => .seq (keeps_setErr _) fun _ => .seq (keeps_closeSocket hd _) fun _ =>
            .pure rfl
        · exact .seq (keeps_setErr _) fun _ => .pure rfl

theorem keeps_pollEvent (ie : NpEvent) : Keeps (World.spare d) (pollEvent B ie) := by
  refine .seq (keeps_slotAt _) fun s => ?_
  cases s.status with
  | listening =>
    refine .seq (keeps_accept hd _) fun r => ?_
    cases r with
    | none => exact .pure rfl
    | some c => exact .seq (keeps_slotAt _) fun _ => keeps_raise _
  | connecting => exact .seq (keeps_onconnect hd _) fun _ => keeps_raise _
  | invalid => exact .pure rfl
  | _ => exact keeps_pollConn hd _ ie

theorem keeps_pollLoop (ies : List NpEvent) : Keeps (World.spare d) (pollLoop B ies) := by
  induction ies with
  | nil => exact .pure rfl
  | cons ie ies ih => exact .seq (keeps_pollEvent hd ie) fun _ => .seq ih fun _ => .pure rfl

theorem keeps_socketPoll (timeout : ℤ) : Keeps (World.spare d) (socketPoll B timeout) :=
  .seq (.read _) fun _ => .seq (keeps_poller _) fun _ => .seq (.check _ _) fun _ => keeps_pollLoop hd _

end Opening

/-- A call that works on the slot of an id, if there is one. -/
theorem keeps_onSlot {id : ℤ} {f : Option ℕ → NetM σ α} {x : α} (hnone : f none = Pure.pure x)
    (hsome : ∀ i, Keeps (World.spare d) (f (some i))) : Keeps (World.spare d) (socketOf id >>= f) := by
  refine .seq (keeps_socketOf _) fun r => ?_
  cases r with
  | none => exact hnone ▸ .pure rfl
  | some i => exact hsome i

/-- The call opens its descriptors itself, none of them the `d` of its caller, and does not block. -/
def Op.Spares (d : ℤ) : Op → Prop
  | .bind given _ _ => given ≠ d
  | .connect block _ => block = false
  | _ => True

/-- What is open beside what slots have stays the same. -/
theorem keeps_op (hd : STDERR_FILENO < d) (hop : op.Spares d) : Keeps (World.spare d) (op.call B) := by
  cases op with
  | listen udata => exact keeps_socketListen hd udata
  | connect block udata =>
    obtain rfl : block = false := hop
    exact keeps_socketConnect hd udata
  | bind fd udata protocol =>
    -- the descriptor handed to `bind` is not the spare one
    have hzero (r : Option ℕ) : (if r.isSome ∧ fd = d then -1 else 0) = (0 : ℤ) :=
      if_neg fun h => hop h.2
    refine .bind (adds_createSocket fd 0 udata protocol) fun r => ?_
    simp only [hzero, sub_zero]
    cases r with
    | none => exact .seq (keeps_setErr _) fun _ => .pure rfl
    | some i =>
      refine .seq keeps_setFlags fun _ => .ite (fun _ => ?_) fun _ => ?_
      · exact .seq (.read _) fun _ => .seq (keeps_setErr _) fun _ => .seq (keeps_closeSocket hd _) fun _ =>
          .pure rfl
      · exact .seq (keeps_setSlot _ _) fun _ => .pure rfl
  | close id force => exact keeps_socketClose hd id force
  | send id data sz => exact keeps_socketSend hd id data sz
  | sendfd id data sz cfd => exact keeps_socketSendfd hd id data sz cfd
  | read id => exact .map (keeps_socketRead hd id)
  | enableread id read => exact keeps_onSlot rfl fun i => .seq (keeps_slotAt _) fun _ => keeps_subscribe _ _
  | udata id udata => exact keeps_onSlot rfl fun i => .seq (keeps_setSlot _ _) fun _ => .pure rfl
  | limit id slimit rlimit =>
    refine keeps_onSlot rfl fun i => .seq (keeps_setSlot _ _) fun _ => .ite (fun _ => ?_) fun _ => ?_
    · exact .seq (keeps_setSlot _ _) fun _ => .pure rfl
    · exact .seq (keeps_setSlot _ _) fun _ => .pure rfl
  | address id => exact keeps_onSlot rfl fun i => .seq keeps_simpleCall fun _ => .pure rfl
  | fd id => exact keeps_onSlot rfl fun i => .seq (keeps_slotAt _) fun _ => .pure rfl
  | poll timeout => exact .map (keeps_socketPoll hd timeout)
  | free => exact .map (keeps_netFree hd)

end Lsocket
