import Lsocket.Net.Sending

/-!
# The calls that send

How `socket_send` and `socket_sendfd` end, by what the first write answers (`SendEnd`), and from it
the chains of changes that they make.
-/

namespace Lsocket

open CInt

variable {σ : Type} {B : Backend σ} {a a' : Abs σ} {i j : ℕ} {c : Conn} {op : Op} {b : Chunk}
variable {rs : List Reply} {r : Option Reply} {v : ℤ}

/-! ## The data of a send -/

namespace Op

/-- The slot that a send names. -/
def target : Op → ℕ
  | .send id _ _ | .sendfd id _ _ _ => id.toNat
  | _ => 0

/-- The data of a send. -/
def chunk : Op → Chunk
  | .send _ data sz => { sz, fd := -1, begin := some data.token, ptr := some data.bytes }
  | .sendfd _ data sz cfd =>
    { sz, fd := cfd, begin := data.map Block.token, ptr := data.map Block.bytes }
  | _ => { sz := 0, fd := -1, begin := none, ptr := none }

/-- The protocol and the status of the slot allow the send. -/
def Takes (p : Protocol) (s : Status) : Op → Prop
  | .send .. => p = .tcp ∧ s ≠ .halfclose
  | .sendfd .. => p = .ipc
  | _ => False

instance (p : Protocol) (s : Status) : (op : Op) → Decidable (op.Takes p s)
  | .send .. => inferInstanceAs (Decidable (_ ∧ _))
  | .sendfd .. => inferInstanceAs (Decidable (_ = _))
  | .listen _ | .connect .. | .bind .. | .close .. | .read _ | .enableread .. | .udata .. | .limit ..
  | .address _ | .fd _ | .poll _ | .free => .isFalse id

end Op

/-- What is left of a chunk when a write of it returns `n`. -/
def Chunk.left (p : Protocol) (n : ℤ) (b : Chunk) : Chunk := if 0 < n then b.advance p n else b

/-- What is left of a chunk is in the same block. -/
theorem Chunk.left_begin (p : Protocol) (n : ℤ) (b : Chunk) : (b.left p n).begin = b.begin := by
  unfold left
  split <;> rfl

/-- The write would have to wait, or was interrupted. -/
def Reply.Blocked (r : Reply) : Prop := r.ret < 0 ∧ (r.errno = EAGAIN ∨ r.errno = EINTR)

/-- The write failed for good. -/
def Reply.Broken (r : Reply) : Prop := r.ret < 0 ∧ ¬ (r.errno = EAGAIN ∨ r.errno = EINTR)

instance (r : Reply) : Decidable r.Blocked := inferInstanceAs (Decidable (_ ∧ _))

instance (r : Reply) : Decidable r.Broken := inferInstanceAs (Decidable (_ ∧ _))

/-- The answer that a send gets to its write, if it makes one. -/
def firstAnswer (c : Conn) (rs : List Reply) : Option Reply := if c.queue = [] then rs.head? else none

/-- The number of bytes written, or what the write returned. -/
def written (r : Option Reply) : ℤ := (r.map Reply.ret).getD 0

/-- The net after the connection was closed by a send of `b` whose write returned `n`. -/
def Abs.fail (B : Backend σ) (a : Abs σ) (i : ℕ) (c : Conn) (b : Chunk) (n err : ℤ) : Abs σ :=
  ((a.put i c a.np (b.freed ++ (wrote i c.protocol b n ++ [.offered i b]))).close i B c).setErr err

/-- How a send of `b` ends on a connection, given the answer to its write: what it returns and
leaves. -/
inductive SendEnd (B : Backend σ) (i : ℕ) (c : Conn) (b : Chunk) (a : Abs σ) (r : Option Reply) :
    ℤ → Abs σ → Prop
  | whole {x : Reply} {v : ℤ} (hq : c.queue = []) (hr : r = some x) (h : b.sz ≤ x.ret) (hv : 0 ≤ v) :
      SendEnd B i c b a r v (a.put i c a.np (b.freed ++ wrote i c.protocol b b.sz ++ [.offered i b]))
  | queued {x : Reply} {ret : ℤ} {mask : Mask} {np : σ} {evs : List Ev} (hq : c.queue = [])
      (hr : r = some x) (hn : x.ret < b.sz) (hb : ¬ x.Broken)
      (hfit : wrap (c.sbuffersz + (b.left c.protocol x.ret).sz) ≤ c.slimit)
      (hs : Subscribe B i c.fd c.mask c.mask.withWable a.np ret mask np evs) :
      SendEnd B i c b a r x.ret (a.put i { c with
        queue := [b.left c.protocol x.ret]
        sbuffersz := wrap (c.sbuffersz + (b.left c.protocol x.ret).sz)
        mask } np (evs ++ (wrote i c.protocol b x.ret ++ [.offered i b])))
  | behind (hq : c.queue ≠ []) (hfit : wrap (c.sbuffersz + b.sz) ≤ c.slimit) :
      SendEnd B i c b a r 0 (a.put i { c with
        queue := c.queue ++ [b], sbuffersz := wrap (c.sbuffersz + b.sz) } a.np [.offered i b])
  | exceeded (hq : c.queue = [] ↔ r.isSome) (hn : written r < b.sz) (hb : ∀ x ∈ r, ¬ x.Broken)
      (hover : c.slimit < wrap (c.sbuffersz + (b.left c.protocol (written r)).sz)) :
      SendEnd B i c b a r (-1) (a.fail B i c b (written r) LS_ERR_WBUFOVER)
  | broken {x : Reply} (hq : c.queue = []) (hr : r = some x) (hb : x.Broken) :
      SendEnd B i c b a r (-1) (a.fail B i c b x.ret x.errno)

/-- How a call that sends ends. -/
inductive SendCall (B : Backend σ) (op : Op) (a : Abs σ) (rs : List Reply) : ℤ → Abs σ → Prop
  | noSocket (hc : a.slot op.target = none) :
      SendCall B op a rs (-1) ((a.setErr LS_ERR_NOSOCK).freeData [op.chunk])
  | status {c : Conn} (hc : a.slot op.target = some c) (h : ¬ op.Takes c.protocol c.status) :
      SendCall B op a rs (-1) ((a.freeData [op.chunk]).setErr LS_ERR_STATUS)
  | sends {c : Conn} {v : ℤ} {a' : Abs σ} (hc : a.slot op.target = some c)
      (h : op.Takes c.protocol c.status) (hs : Sends op.target c op.chunk op)
      (hend : SendEnd B op.target c op.chunk a (firstAnswer c rs) v a') : SendCall B op a rs v a'

/-! ## The end of a send -/

/-- The label `errout`. -/
theorem does_errout {np : σ} {evs : List Ev} (err sbuffersz : ℤ) :
    Does B (errout B i b.begin err) (a.put i { c with sbuffersz } np evs) fun v a' =>
      v = -1 ∧ a' = ((a.put i c np (b.freed ++ evs)).close i B c).setErr err := by
  refine .bind (does_freeData b) ?_
  rintro _ _ rfl
  rw [Abs.put_freeData]
  refine .bind (does_closeSocket (Abs.put_slot_self ..)) ?_
  rintro _ _ rfl
  refine .bind (does_setErr err) ?_
  rintro _ _ rfl
  exact .pure ⟨rfl, congrArg (Abs.setErr · err) (Abs.close_put (c := c) np _ _ rfl rfl rfl)⟩

/-- What a send leaves starts the queue, unless it is over the limit. -/
theorem does_sendRest {x : Reply} {b' : Chunk} (hq : c.queue = []) (hn : x.ret < b.sz)
    (hx : ¬ x.Broken) (hb : b.left c.protocol x.ret = b') :
    Does B (sendRest B i b' x.ret)
      (a.put i c a.np (wrote i c.protocol b x.ret ++ [.offered i b]))
      fun v a' => SendEnd B i c b a (some x) v a' := by
  refine .bind (does_setSlot (fun c => { c with sbuffersz := wrap (c.sbuffersz + b'.sz) })
    (Abs.put_slot_self ..) (fun _ _ => rfl) (fun _ => ⟨rfl, rfl⟩) id rfl) ?_
  rintro _ _ rfl
  rw [Abs.put_set]
  refine .bind (does_slotAt (Abs.put_slot_self ..)) ?_
  rintro s _ ⟨rfl, hs⟩
  have hsz : s.sbuffersz = wrap (c.sbuffersz + b'.sz) := congrArg Conn.sbuffersz hs.conn_eq
  have hlimit : s.slimit = c.slimit := congrArg Conn.slimit hs.conn_eq
  rw [hsz, hlimit]
  -- the limit is tested after the count was raised, and the slot closed when it is passed
  refine .ite (fun hover => ?_) fun hover => ?_
  · rw [show b'.begin = b.begin from hb ▸ b.left_begin ..]
    refine (does_errout _ _).mono ?_
    rintro _ _ ⟨rfl, rfl⟩
    exact .exceeded (r := some x) (by simp [hq]) hn (by simpa using hx) (hb ▸ hover)
  refine .bind (does_startQueue _ (Abs.put_slot_self ..)) ?_
  rintro _ _ rfl
  rw [Abs.put_set]
  refine .bind (does_slotAt (Abs.put_slot_self ..)) ?_
  rintro s' _ ⟨rfl, hs'⟩
  have hm : s'.mask = c.mask := congrArg Conn.mask hs'.conn_eq
  rw [hm]
  refine .bind (does_subscribe _ (Abs.put_slot_self ..)) ?_
  rintro r _ ⟨m, np, evs, hsub, rfl⟩
  rw [Abs.put_put]
  subst hb
  exact .pure (.queued hq rfl hn hx (not_lt.mp hover) hsub)

/-- A send on a slot with data queued goes behind them, unless it is over the limit. -/
theorem does_sendBehind (hb : 0 < b.sz) (hq : c.queue ≠ []) :
    Does B (sendBehind B i b) (a.put i c a.np [.offered i b])
      fun v a' => SendEnd B i c b a none v a' := by
  refine .bind (does_setSlot (fun c => { c with sbuffersz := wrap (c.sbuffersz + b.sz) })
    (Abs.put_slot_self ..) (fun _ _ => rfl) (fun _ => ⟨rfl, rfl⟩) id rfl) ?_
  rintro _ _ rfl
  rw [Abs.put_set]
  refine .bind (does_slotAt (Abs.put_slot_self ..)) ?_
  rintro s _ ⟨rfl, hs⟩
  have hsz : s.sbuffersz = wrap (c.sbuffersz + b.sz) := congrArg Conn.sbuffersz hs.conn_eq
  have hlimit : s.slimit = c.slimit := congrArg Conn.slimit hs.conn_eq
  rw [hsz, hlimit]
  refine .ite (fun hover => ?_) fun hover => ?_
  · refine (does_errout _ _).mono ?_
    rintro _ _ ⟨rfl, rfl⟩
    exact .exceeded (r := none) (by simp [hq]) hb (by simp) hover
  refine .bind (does_appendQueue b (Abs.put_slot_self ..) hq) ?_
  rintro _ _ rfl
  rw [Abs.put_set]
  exact .pure (.behind hq (not_lt.mp hover))

/-- All of the data is written at once. -/
theorem does_sendWhole {x : Reply} {v : ℤ} (hq : c.queue = []) (hx : x.ret = b.sz) (hv : 0 ≤ v) :
    Does B (do
        freeData b.begin
        pure v)
      (a.put i c a.np (wrote i c.protocol b x.ret ++ [.offered i b]))
      fun v a' => SendEnd B i c b a (some x) v a' := by
  refine .bind (does_freeData b) ?_
  rintro _ _ rfl
  rw [Abs.put_freeData, ← List.append_assoc, hx]
  exact .pure (.whole hq rfl hx.ge hv)

/-- A write that fails for good fails the send. -/
theorem does_sendFail {x : Reply} (hq : c.queue = []) (hx : x.Broken) :
    Does B (errout B i b.begin x.errno)
      (a.put i c a.np (wrote i c.protocol b x.ret ++ [.offered i b]))
      fun v a' => SendEnd B i c b a (some x) v a' := by
  refine (does_errout (c := c) _ c.sbuffersz).mono ?_
  rintro _ _ ⟨rfl, rfl⟩
  exact .broken hq rfl hx

/-! ## The calls -/

/-- What a tcp connection is left with. -/
theorem Chunk.left_tcp {sz n : ℤ} {data : Block} (hsz : 0 < sz ∧ sz ≤ INT_MAX) (hn : 0 ≤ n) :
    Chunk.left .tcp n ⟨sz, -1, some data.token, some data.bytes⟩ =
      ⟨wrap (sz - n), -1, some data.token, some (data.bytes.drop n.toNat)⟩ := by
  unfold left
  split
  · rfl
  · obtain rfl : n = 0 := by omega
    simp [wrap_of_nonneg hsz.1.le hsz.2]

/-- A send that is rejected frees the data. -/
theorem does_reject (b : Chunk) (err : ℤ) :
    Does B (do
        freeData b.begin
        setErr err
        pure (-1))
      a fun v a' => v = (-1 : ℤ) ∧ a' = (a.freeData [b]).setErr err := by
  refine .bind (does_freeData b) ?_
  rintro _ _ rfl
  refine .bind (does_setErr err) ?_
  rintro _ _ rfl
  exact .pure ⟨rfl, rfl⟩

/-- `socket_send`. -/
theorem doesWith_socketSend {id : ℤ} {data : Block} {sz : ℤ} (hid : Within a.max id)
    (hdata : Supplies (some data) sz) :
    DoesWith B (socketSend B id data sz) (a, rs) fun v x =>
      SendCall B (.send id data sz) a rs v x.1 := by
  obtain ⟨j, rfl⟩ := Int.eq_ofNat_of_zero_le hid.1
  let b : Chunk := { sz, fd := -1, begin := some data.token, ptr := some data.bytes }
  refine doesWith_bind (.check (Q := fun _ a' => a' = a) hdata.1 rfl) (.check _ _) ?_
  rintro _ a rfl
  refine doesWith_bind (does_socketOf hid.1 hid.2) (.socketOf _) ?_
  rintro r a (⟨rfl, hn, rfl⟩ | ⟨c, rfl, hc, rfl⟩)
  · refine .bind (doesWith_any (does_freeData b)) ?_
    rintro _ ⟨_, _⟩ rfl
    exact .pure (.noSocket hn)
  refine doesWith_bind (does_slotAt hc) (.slotAt _) ?_
  rintro s a ⟨rfl, hs⟩
  have hp : s.protocol = c.protocol := congrArg Conn.protocol hs.conn_eq
  have hst : s.status = c.status := congrArg Conn.status hs.conn_eq
  rw [hp, hst]
  refine .ite (fun hno => ?_) fun hok => ?_
  · refine (doesWith_any (does_reject b _)).mono ?_
    rintro _ ⟨_, _⟩ ⟨rfl, rfl⟩
    exact .status hc fun h => hno.elim (· h.1) h.2
  rw [not_or, not_not] at hok
  refine doesWith_bind (does_emit (.offered j b)) (.emit _) ?_
  rintro _ _ rfl
  rw [← Abs.put_emit_self hc]
  have hend {v : ℤ} {a' : Abs σ} (h : SendEnd B j c b a (firstAnswer c rs) v a') :
      SendCall B (.send j data sz) a rs v a' :=
    .sends hc hok (.send hdata hok.1 hok.2 rfl) h
  refine .ite (fun hhead => ?_) fun hhead => ?_
  · have hq := hs.head_iff.mp hhead
    refine .bind (doesWith_write (b := b) sz (Abs.put_slot_self ..) (if_neg (by simp [hok.1]))) ?_
    rintro x ⟨_, _⟩ ⟨hx, rfl, hrs⟩
    rw [Abs.put_put]
    have hfirst : firstAnswer c rs = some x := by rw [firstAnswer, if_pos hq, hrs]; rfl
    refine (doesWith_any (Q := fun v a' => SendEnd B j c b a (some x) v a') ?_).mono
      fun v y h => hend (hfirst ▸ h)
    refine .ite (fun hall => ?_) fun hpart => ?_
    · have hret : x.ret = b.sz := le_antisymm ((hx.nonneg (by have := hdata.1; omega)).2) hall
      exact does_sendWhole hq hret (hret ▸ hdata.1.le)
    have hpart : x.ret < b.sz := not_le.mp hpart
    -- a part was written, or the write would block, or it failed
    refine .ite (fun h0 => ?_) fun h0 => .ite (fun hagain => ?_) fun hbroken => ?_
    · exact does_sendRest hq hpart (fun h => h0.not_gt h.1) (hok.1 ▸ Chunk.left_tcp ⟨hdata.1, hdata.2.1⟩ h0)
    · exact does_sendRest hq hpart (fun h => h.2 hagain) (if_neg (by omega))
    · exact does_sendFail hq ⟨not_le.mp h0, hbroken⟩
  · have hq : c.queue ≠ [] := fun hq => hhead (hs.head_iff.mpr hq)
    refine (doesWith_any (does_sendBehind hdata.1 hq)).mono fun v y h => hend ?_
    rwa [firstAnswer, if_neg hq]

/-- `socket_sendfd`. -/
theorem doesWith_socketSendfd {id : ℤ} {data : Option Block} {sz : ℤ} (cfd : ℤ)
    (hid : Within a.max id) (hdata : Supplies data sz) :
    DoesWith B (socketSendfd B id data sz cfd) (a, rs) fun v x =>
      SendCall B (.sendfd id data sz cfd) a rs v x.1 := by
  obtain ⟨j, rfl⟩ := Int.eq_ofNat_of_zero_le hid.1
  let b : Chunk := { sz, fd := cfd, begin := data.map Block.token, ptr := data.map Block.bytes }
  refine doesWith_bind (.check (Q := fun _ a' => a' = a) (.inl hdata.1) rfl) (.check _ _) ?_
  rintro _ a rfl
  refine doesWith_bind (does_socketOf hid.1 hid.2) (.socketOf _) ?_
  rintro r a (⟨rfl, hn, rfl⟩ | ⟨c, rfl, hc, rfl⟩)
  · refine .bind (doesWith_any (does_freeData b)) ?_
    rintro _ ⟨_, _⟩ rfl
    exact .pure (.noSocket hn)
  refine doesWith_bind (does_slotAt hc) (.slotAt _) ?_
  rintro s a ⟨rfl, hs⟩
  have hp : s.protocol = c.protocol := congrArg Conn.protocol hs.conn_eq
  rw [hp]
  refine .ite (fun hno => ?_) fun hok => ?_
  · refine (doesWith_any (does_reject b _)).mono ?_
    rintro _ ⟨_, _⟩ ⟨rfl, rfl⟩
    exact .status hc hno
  rw [not_not] at hok
  refine doesWith_bind (does_emit (.offered j b)) (.emit _) ?_
  rintro _ _ rfl
  rw [← Abs.put_emit_self hc]
  have hend {v : ℤ} {a' : Abs σ} (h : SendEnd B j c b a (firstAnswer c rs) v a') :
      SendCall B (.sendfd j data sz cfd) a rs v a' :=
    .sends hc hok (.sendfd hdata hok rfl) h
  refine .ite (fun hhead => ?_) fun hhead => ?_
  · have hq := hs.head_iff.mp hhead
    refine .bind (doesWith_write (b := b) sz (Abs.put_slot_self ..) (if_pos hok)) ?_
    rintro x ⟨_, _⟩ ⟨hx, rfl, hrs⟩
    rw [Abs.put_put]
    have hfirst : firstAnswer c rs = some x := by rw [firstAnswer, if_pos hq, hrs]; rfl
    refine (doesWith_any (Q := fun v a' => SendEnd B j c b a (some x) v a') ?_).mono
      fun v y h => hend (hfirst ▸ h)
    refine .ite (fun hall => ?_) fun hpart => ?_
    · have hret : x.ret = b.sz := le_antisymm ((hx.nonneg (by have := hdata.1; omega)).2) hall
      exact does_sendWhole hq hret le_rfl
    have hpart : x.ret < b.sz := not_le.mp hpart
    -- zero is an answer of its own here: nothing went out, and the whole chunk is queued
    have hnothing (h : x.ret ≤ 0) : b.left c.protocol x.ret = b := if_neg (by omega)
    refine .ite (fun hpos => ?_) fun hpos => .ite (fun hzero => ?_) fun hzero =>
      .ite (fun hagain => ?_) fun hbroken => ?_
    · refine does_sendRest hq hpart (fun h => hpos.not_gt h.1) ?_
      rw [hok, Chunk.left, if_pos hpos]
      rfl
    · exact does_sendRest hq hpart (fun h => h.1.ne hzero) (hnothing hzero.le)
    · exact does_sendRest hq hpart (fun h => h.2 hagain) (hnothing (by omega))
    · exact does_sendFail hq ⟨by omega, hbroken⟩
  · have hq : c.queue ≠ [] := fun hq => hhead (hs.head_iff.mpr hq)
    refine (doesWith_any (does_sendBehind hdata.1 hq)).mono fun v y h => hend ?_
    rwa [firstAnswer, if_neg hq]

/-- The calls that send. -/
theorem doesWith_send (h : op.IsSend) (hop : op.Allowed a.max) :
    DoesWith B (op.call B) (a, rs) fun v x => SendCall B op a rs v x.1 := by
  cases op with
  | send id data sz => exact doesWith_socketSend hop.1 hop.2
  | sendfd id data sz cfd => exact doesWith_socketSendfd cfd hop.1 hop.2
  | _ => exact h.elim

/-! ## Sends as changes -/

/-- Freeing the data of a send. -/
theorem Changes.freed {v : ℤ} (h : op.IsSend) (b : Chunk) : Changes B op v a (a.freeData [b]) := by
  unfold Abs.freeData freedLog
  rcases b.begin with _ | token
  · exact .refl
  · exact .single (.note (e := .freed token) trivial fun _ _ => h)

/-- What is left of a chunk is what the connection keeps of it. -/
theorem Chunk.rest_left (p : Protocol) (n : ℤ) (b : Chunk) : Rest p b n (b.left p n) := by
  unfold left
  split
  · exact .some (by omega) fun _ => by omega
  · exact .all (by omega)

/-- Only the calls that send do this. -/
theorem Sends.isSend (h : Sends i c b op) : op.IsSend := by
  cases h <;> trivial

/-- No send is of nothing. -/
theorem Sends.pos (h : Sends i c b op) : 0 < b.sz := by
  cases h with
  | send hdata _ _ hb | sendfd hdata _ hb => exact hb ▸ hdata.1

/-- A send that fails closes the connection. -/
theorem Changes.fail {n err : ℤ} (hc : a.slot i = some c) (h : Sends i c b op) (hn : n < b.sz)
    (hq : c.queue = [] ∨ n ≤ 0) : Changes B op (-1) a (a.fail B i c b n err) :=
  .tail (.single (.close hc (.unsent h rfl hn hq))) (.err err)

/-- Each end of a send is a chain of changes. -/
theorem SendEnd.changes (h : SendEnd B i c b a r v a') (hc : a.slot i = some c)
    (hs : Sends i c b op) (hb : 0 < b.sz) : Changes B op v a a' := by
  cases h with
  | whole hq => exact .single (.conn hc (.whole hs hq))
  | queued hq _ hn _ _ hsub =>
    exact .single (.conn hc (.start hs hq hn (Chunk.rest_left ..) hsub))
  | behind hq => exact .single (.conn hc (.behind hs rfl hq))
  | exceeded hq hn =>
    refine .fail hc hs hn ?_
    by_cases h : c.queue = []
    · exact .inl h
    · have : r = none := by simpa [h] using hq
      exact .inr (by simp [written, this])
  | broken hq _ hx => exact .fail hc hs (hx.1.trans hb) (.inl hq)

/-- What a call that sends does is a chain of changes. -/
theorem SendCall.changes (h : SendCall B op a rs v a') (hop : op.IsSend) : Changes B op v a a' := by
  cases h with
  | noSocket => exact (Changes.single (.err _)).trans (Changes.freed hop _)
  | status => exact .tail (Changes.freed hop _) (.err _)
  | sends hc _ hs hend => exact hend.changes hc hs hs.pos

/-- A send leaves the other slots alone. -/
theorem SendCall.slot_other (h : SendCall B op a rs v a') (hj : j ≠ op.target) :
    a'.slot j = a.slot j := by
  cases h with
  | noSocket | status => rfl
  | sends _ _ _ hend =>
    cases hend with
    | whole | queued | behind => exact Function.update_of_ne hj ..
    | exceeded | broken =>
      show (Abs.close ..).slot j = _
      rw [Abs.close_slot, Abs.put, Function.update_idem, Function.update_of_ne hj]

/-- The calls that send, whatever the system answers. -/
theorem does_send (h : op.IsSend) (hop : op.Allowed a.max) :
    Does B (op.call B) a fun v a' => Changes B op v a a' :=
  does_of_with fun _ => (doesWith_send h hop).mono fun _ _ hs => hs.changes h

end Lsocket
