import Lsocket.Net.Results
import Lsocket.Net.Stream

/-!
# The limit of a send queue

A send adds the size of what it is going to queue to `sbuffersz`, and closes the connection if the
sum is over the limit. The sum is an `int`: as long as it stays in the range, `sbuffersz` is the
number of bytes queued, and the limit holds. A sum out of the range is negative, and under any limit.
-/

namespace Lsocket

open CInt

variable {σ : Type} {B : Backend σ} {w w' : World σ} {a a' : Abs σ} {i j : ℕ} {c c' : Conn} {op : Op}
variable {b : Chunk} {rs : List Reply} {r : Option Reply} {v : ℤ} {np np' : σ} {evs : List Ev}

/-! ## The bytes queued -/

/-- How many bytes are queued on a connection. -/
def Conn.pending (c : Conn) : ℤ := (c.queue.flatMap Chunk.bytes).length

/-- The sizes of chunks with something left to send are their numbers of bytes. -/
theorem sum_sz_eq {p : Protocol} {q : List Chunk} (h : ∀ b ∈ q, b.Ok p) :
    (q.map Chunk.sz).sum = (q.flatMap Chunk.bytes).length := by
  induction q with
  | nil => rfl
  | cons b q ih =>
    have hb := h b List.mem_cons_self
    have hpos := hb.pos
    rw [List.map_cons, List.sum_cons, List.flatMap_cons, List.length_append, hb.bytes_length,
      ih fun x hx => h x (List.mem_cons_of_mem _ hx)]
    omega

theorem Conn.Queued.pending_eq (h : c.Queued) : (c.queue.map Chunk.sz).sum = c.pending :=
  sum_sz_eq h.ok

theorem Conn.pending_nonneg (c : Conn) : 0 ≤ c.pending := Int.natCast_nonneg _

/-- As long as the bytes queued are in the range of an `int`, their count is exact. -/
theorem Conn.Queued.exact (h : c.Queued) (hle : c.pending ≤ INT_MAX) : c.sbuffersz = c.pending := by
  rw [h.size, h.pending_eq, wrap_of_nonneg c.pending_nonneg hle]

/-! ## Connections within the range -/

/-- A limit is set, and the chunks queued have something left to send, at most as many bytes together
as an `int` can count. -/
structure Conn.Bounded (c : Conn) : Prop where
  ok : ∀ b ∈ c.queue, b.Ok c.protocol
  le : (c.queue.map Chunk.sz).sum ≤ INT_MAX
  limit : 0 < c.slimit

/-- Writing from the front of a queue does not add to it. -/
theorem Drain.bounded (h : Drain i c c' evs) (hc : c.Bounded) : c'.Bounded := by
  induction h with
  | stop => exact hc
  | @part c b q n hq h0 hn hp =>
    have hb := hc.ok b (hq ▸ List.mem_cons_self)
    have hle := hc.le
    rw [hq, List.map_cons, List.sum_cons] at hle
    refine ⟨fun x hx => ?_, ?_, hc.limit⟩
    · rcases List.mem_cons.mp hx with rfl | hx
      · exact hb.advance h0 hn
      · exact hc.ok x (hq ▸ List.mem_cons_of_mem _ hx)
    · rw [List.map_cons, List.sum_cons, hb.advance_sz h0 hn]
      omega
  | @next c c' b q evs hq h ih =>
    have hb := (hc.ok b (hq ▸ List.mem_cons_self)).pos
    have hle := hc.le
    rw [hq, List.map_cons, List.sum_cons] at hle
    refine ih ⟨fun x hx => hc.ok x (hq ▸ List.mem_cons_of_mem _ hx), ?_, hc.limit⟩
    show (q.map Chunk.sz).sum ≤ INT_MAX
    omega

/-- Writing from the queue leaves it in bounds. -/
theorem Flush.bounded (h : Flush B i c np c' np' evs) (hc : c.Bounded) : c'.Bounded := by
  cases h with
  | idle => exact hc
  | rest h => exact h.bounded hc
  | done _ h =>
    have hc' := h.bounded hc
    exact ⟨hc'.ok, hc'.le, hc'.limit⟩

/-- A new connection is in bounds, with any limit. -/
theorem Opening.Makes.bounded {fd slimit udata protocol rlimit : ℤ}
    (h : Opening.Makes B op i (newConn fd slimit udata protocol rlimit) np c' np' evs) :
    c'.Bounded := by
  have hnew {mask : Mask} {status : Status} :
      ({ newConn fd slimit udata protocol rlimit with mask, status } : Conn).Bounded :=
    ⟨fun b hb => absurd hb List.not_mem_nil, show (0 : ℤ) ≤ INT_MAX by decide, limit_pos slimit⟩
  cases h <;> exact hnew

/-- Calls that do not send do not add to a queue. -/
theorem ConnStep.bounded (h : ConnStep B op v i c np c' np' evs) (hop : ¬ op.IsSend)
    (hc : c.Bounded) : c'.Bounded := by
  cases h with
  | tune _ _ _ _ _ hs => exact ⟨hc.ok, hc.le, hs hc.limit⟩
  | received => exact hc
  | enable | half | completed => exact ⟨hc.ok, hc.le, hc.limit⟩
  | whole h | start h | behind h => exact absurd h.isSend hop
  | flushed _ h => exact h.bounded hc

/-- All that is not a send leaves the connections in bounds. -/
theorem Changes.bounded (h : Changes B op v a a') (hop : ¬ op.IsSend)
    (ha : ∀ i c, a.slot i = some c → c.Bounded) : ∀ i c, a'.slot i = some c → c.Bounded := by
  induction h with
  | refl => exact ha
  | tail _ h ih =>
    exact h.forall_conn ih (fun _ _ _ _ _ _ _ _ _ _ hm => hm.bounded)
      fun _ _ _ _ _ _ hc hs => hs.bounded hop hc

/-! ## Sends within the range -/

/-- A send adds to a queue no more than an `int` can count. -/
def Fits (a : Abs σ) (op : Op) : Prop :=
  op.IsSend → ∀ c, a.slot op.target = some c → op.Takes c.protocol c.status → c.queue ≠ [] →
    c.pending + op.chunk.sz ≤ INT_MAX

/-- What a send of `b` on `c` has to queue, given the answer to its write: nothing if all is written,
or if the write fails for good. -/
def Conn.remainder (c : Conn) (b : Chunk) (r : Option Reply) : Option Chunk :=
  match r with
  | none => some b
  | some x => if x.Broken ∨ b.sz ≤ x.ret then none else some (b.left c.protocol x.ret)

/-- The send keeps to the limit: the sum does not wrap, `sbuffersz` counts what is queued, what is
queued is within the limit, and a send that goes over it closes the connection. -/
structure SendLimited (a : Abs σ) (op : Op) (rs : List Reply) (a' : Abs σ) : Prop where
  exact : ∀ i c, a'.slot i = some c → c.sbuffersz = c.pending
  noWrap : ∀ c b, a.slot op.target = some c → op.Takes c.protocol c.status →
    c.remainder op.chunk (firstAnswer c rs) = some b →
    wrap (c.sbuffersz + b.sz) = c.sbuffersz + b.sz
  within : ∀ c b c', a.slot op.target = some c → op.Takes c.protocol c.status →
    c.remainder op.chunk (firstAnswer c rs) = some b → a'.slot op.target = some c' →
    c'.queue = c.queue ++ [b] ∧ c'.pending ≤ c'.slimit
  exceeded : ∀ c b, a.slot op.target = some c → op.Takes c.protocol c.status →
    c.remainder op.chunk (firstAnswer c rs) = some b → c.slimit < c.pending + b.bytes.length →
    a'.slot op.target = none ∧ a'.err = LS_ERR_WBUFOVER

theorem firstAnswer_eq_none (h : c.queue ≠ []) : firstAnswer c rs = none := if_neg h

/-- What is left of a chunk after a write of a part. -/
theorem Chunk.Ok.left {p : Protocol} {n : ℤ} (h : b.Ok p) (hn : n < b.sz) : (b.left p n).Ok p := by
  unfold Chunk.left
  split
  · exact h.advance (by omega) hn
  · exact h

/-- What a send has to queue is in order. -/
theorem Conn.remainder_ok {b' : Chunk} (h : c.remainder b r = some b') (hb : b.Ok c.protocol) :
    b'.Ok c.protocol := by
  unfold Conn.remainder at h
  split at h
  · exact Option.some.inj h ▸ hb
  · split at h
    · cases h
    · next hx =>
      rw [not_or] at hx
      exact Option.some.inj h ▸ hb.left (not_le.mp hx.2)

/-- What a send has to queue is queued, or closes the connection, by what the sum wraps to. -/
theorem SendEnd.queues {b' : Chunk} (h : SendEnd B i c b a r v a') (hb : c.remainder b r = some b')
    (hr : c.queue ≠ [] → r = none) :
    (wrap (c.sbuffersz + b'.sz) ≤ c.slimit ∧ ∃ mask, a'.slot i = some { c with
        queue := c.queue ++ [b'], sbuffersz := wrap (c.sbuffersz + b'.sz), mask }) ∨
      (c.slimit < wrap (c.sbuffersz + b'.sz) ∧ a'.slot i = none ∧ a'.err = LS_ERR_WBUFOVER) := by
  -- only two ends leave a remainder: it is queued within the limit, or it closes the slot
  cases h with
  | whole _ hx hsz =>
    rw [hx, Conn.remainder, if_pos (.inr hsz)] at hb
    cases hb
  | @queued x _ mask _ _ hq hx hn hbr hfit =>
    rw [hx, Conn.remainder, if_neg (by simp [hbr, hn])] at hb
    obtain rfl := Option.some.inj hb
    exact .inl ⟨hfit, mask, by simp [hq]⟩
  | behind hq hfit =>
    rw [hr hq] at hb
    obtain rfl := Option.some.inj hb
    exact .inl ⟨hfit, c.mask, by simp⟩
  | exceeded hq hn hbr hover =>
    refine .inr ⟨?_, by simp [Abs.fail, Abs.setErr], rfl⟩
    rcases r with _ | x
    · obtain rfl := Option.some.inj hb
      exact hover
    · have hn : x.ret < b.sz := hn
      rw [Conn.remainder, if_neg (by simp [hbr x rfl, hn])] at hb
      exact Option.some.inj hb ▸ hover
  | broken _ hx hbr =>
    rw [hx, Conn.remainder, if_pos (.inl hbr)] at hb
    cases hb

/-- A send that has nothing to queue leaves the connection as it is, or closes it. -/
theorem SendEnd.queues_nothing (h : SendEnd B i c b a r v a') (hb : c.remainder b r = none)
    (hr : c.queue ≠ [] → r = none) (hc' : a'.slot i = some c') : c' = c := by
  cases h with
  | whole => exact (Option.some.inj ((Abs.put_slot_self ..).symm.trans hc')).symm
  | queued _ hx hn hbr =>
    rw [hx, Conn.remainder, if_neg (by simp [hbr, hn])] at hb
    cases hb
  | behind hq =>
    rw [hr hq] at hb
    cases hb
  | exceeded | broken =>
    simp [Abs.fail, Abs.setErr] at hc'

/-- The bytes queued and those that a send adds are in the range of an `int`. -/
theorem Fits.sum_le {b' : Chunk} (h : Fits a op) (hs : op.IsSend) (hc : a.slot op.target = some c)
    (hok : op.Takes c.protocol c.status) (hb : op.chunk.Ok c.protocol)
    (hb' : c.remainder op.chunk (firstAnswer c rs) = some b') : c.pending + b'.sz ≤ INT_MAX := by
  by_cases hq : c.queue = []
  · have hzero : c.pending = 0 := by simp [Conn.pending, hq]
    have := (Conn.remainder_ok hb' hb).range
    omega
  · rw [firstAnswer_eq_none hq] at hb'
    exact Option.some.inj hb' ▸ h hs c hc hok hq

/-- The connections after a send that fits are within the range. -/
theorem SendCall.bounded (h : SendCall B op a rs v a') (hs : op.IsSend) (hfit : Fits a op)
    (ha : ∀ i c, a.slot i = some c → c.Bounded) : ∀ i c, a'.slot i = some c → c.Bounded := by
  intro i c' hc'
  by_cases hi : i = op.target
  swap
  · exact ha i c' (h.slot_other hi ▸ hc')
  subst hi
  cases h with
  | noSocket | status => exact ha _ _ hc'
  | @sends c _ _ hc hok hsend hend =>
    have hbound := ha _ _ hc
    rcases hb : c.remainder op.chunk (firstAnswer c rs) with _ | b'
    · rw [hend.queues_nothing hb firstAnswer_eq_none hc']
      exact hbound
    have hb' := Conn.remainder_ok hb hsend.ok
    -- the count does not wrap, since what is queued and the remainder fit an `int` together
    have hsum := hfit.sum_le hs hc hok hsend.ok hb
    rcases hend.queues hb firstAnswer_eq_none with ⟨-, mask, hslot⟩ | ⟨-, hnone, -⟩
    · obtain rfl := Option.some.inj (hslot.symm.trans hc')
      refine ⟨fun x hx => ?_, ?_, hbound.limit⟩
      · rcases List.mem_append.mp hx with hx | hx
        · exact hbound.ok x hx
        · exact List.mem_singleton.mp hx ▸ hb'
      · rw [Conn.pending, ← sum_sz_eq hbound.ok] at hsum
        simpa using hsum
    · cases hnone.symm.trans hc'

/-! ## Runs within the range -/

/-- In a run whose sends all fit, every connection is within the range. -/
theorem reach_bounded (h : ((net B).restrict fun w l _ => Fits w.abs l.op).Reach w) :
    ∀ i c, w.abs.slot i = some c → c.Bounded := by
  refine h.invariant (I := fun w => ∀ i c, w.abs.slot i = some c → c.Bounded) ?_
    fun w l w' hreach ih hs => ?_
  · rintro _ ⟨max, junk, rfl⟩ i c hc
    rw [(rep_netCreate max junk).2] at hc
    exact absurd hc.symm (Option.some_ne_none c)
  · obtain ⟨hstep, hfit⟩ := hs
    have hw := hreach.of_restrict
    by_cases hsend : l.op.IsSend
    · obtain ⟨-, hop, rs, hrun⟩ := hstep
      exact (reach_send hw hsend hop hrun).bounded hsend hfit ih
    · exact (step_changes (reach_abs hw).1 hstep).2.bounded hsend ih

/-- Within the range, the count of the bytes queued is exact. -/
structure Conn.Counted (c : Conn) : Prop extends c.Bounded where
  exact : c.sbuffersz = c.pending

theorem Conn.Bounded.counted (h : c.Bounded) (hq : c.Queued) : c.Counted :=
  ⟨h, hq.exact (by rw [Conn.pending, ← sum_sz_eq h.ok]; exact h.le)⟩

/-- What is pending can be counted. -/
theorem Conn.Counted.pending_le (h : c.Counted) : c.pending ≤ INT_MAX := by
  rw [Conn.pending, ← sum_sz_eq h.ok]
  exact h.le

/-- In a run whose sends all fit, the count is exact. -/
theorem reach_counted (h : ((net B).restrict fun w l _ => Fits w.abs l.op).Reach w) :
    ∀ i c, w.abs.slot i = some c → c.Counted := fun i c hc =>
  (reach_bounded h i c hc).counted ((reach_streaming (reach_abs h.of_restrict).2).queued i c hc)

/-! ## The next send -/

/-- A sum out of the range of an `int` is negative. -/
theorem wrap_neg_of_over {x y : ℤ} (hx : x ≤ INT_MAX) (hy : y ≤ INT_MAX) (h : INT_MAX < x + y) :
    wrap (x + y) < 0 := by
  unfold INT_MAX at hx hy h
  unfold wrap
  omega

/-- A send on a connection that takes it gets to its end. -/
theorem SendCall.sendEnd (h : SendCall B op a rs v a') (hc : a.slot op.target = some c)
    (hok : op.Takes c.protocol c.status) :
    op.chunk.Ok c.protocol ∧ SendEnd B op.target c op.chunk a (firstAnswer c rs) v a' := by
  cases h with
  | noSocket hnone => cases hnone.symm.trans hc
  | status hd hno => exact absurd (Option.some.inj (hd.symm.trans hc) ▸ hok) hno
  | @sends d _ _ hd _ hsend hend =>
    obtain rfl : c = d := Option.some.inj (hc.symm.trans hd)
    exact ⟨hsend.ok, hend⟩

/-- A send that does not fit is queued, with a negative count. -/
theorem SendCall.over_of_not_fits (h : SendCall B op a rs v a')
    (ha : ∀ i c, a.slot i = some c → c.Counted) (hfit : ¬ Fits a op) :
    ∃ c, a'.slot op.target = some c ∧ c.sbuffersz < 0 := by
  unfold Fits at hfit
  push Not at hfit
  obtain ⟨-, c, hc, hok, hne, hlt⟩ := hfit
  obtain ⟨hb, hend⟩ := h.sendEnd hc hok
  have hcount := ha _ _ hc
  have hneg := wrap_neg_of_over hcount.pending_le hb.range hlt
  rw [← hcount.exact] at hneg
  have hrem : c.remainder op.chunk (firstAnswer c rs) = some op.chunk := by
    rw [firstAnswer_eq_none hne]
    rfl
  rcases hend.queues hrem firstAnswer_eq_none with ⟨-, mask, hslot⟩ | ⟨hlimit, -⟩
  · exact ⟨_, hslot, hneg⟩
  · have := hcount.limit
    omega

/-- The sum that a send that fits computes. -/
theorem SendCall.sum_eq (h : SendCall B op a rs v a') (hs : op.IsSend)
    (ha : ∀ i c, a.slot i = some c → c.Counted) (hfit : Fits a op) (hc : a.slot op.target = some c)
    (hok : op.Takes c.protocol c.status) (hb : c.remainder op.chunk (firstAnswer c rs) = some b) :
    wrap (c.sbuffersz + b.sz) = c.sbuffersz + b.sz := by
  obtain ⟨hchunk, -⟩ := h.sendEnd hc hok
  have hle := hfit.sum_le hs hc hok hchunk hb
  have hpos := (Conn.remainder_ok hb hchunk).pos
  have hnonneg := c.pending_nonneg
  rw [(ha _ _ hc).exact]
  exact wrap_of_nonneg (by omega) hle

/-- A send that fits keeps to the limit. -/
theorem SendCall.limited (h : SendCall B op a rs v a') (hs : op.IsSend)
    (ha : ∀ i c, a.slot i = some c → c.Counted) (ha' : ∀ i c, a'.slot i = some c → c.Queued)
    (hfit : Fits a op) : SendLimited a op rs a' := by
  have hcount (i : ℕ) (c : Conn) (hc : a'.slot i = some c) : c.Counted :=
    (h.bounded hs hfit (fun i c hc => (ha i c hc).toBounded) i c hc).counted (ha' i c hc)
  refine ⟨fun i c hc => (hcount i c hc).exact, fun c b hc hok hb => h.sum_eq hs ha hfit hc hok hb,
    fun c b c' hc hok hb hc' => ?_, fun c b hc hok hb hlimit => ?_⟩
  · obtain ⟨-, hend⟩ := h.sendEnd hc hok
    rcases hend.queues hb firstAnswer_eq_none with ⟨hle, mask, hslot⟩ | ⟨-, hnone, -⟩
    · obtain rfl := Option.some.inj (hslot.symm.trans hc')
      exact ⟨rfl, (hcount _ _ hc').exact ▸ hle⟩
    · cases hnone.symm.trans hc'
  · obtain ⟨hchunk, hend⟩ := h.sendEnd hc hok
    rcases hend.queues hb firstAnswer_eq_none with ⟨hle, -⟩ | ⟨-, hnone, herr⟩
    · have hb' := Conn.remainder_ok hb hchunk
      have hpos := hb'.pos
      rw [h.sum_eq hs ha hfit hc hok hb, (ha _ _ hc).exact] at hle
      rw [hb'.bytes_length] at hlimit
      omega
    · exact ⟨hnone, herr⟩

/-- In a run whose sends all fit, `sbuffersz` is the number of bytes queued, and the next send keeps
to the limit exactly if it fits; if it does not, its data is queued, with a negative count. -/
theorem limited_of_fits (h : ((net B).restrict fun w l _ => Fits w.abs l.op).Reach w) :
    (∀ i c, w.abs.slot i = some c → c.sbuffersz = c.pending) ∧
      ∀ op rs v w', op.IsSend → op.Allowed w.net.max →
        op.call B (w.answer rs) = (.ok v, w') →
        (SendLimited w.abs op rs w'.abs ↔ Fits w.abs op) ∧
          (¬ Fits w.abs op → ∃ c, w'.abs.slot op.target = some c ∧ c.sbuffersz < 0) := by
  have hcount := reach_counted h
  refine ⟨fun i c hc => (hcount i c hc).exact, fun op rs v w' hs hop hrun => ?_⟩
  have hw := h.of_restrict
  have hcall := reach_send hw hs hop hrun
  have hover := hcall.over_of_not_fits hcount
  refine ⟨⟨fun hlim => ?_, fun hfit => ?_⟩, hover⟩
  · by_contra hfit
    obtain ⟨c, hc, hneg⟩ := hover hfit
    have := c.pending_nonneg
    rw [hlim.exact _ _ hc] at hneg
    omega
  · refine hcall.limited hs hcount (fun i c hc => ?_) hfit
    have hch : Changes B op v w.abs w'.abs := hcall.changes hs
    exact (reach_streaming (hch.reach (reach_abs hw).2)).queued i c hc

/-- As many bytes as an `int` can count. -/
def hugeBytes : List UInt8 := List.replicate INT_MAX.toNat 0

/-- They are as many as an `int` can count. -/
theorem length_hugeBytes : (hugeBytes.length : ℤ) = INT_MAX := by
  rw [hugeBytes, List.length_replicate]
  exact Int.toNat_of_nonneg (by decide)

/-- Nothing can be written, and there is memory for the queue. -/
def delays : List Reply := [{ ret := -1, errno := EAGAIN }, { addr := 0 }, { ret := 0 }]

/-- A connection with so many bytes queued. -/
def filled (bytes : List UInt8) (sz : ℤ) : World Epoll := boundTcp.next epoll (.send 0 ⟨1, bytes⟩ sz) delays

/-- A run in which a send is queued on an empty connection. -/
theorem reach_filled {bytes : List UInt8} {sz : ℤ} (h : (Op.send 0 ⟨1, bytes⟩ sz).Allowed 1)
    (hrun : ((Op.send 0 ⟨1, bytes⟩ sz).call epoll (boundTcp.answer delays)).1 = .ok (-1)) :
    ((net epoll).restrict fun w l _ => Fits w.abs l.op).Reach (filled bytes sz) := by
  have hbound : boundTcp.abs.slot 0 = some { newConn 5 0 0 0 0 with status := .bind } := by decide
  refine .step (l := ⟨.send 0 ⟨1, bytes⟩ sz, -1⟩) (s := boundTcp)
    (.step (l := ⟨.bind 5 0 0, 0⟩) (s := fresh epoll 1) (.init ⟨1, zeroed, rfl⟩) ⟨?_, nofun⟩) ⟨?_, ?_⟩
  · exact step_next [{ ret := 0 }, { ret := 0 }] (by decide) (by decide) (by decide)
  · exact step_next _ (by decide) h hrun
  · intro _ c hc _ hne
    obtain rfl := Option.some.inj (hbound.symm.trans hc)
    exact absurd rfl hne

/-- A run in which the send is as long as possible. -/
theorem reach_filled_max {bytes : List UInt8} (h : INT_MAX ≤ bytes.length) :
    ((net epoll).restrict fun w l _ => Fits w.abs l.op).Reach (filled bytes INT_MAX) :=
  reach_filled ⟨by decide, by decide, by decide, h⟩ rfl

/-- One more byte. -/
def oneMore : Op := .send 0 ⟨2, [1]⟩ 1

/-- It goes over the limit behind so many bytes, and is queued within it behind a few. -/
theorem limited_of_fits_oneMore :
    (SendLimited (filled hugeBytes INT_MAX).abs oneMore [{ addr := 1 }]
        ((filled hugeBytes INT_MAX).next epoll oneMore [{ addr := 1 }]).abs ↔
      Fits (filled hugeBytes INT_MAX).abs oneMore) ∧
    SendLimited (filled [1, 2, 3] 3).abs oneMore [{ addr := 1 }]
      ((filled [1, 2, 3] 3).next epoll oneMore [{ addr := 1 }]).abs := by
  refine ⟨((limited_of_fits (reach_filled_max length_hugeBytes.ge)).2 oneMore [{ addr := 1 }] 0 _ trivial
    ⟨by decide, by decide⟩ (Prod.ext rfl rfl)).1, ?_⟩
  have hreach : ((net epoll).restrict fun w l _ => Fits w.abs l.op).Reach (filled [1, 2, 3] 3) :=
    reach_filled (by decide) (by decide)
  refine ((limited_of_fits hreach).2 oneMore [{ addr := 1 }] 0 _ trivial ⟨by decide, by decide⟩
    (Prod.ext (by decide) rfl)).1.mpr fun _ c hc _ _ => ?_
  have hslot : (filled [1, 2, 3] 3).abs.slot 0 = some { newConn 5 0 0 0 0 with
      status := .bind, mask := ⟨false, true⟩, queue := [⟨3, -1, some 1, some [1, 2, 3]⟩], sbuffersz := 3 } := by
    decide
  obtain rfl := Option.some.inj (hslot.symm.trans hc)
  decide

/-- The connection afterwards. -/
def overfilled (bytes : List UInt8) : Conn :=
  { newConn 5 0 0 0 0 with
    status := .bind
    mask := ⟨false, true⟩
    queue := [⟨INT_MAX, -1, some 1, some bytes⟩, ⟨1, -1, some 2, some [1]⟩]
    sbuffersz := -2147483648 }

/-- One byte more is pending than an `int` can count. -/
theorem overfilled_pending {bytes : List UInt8} (h : INT_MAX ≤ bytes.length) :
    (overfilled bytes).pending = INT_MAX + 1 := by
  have htake : (bytes.take INT_MAX.toNat).length = INT_MAX.toNat := by
    rw [List.length_take]
    omega
  show (((bytes.take INT_MAX.toNat ++ [1]).length : ℕ) : ℤ) = _
  rw [List.length_append, htake]
  rfl

/-- The byte is queued behind the others, over the limit. -/
theorem not_limited_oneMore : ∃ w w' : World Epoll, ∃ op rs v,
    ((net epoll).restrict fun w l _ => Fits w.abs l.op).Reach w ∧ op.IsSend ∧
    op.Allowed w.net.max ∧ op.call epoll (w.answer rs) = (.ok v, w') ∧
    (∃ c, w'.abs.slot op.target = some c ∧ c.slimit < c.pending) ∧
    ¬ SendLimited w.abs op rs w'.abs := by
  have hpending := overfilled_pending length_hugeBytes.ge
  refine ⟨filled hugeBytes INT_MAX, (filled hugeBytes INT_MAX).next epoll oneMore [{ addr := 1 }], oneMore,
    [{ addr := 1 }], 0, reach_filled_max length_hugeBytes.ge, trivial, ⟨by decide, by decide⟩,
    Prod.ext rfl rfl, ⟨overfilled hugeBytes, rfl, ?_⟩, fun hlim => ?_⟩
  · rw [hpending]
    decide
  · have hexact := hlim.exact 0 (overfilled hugeBytes) rfl
    rw [hpending] at hexact
    revert hexact
    decide

end Lsocket
