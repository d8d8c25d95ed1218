import Lsocket.Net.Epoll
import Lsocket.Net.Run

/-!
# What the result of a send tells

`socket_send` and `socket_sendfd` return -1 if they do not take the data. The number that they return
is also what the write returned: a write that would have to wait returns -1 too, but the data is
queued all the same.
-/

namespace Lsocket

open CInt

variable {σ : Type} {B : Backend σ} {w w' : World σ} {a a' : Abs σ} {i : ℕ} {c : Conn} {op : Op}
variable {b : Chunk} {rs : List Reply} {r : Option Reply} {v : ℤ}

/-- The error of a send that closes the connection: that of its write, if it failed for good. -/
def failure (r : Option Reply) : ℤ :=
  match r with
  | some x => if x.Broken then x.errno else LS_ERR_WBUFOVER
  | none => LS_ERR_WBUFOVER

/-- What a send returns tells whether it took the data, and the last error tells why not. -/
structure SendTells (a : Abs σ) (op : Op) (rs : List Reply) (v : ℤ) (a' : Abs σ) : Prop where
  refused_iff : v = -1 ↔ a.slot op.target = none ∨
    (∃ c, a.slot op.target = some c ∧ ¬ op.Takes c.protocol c.status) ∨ a'.slot op.target = none
  noSocket : a.slot op.target = none → a'.err = LS_ERR_NOSOCK
  status : ∀ c, a.slot op.target = some c → ¬ op.Takes c.protocol c.status → a'.err = LS_ERR_STATUS
  closed : ∀ c, a.slot op.target = some c → op.Takes c.protocol c.status →
    a'.slot op.target = none → a'.err = failure (firstAnswer c rs)
  taken : ∀ c, a.slot op.target = some c → op.Takes c.protocol c.status →
    a'.slot op.target ≠ none → 0 ≤ v

/-- The send writes on a connection with an empty queue, and the write would have to wait, or is
interrupted, while all of the data fits into the queue. -/
def WouldBlock (a : Abs σ) (op : Op) (rs : List Reply) : Prop :=
  ∃ c x, a.slot op.target = some c ∧ op.Takes c.protocol c.status ∧ c.queue = [] ∧
    rs.head? = some x ∧ x.Blocked ∧ wrap (c.sbuffersz + op.chunk.sz) ≤ c.slimit

theorem Reply.Blocked.not_broken {x : Reply} (h : x.Blocked) : ¬ x.Broken := fun hb => hb.2 h.2

/-- A connection that a send closes is gone, with the error set. -/
@[simp] theorem Abs.fail_slot (n err : ℤ) : (a.fail B i c b n err).slot i = none := by
  simp [fail, setErr]

/-- The end of a send on a connection tells what happened, if its write did not block. -/
theorem SendEnd.tells (h : SendEnd B i c b a r v a') (hr : ∀ x ∈ r, x.Blocked → a'.slot i = none) :
    (v = -1 ↔ a'.slot i = none) ∧ (a'.slot i = none → a'.err = failure r) ∧
      (a'.slot i ≠ none → 0 ≤ v) := by
  cases h with
  | whole _ _ _ hv => exact ⟨by simp; omega, by simp, fun _ => hv⟩
  | @queued x ret mask np evs _ hx _ hb =>
    have hret : 0 ≤ x.ret := by
      by_contra hneg
      -- an answer below zero here can only be the one that would block
      have hblock : x.Blocked := ⟨not_le.mp hneg, not_not.mp fun h => hb ⟨not_le.mp hneg, h⟩⟩
      simpa using hr x hx hblock
    exact ⟨by simp; omega, by simp, fun _ => hret⟩
  | behind => exact ⟨by simp, by simp, fun _ => le_rfl⟩
  | exceeded _ _ hb =>
    refine ⟨by simp, fun _ => ?_, fun h => absurd (Abs.fail_slot ..) h⟩
    rcases r with _ | x
    · rfl
    · exact (if_neg (hb x rfl)).symm
  | @broken x _ hx hb =>
    refine ⟨by simp, fun _ => ?_, fun h => absurd (Abs.fail_slot ..) h⟩
    rw [hx]
    exact (if_pos hb).symm

/-- A send whose write blocks leaves the connection, with all of the data queued, only if that is
within the limit. -/
theorem SendEnd.blocked {x : Reply} (h : SendEnd B i c b a (some x) v a') (hq : c.queue = [])
    (hx : x.Blocked) (hb : 0 < b.sz) :
    (v = x.ret ∧ a'.slot i ≠ none ∧ wrap (c.sbuffersz + b.sz) ≤ c.slimit) ∨
      (a'.slot i = none ∧ c.slimit < wrap (c.sbuffersz + b.sz)) := by
  have hleft : b.left c.protocol x.ret = b := if_neg (by have := hx.1; omega)
  cases h with
  | whole _ hr hsz =>
    obtain rfl := Option.some.inj hr
    have := hx.1
    omega
  | queued _ hr _ _ hfit =>
    obtain rfl := Option.some.inj hr
    exact .inl ⟨rfl, by simp, hleft ▸ hfit⟩
  | behind hne => exact absurd hq hne
  | exceeded _ _ _ hover =>
    exact .inr ⟨by simp, by simpa [written, hleft] using hover⟩
  | broken _ hr hbr =>
    obtain rfl := Option.some.inj hr
    exact absurd hbr hx.not_broken

/-- The result of a send tells whether the data was taken, unless its write blocks. -/
theorem SendCall.tells_iff (h : SendCall B op a rs v a') :
    SendTells a op rs v a' ↔ ¬ WouldBlock a op rs := by
  cases h with
  | noSocket hc =>
    refine iff_of_true ⟨by simp [hc], fun _ => rfl, ?_, ?_, ?_⟩ ?_
    · simp [hc]
    · simp [hc]
    · simp [hc]
    · rintro ⟨c, x, hc', -⟩
      simp [hc] at hc'
  | @status c hc hno =>
    refine iff_of_true ⟨?_, by simp [hc], fun _ _ _ => rfl, ?_, ?_⟩ ?_
    · exact iff_of_true rfl (.inr (.inl ⟨c, hc, hno⟩))
    · rintro d hd hok
      exact absurd (Option.some.inj (hc ▸ hd) ▸ hok) hno
    · rintro d hd hok
      exact absurd (Option.some.inj (hc ▸ hd) ▸ hok) hno
    · rintro ⟨d, x, hd, hok, -⟩
      exact hno (Option.some.inj (hc ▸ hd) ▸ hok)
  | @sends c v a' hc hok hs hend =>
    constructor
    -- a first write that would block falls through and returns its -1 with the slot still open
    · rintro ht ⟨d, x, hd, -, hq, hx, hblock, hfit⟩
      obtain rfl : c = d := Option.some.inj (hc ▸ hd)
      rw [firstAnswer, if_pos hq, hx] at hend
      rcases hend.blocked hq hblock hs.pos with ⟨rfl, hslot, -⟩ | ⟨-, hover⟩
      · exact absurd (ht.taken c hc hok hslot) (not_le.mpr hblock.1)
      · omega
    · intro hno
      obtain ⟨hiff, hclosed, htaken⟩ := hend.tells fun x hx hblock => by
        by_contra hslot
        have hx : firstAnswer c rs = some x := hx
        have hq : c.queue = [] := by
          by_contra hq
          simp [firstAnswer, hq] at hx
        rcases (hx ▸ hend).blocked hq hblock hs.pos with ⟨-, -, hfit⟩ | ⟨hnone, -⟩
        · rw [firstAnswer, if_pos hq] at hx
          exact hno ⟨c, x, hc, hok, hq, hx, hblock, hfit⟩
        · exact hslot hnone
      have huniq {d : Conn} (hd : a.slot op.target = some d) : c = d := Option.some.inj (hc ▸ hd)
      refine ⟨hiff.trans ?_, by simp [hc], ?_, ?_, fun _ _ _ => htaken⟩
      · simp [hc, hok]
      · exact fun d hd hno => absurd (huniq hd ▸ hok) hno
      · exact fun d hd _ hslot => huniq hd ▸ hclosed hslot

/-- The result of a send tells whether the data was taken, exactly when the write does not block on an
empty queue that has room. -/
theorem send_tells_iff (h : (net B).Reach w) (hs : op.IsSend) (hop : op.Allowed w.net.max)
    (hrun : op.call B (w.answer rs) = (.ok v, w')) :
    SendTells w.abs op rs v w'.abs ↔ ¬ WouldBlock w.abs op rs :=
  (reach_send h hs hop hrun).tells_iff

/-- A connection that takes data. -/
def boundTcp : World Epoll := (fresh epoll 1).after epoll [(.bind 5 0 0, [{ ret := 0 }, { ret := 0 }])]

/-- Two of three bytes are written, and the last one is queued. -/
theorem send_tells_iff_part :
    SendTells boundTcp.abs (.send 0 ⟨1, [1, 2, 3]⟩ 3) [{ ret := 2 }, { addr := 0 }, { ret := 0 }] 2
        (boundTcp.next epoll (.send 0 ⟨1, [1, 2, 3]⟩ 3)
          [{ ret := 2 }, { addr := 0 }, { ret := 0 }]).abs ↔
      ¬ WouldBlock boundTcp.abs (.send 0 ⟨1, [1, 2, 3]⟩ 3)
        [{ ret := 2 }, { addr := 0 }, { ret := 0 }] :=
  send_tells_iff (reach_fresh (by decide)) trivial (by decide) (Prod.ext (by decide +kernel) rfl)

/-- The data is queued, and the result is -1. -/
theorem not_sendTells_blocked : ∃ w w' : World Epoll, ∃ op rs v, (net epoll).Reach w ∧ op.IsSend ∧
    op.Allowed w.net.max ∧ op.call epoll (w.answer rs) = (.ok v, w') ∧
    ¬ SendTells w.abs op rs v w'.abs := by
  let op : Op := .send 0 ⟨1, [1, 2, 3]⟩ 3
  let rs : List Reply := [{ ret := -1, errno := EAGAIN }, { addr := 0 }, { ret := 0 }]
  refine ⟨boundTcp, boundTcp.next epoll op rs, op, rs, -1, reach_fresh (by decide), trivial,
    by decide, Prod.ext (by decide +kernel) rfl, fun ht => ?_⟩
  have hc : boundTcp.abs.slot 0 = some { newConn 5 0 0 0 0 with status := .bind } := by decide
  exact absurd (ht.taken _ hc (by decide) (by decide +kernel)) (by decide)

end Lsocket
