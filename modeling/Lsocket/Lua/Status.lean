import Lsocket.Lua.Moves
import Lsocket.Net.Taking

/-!
# What `socket.send` tells

`socket_send` returns a number or -1, `psocket_send` turns it into zero or an error number, `lsend` into
nil or that number, and `socket.send` into true, or nil and a text. The second step has the cases the wrong
way round: -1 becomes zero, and a positive number becomes the field `err` of an event that nobody has set.
So `socket.send` says true of data that were refused (`tells_iff_met`).
-/

namespace Lsocket.Lua

open CInt

variable {σ : Type} {B : Backend σ} {s s' : State σ} {w' : World σ} {id junk n : ℤ} {m : Message}
variable {rs : List Reply} {data : Block} {sz : ℤ}

/-! ## What is told, and what is true -/

/-- `socket_send` takes what `lsend` hands on. Where that is nothing, there is nothing to take. -/
def Message.Taken (B : Backend σ) (w : World σ) (id : ℤ) (m : Message) : Prop :=
  match m.outgoing with
  | none => True
  | some (data, sz) => ∃ n w', socketSend B (wrap id) data sz w = (.ok n, w') ∧
      Took (.send (wrap id) data sz) w.abs w'.abs

/-- The result says true if the data were taken, and else nil and a text, with the entry of the socket
gone. -/
structure Result.Tells (r : Result) (taken : Prop) (id : ℤ) (s' : State σ) : Prop where
  true_iff : r = .values [.true] ↔ taken
  refused : ¬ taken → (∃ t, r = .values [.nil, .text t]) ∧ s'.pool (.id id) = none

/-- `socket.send` returns, and its result tells what happened to the data. -/
def Tells (B : Backend σ) (s : State σ) (id : ℤ) (m : Message) (junk : ℤ) (rs : List Reply) : Prop :=
  ∃ r s', send B id m junk (s.answer rs) = (.ok r, s') ∧
    r.Tells (m.Taken B (s.answer rs).world id) id s'

/-- There is nothing to send; or the socket takes the data, and its first write has written nothing or
`event.err` happens to be zero. -/
def Met (s : State σ) (id : ℤ) (m : Message) (junk : ℤ) (rs : List Reply) : Prop :=
  match m.outgoing with
  | none => True
  | some (data, sz) => ∃ c, s.world.abs.slot (wrap id).toNat = some c ∧
      (Op.send (wrap id) data sz).Takes c.protocol c.status ∧
      Accepts c (Op.send (wrap id) data sz).chunk (firstAnswer c rs) ∧
      (junk = 0 ∨ ∀ x, firstAnswer c rs = some x → x.ret ≤ 0)

/-! ## The layers -/

/-- What `psocket_send` makes of the result of `socket_send`. -/
def recoded (n junk : ℤ) : ℤ := if n ≤ 0 then 0 else junk

/-- What `psocket_send` returns, when `socket_send` returns. -/
theorem psocketSend_run (hr : socketSend B id data sz s.world = (.ok n, w')) :
    psocketSend B id data sz junk s = (.ok (recoded n junk), { s with world := w' }) := by
  have hnet : net (socketSend B id data sz) s = (.ok n, { s with world := w' }) := by
    unfold net
    rw [hr]
  rw [psocketSend, Prog.bind_apply, hnet, recoded]
  dsimp only
  split <;> rfl

/-- Where `socket_send` does not return, nothing above it does. -/
theorem send_stuck {e : Lsocket.Fault} (ho : m.outgoing = some (data, sz))
    (hr : socketSend B (wrap id) data sz s.world = (.error e, w')) :
    (send B id m junk s).1 = .error (.net e) := by
  have hnet : net (socketSend B (wrap id) data sz) s = (.error (.net e), { s with world := w' }) := by
    unfold net
    rw [hr]
  rw [send, lsend_eq, ho]
  simp only [Prog.bind_apply, psocketSend, hnet]

/-- Nothing is sent, and `true` is returned. -/
theorem send_nothing (ho : m.outgoing = none) : send B id m junk s = (.ok (.values [.true]), s) := by
  rw [send, lsend_eq, ho]
  rfl

/-- With nothing to report, `socket.send` returns true. -/
theorem send_taken (ho : m.outgoing = some (data, sz))
    (hr : socketSend B (wrap id) data sz s.world = (.ok n, w')) (h0 : recoded n junk = 0) :
    send B id m junk s = (.ok (.values [.true]), { s with world := w' }) := by
  rw [send, lsend_eq, ho]
  simp only [Prog.bind_apply, psocketSend_run hr, h0]
  rfl

/-- With an error to report, it does not. -/
theorem send_failed {r : Result} (ho : m.outgoing = some (data, sz))
    (hr : socketSend B (wrap id) data sz s.world = (.ok n, w')) (h0 : recoded n junk ≠ 0)
    (hs : send B id m junk s = (.ok r, s')) : r ≠ .values [.true] := by
  rw [send, lsend_eq, ho] at hs
  simp only [Prog.bind_apply, psocketSend_run hr, if_pos h0, Prog.pure_apply] at hs
  rcases hd : disconnect B (.id id) true { s with world := w' } with ⟨e | u, s₁⟩ <;> rw [hd] at hs
  · cases hs
  · obtain ⟨hr, -⟩ := Prod.mk.inj hs
    rw [← Except.ok.inj hr]
    simp

/-! ## Agreement -/

/-- In every run of Lua code, what `socket.send` tells agrees with what happened to the data exactly if the
socket takes the data and nothing has been written at once, or the unset field is zero. -/
theorem tells_iff_met (h : (properScript B).Reach s) (hm : m.Proper)
    (hend : ∀ e, (send B id m junk (s.answer rs)).1 = .error e → e = .error) :
    Tells B s id m junk rs ↔ Met s id m junk rs := by
  have hs := reached_of_script h
  unfold Met
  rcases ho : m.outgoing with _ | ⟨data, sz⟩
  · refine iff_of_true ⟨_, _, send_nothing ho, ?_⟩ trivial
    have htaken : m.Taken B (s.answer rs).world id := by
      unfold Message.Taken
      rw [ho]
      trivial
    exact ⟨iff_of_true rfl htaken, fun hno => absurd htaken hno⟩
  dsimp only
  rcases hr : socketSend B (wrap id) data sz (s.answer rs).world with ⟨e | n, w'⟩
  · cases hend _ (send_stuck ho hr)
  obtain ⟨hpos, hid⟩ := sends_of_ok hr
  obtain ⟨htook, hn⟩ := socketSend_tells hs.1 hs.2 hid (hm.supplies ho hpos) hr
  have htaken : m.Taken B (s.answer rs).world id ↔ Took (.send (wrap id) data sz) s.world.abs w'.abs := by
    unfold Message.Taken
    rw [ho]
    constructor
    · rintro ⟨n', w'', hr', ht⟩
      obtain ⟨-, rfl⟩ := Prod.mk.inj (hr.symm.trans hr')
      exact ht
    · exact fun ht => ⟨n, w', hr, ht⟩
  -- a positive result is taken for an error, whose number is whatever the unset field holds
  by_cases h0 : recoded n junk = 0
  · -- true is returned
    have hrun := send_taken ho hr h0
    have htells : Tells B s id m junk rs ↔ Took (.send (wrap id) data sz) s.world.abs w'.abs := by
      rw [← htaken]
      constructor
      · rintro ⟨r, s', hrun', ht⟩
        obtain ⟨hr, -⟩ := Prod.mk.inj (hrun.symm.trans hrun')
        exact ht.true_iff.mp (Except.ok.inj hr).symm
      · exact fun ht => ⟨_, _, hrun, iff_of_true rfl ht, fun hno => absurd ht hno⟩
    rw [htells, htook]
    refine exists_congr fun c => and_congr_right fun hc => and_congr_right fun hok =>
      (and_iff_left_of_imp fun hacc => ?_).symm
    by_cases hjunk : junk = 0
    · exact .inl hjunk
    · refine .inr fun x hx => ?_
      by_contra hneg
      have : 0 < n := hn.mpr ⟨c, hc, hok, hacc, x, hx, not_le.mp hneg⟩
      rw [recoded, if_neg (by omega)] at h0
      exact hjunk h0
  · -- the data are taken, and an error is made of the positive result
    have hjunk : 0 < n ∧ junk ≠ 0 := by
      unfold recoded at h0
      split at h0
      · exact absurd rfl h0
      · exact ⟨by omega, h0⟩
    obtain ⟨c, hc, hok, hacc, x, hx, hxpos⟩ := hn.mp hjunk.1
    refine iff_of_false ?_ ?_
    · rintro ⟨r, s', hrun, ht⟩
      exact send_failed ho hr h0 hrun (ht.true_iff.mpr (htaken.mpr (htook.mpr ⟨c, hc, hok, hacc⟩)))
    · rintro ⟨d, hd, -, -, hor⟩
      obtain rfl : c = d := Option.some.inj (hc.symm.trans hd)
      have := hor.resolve_left hjunk.2 x hx
      omega

/-- A coroutine has connected. -/
def connectedSteps : List Step :=
  [.resume 1,
    .call .connect [{ count := 1 }, { ret := 5 }, { ret := 0 }, { ret := 0 }, { ret := 0 }, { ret := 0 }]]

/-- The state of the example is reached. -/
theorem reach_connected : (properScript epoll).Reach (after epoll 1 connectedSteps) := by
  obtain ⟨s', hs'⟩ : ∃ s', exec epoll connectedSteps (.initial epoll 1 zeroed) = some s' :=
    Option.isSome_iff_exists.mp (by decide +kernel)
  rw [after, hs']
  refine reach_exec (.init ⟨1, zeroed, rfl⟩) (fun l hl => ?_) hs'
  rcases List.mem_cons.mp hl with rfl | hl
  · trivial
  · rw [List.mem_singleton.mp hl]
    trivial

/-- A byte is queued, and `true` is returned. -/
theorem tells_iff_met_queued :
    Tells epoll (after epoll 1 connectedSteps) 0 (.string [97] none none 1) 7
        [{ ret := -1, errno := EAGAIN }, { addr := 0 }, { ret := 0 }] ↔
      Met (after epoll 1 connectedSteps) 0 (.string [97] none none 1) 7
        [{ ret := -1, errno := EAGAIN }, { addr := 0 }, { ret := 0 }] := by
  refine tells_iff_met reach_connected trivial fun e he => ?_
  have hrun : (send epoll 0 (.string [97] none none 1) 7 ((after epoll 1 connectedSteps).answer
      [{ ret := -1, errno := EAGAIN }, { addr := 0 }, { ret := 0 }])).1 = .ok (.values [.true]) := by
    decide +kernel
  cases hrun.symm.trans he

/-- The write fails for good, the connection is closed, and `socket.send` returns true. -/
theorem not_tells_broken : ∃ s : State Epoll, ∃ id m junk rs, (properScript epoll).Reach s ∧ m.Proper ∧
    (send epoll id m junk (s.answer rs)).1 = .ok (.values [.true]) ∧ ¬ Tells epoll s id m junk rs := by
  have hrun : (send epoll 0 (.string [97] none none 1) 0 ((after epoll 1 connectedSteps).answer
      [{ ret := -1, errno := 32 }])).1 = .ok (.values [.true]) := by
    decide +kernel
  refine ⟨after epoll 1 connectedSteps, 0, .string [97] none none 1, 0, [{ ret := -1, errno := 32 }],
    reach_connected, trivial, hrun, ?_⟩
  rintro ⟨r, s', hs', ht⟩
  rw [hs'] at hrun
  obtain ⟨n, w', hw', -, c, -, hc, -⟩ := ht.true_iff.mp (Except.ok.inj hrun)
  have hnone : (socketSend epoll 0 ⟨1, [97]⟩ 1 ((after epoll 1 connectedSteps).answer
      [{ ret := -1, errno := 32 }]).world).2.abs.slot 0 = none := by
    decide +kernel
  have hw : socketSend epoll 0 ⟨1, [97]⟩ 1 ((after epoll 1 connectedSteps).answer
      [{ ret := -1, errno := 32 }]).world = (.ok n, w') := hw'
  rw [hw] at hnone
  cases hnone.symm.trans hc

end Lsocket.Lua
