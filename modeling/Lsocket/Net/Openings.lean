import Lsocket.Net.Atomic
import Lsocket.Net.Lockstep

/-!
# The calls that open, in two nets

A call that opens a connection in the next slot does the same in two nets that agree on this slot, with
the same answers (`Opener.Same.agree`). The connection that it makes is the same too, but for its read
limit: neither `_close_socket` nor `_create_socket` resets it, so it is the one that the slot had.
-/

namespace Lsocket

variable {σ α : Type} {B : Backend σ} {P : Pointers B} {w w' w₁ w₁' : World σ} {a a' : Abs σ} {i : ℕ}
variable {c c' : Conn} {x y : View} {rlimit : ℤ} {rs rs' : List Reply}

/-! ## Taking the slot -/

/-- `_create_socket` leaves the read limit as it is. -/
theorem createSocket_run {fd slimit udata protocol : ℤ} {r : Option ℕ} (hf : w.net.freeSocket = some i)
    (hr : createSocket fd slimit udata protocol w = (.ok r, w₁)) :
    0 ≤ fd ∧ r = some i ∧ (w₁.net.sockets i).rlimit = (w.net.sockets i).rlimit := by
  simp only [createSocket, Prog.bind_apply, Prog.read_apply, Prog.check, slotAt, setSlot, emit] at hr
  by_cases hfd : 0 ≤ fd
  swap
  · simp only [if_neg hfd, Prog.fault_apply] at hr
    cases hr
  by_cases hi : i < w.net.max
  swap
  · simp only [if_pos hfd, Prog.pure_apply, hf, Prog.bind_apply, Prog.read_apply, if_neg hi,
      Prog.fault_apply] at hr
    cases hr
  simp only [if_pos hfd, Prog.pure_apply, hf, Prog.bind_apply, Prog.read_apply, if_pos hi,
    Prog.write_apply] at hr
  obtain ⟨h, rfl⟩ := Prod.mk.inj hr
  refine ⟨hfd, (Except.ok.inj h).symm, ?_⟩
  simp

/-- The slot that is free next gets the connection, with the read limit it was left with. -/
theorem twins_createSocket (fd slimit udata protocol : ℤ) :
    Twins P i (createSocket fd slimit udata protocol) (createSocket fd slimit udata protocol)
      (.next rlimit)
      (Gives (some i) (.holds (some (newConn fd slimit udata protocol rlimit)))) := by
  -- what one world alone does: it takes slot `i`, with the `rlimit` left there
  have hrun : ∀ (w : World σ) r w₁, (View.next rlimit).Of B i w →
      createSocket fd slimit udata protocol w = (.ok r, w₁) → r = some i ∧
        (View.holds (some (newConn fd slimit udata protocol rlimit))).Of B i w₁ ∧ w₁.np = w.np := by
    rintro w r w₁ ⟨h, hf, rfl⟩ hr
    obtain ⟨hfd, rfl, hsame⟩ := createSocket_run hf hr
    obtain ⟨_, hrep, ⟨⟨⟩, -⟩ | ⟨j, rest, rlimit, ⟨⟩, -, -, -, ha⟩⟩ :=
      (does_createSocket slimit udata protocol hfd).ok ⟨h, rfl⟩ hr
    have hslot : w₁.abs.slot i = some (newConn fd slimit udata protocol rlimit) := by
      rw [hrep.2, ha]
      exact Function.update_self ..
    have hlimit : (w₁.net.sockets i).rlimit = rlimit :=
      congrArg Conn.rlimit (Rep.live ⟨hrep.1, rfl⟩ hslot).2
    rw [hsame] at hlimit
    rw [hlimit]
    exact ⟨rfl, ⟨hrep.1, hslot⟩, (congrArg Abs.np hrep.2).trans (congrArg Abs.np ha)⟩
  have hsilent := Silent.createSocket (σ := σ) fd slimit udata protocol
  exact twins_of_still hrun hrun (fun _ _ h => h) hsilent.uses hsilent.uses

/-! ## Before the slot is taken -/

theorem twins_simpleCall : Twins P i simpleCall simpleCall x fun r r' y =>
    (∃ addr, r' = { r with addr }) ∧ y = x :=
  (twins_call _).mono fun _ _ _ h => ⟨h.1, h.2.2⟩

/-- A descriptor is opened, the same in both nets. -/
theorem twins_descriptorCall : Twins P i descriptorCall descriptorCall x fun r r' y =>
    (∃ addr, r' = { r with addr }) ∧ y = x := by
  apply Twins.bind (twins_call _)
  rintro r _ _ ⟨⟨addr, rfl⟩, -, rfl⟩
  refine .ite Iff.rfl (fun _ => .bind (twins_emit _ _) ?_) fun _ => .pure ⟨⟨addr, rfl⟩, rfl⟩
  rintro _ _ _ ⟨-, rfl⟩
  exact .pure ⟨⟨addr, rfl⟩, rfl⟩

/-- Flags are set, or cannot be set. -/
theorem twins_setFlags : Twins P i setFlags setFlags x (Same x) := by
  apply Twins.bind (twins_call _)
  rintro r _ _ ⟨⟨addr, rfl⟩, -, rfl⟩
  refine .ite Iff.rfl (fun _ => .pure ⟨rfl, rfl⟩) fun _ => .bind twins_simpleCall ?_
  rintro r _ _ ⟨⟨addr, rfl⟩, rfl⟩
  exact .pure ⟨rfl, rfl⟩

/-- A row of settings, up to the first that fails. -/
theorem twins_anyFails {fs : List (NetM σ ℤ)} (h : ∀ f ∈ fs, Twins P i f f x (Same x)) :
    Twins P i (anyFails fs) (anyFails fs) x (Same x) := by
  induction fs with
  | nil => exact .pure ⟨rfl, rfl⟩
  | cons f fs ih =>
    apply Twins.bind (h f List.mem_cons_self)
    rintro r _ _ ⟨rfl, rfl⟩
    exact .ite Iff.rfl (fun _ => .pure ⟨rfl, rfl⟩) fun _ =>
      ih fun g hg => h g (List.mem_cons_of_mem _ hg)

/-- The end of an attempt. The error numbers kept may differ. -/
theorem twins_giveUp {p q : NetM σ α} {Q : α → α → View → Prop} (fd : ℤ) (h : Twins P i p q x Q) :
    Twins P i
      (do
        setErr (← socketErrno)
        socketCloseFd B fd
        p)
      (do
        setErr (← socketErrno)
        socketCloseFd B fd
        q) x Q := by
  apply Twins.bind twins_socketErrno
  rintro e e' _ rfl
  apply Twins.bind (twins_setErr e e')
  rintro _ _ _ ⟨-, rfl⟩
  apply Twins.bind (twins_closeFd fd)
  rintro _ _ _ ⟨-, rfl⟩
  exact h

/-- The loop of `socket_listen`. -/
theorem twins_listenLoop (k : ℕ) : Twins P i (listenLoop B k) (listenLoop B k) x (Same x) := by
  induction k with
  | zero => exact .pure ⟨rfl, rfl⟩
  | succ k ih =>
    apply Twins.bind twins_descriptorCall
    rintro r _ _ ⟨⟨addr, rfl⟩, rfl⟩
    refine .ite Iff.rfl (fun _ => ih) fun _ => ?_
    have hret {x : View} : Twins P i (Reply.ret <$> simpleCall) (Reply.ret <$> simpleCall) x
        (Same x) := by
      apply Twins.bind twins_simpleCall
      rintro r _ _ ⟨⟨addr, rfl⟩, rfl⟩
      exact .pure ⟨rfl, rfl⟩
    apply Twins.bind (twins_anyFails (by simp [twins_setFlags, hret]))
    rintro failed _ _ ⟨rfl, rfl⟩
    refine .ite Iff.rfl (fun _ => twins_giveUp _ (.pure ⟨rfl, rfl⟩)) fun _ => .bind twins_simpleCall ?_
    rintro b _ _ ⟨⟨addr, rfl⟩, rfl⟩
    exact .ite Iff.rfl (fun _ => twins_giveUp _ ih) fun _ => .pure ⟨rfl, rfl⟩

/-- The loop of `socket_connect`. A connection that it opens is not invalid. -/
theorem twins_connectLoop (block : Bool) (k : ℕ) :
    Twins P i (connectLoop B block k) (connectLoop B block k) x fun r r' y =>
      Same x r r' y ∧ ∀ fd, r ≠ .opened fd .invalid := by
  induction k with
  | zero => exact .pure ⟨⟨rfl, rfl⟩, nofun⟩
  | succ k ih =>
    -- blocking or not, the options are set before the connect or after it
    have hflags {x : View} : Twins P i (anyFails [setFlags]) (anyFails [setFlags]) x (Same x) :=
      twins_anyFails (by simp [twins_setFlags])
    have hquiet {x : View} : Twins P i (pure false : NetM σ Bool) (pure false) x (Same x) :=
      .pure ⟨rfl, rfl⟩
    apply Twins.bind twins_descriptorCall
    rintro r _ _ ⟨⟨addr, rfl⟩, rfl⟩
    refine .ite Iff.rfl (fun _ => ih) fun _ => .bind twins_simpleCall ?_
    rintro alive _ _ ⟨⟨addr, rfl⟩, rfl⟩
    refine .ite Iff.rfl (fun _ => twins_giveUp _ (.pure ⟨⟨rfl, rfl⟩, nofun⟩)) fun _ => ?_
    refine .bind (.ite Iff.rfl (fun _ => hquiet) fun _ => hflags) ?_
    rintro failed _ _ ⟨rfl, rfl⟩
    refine .ite Iff.rfl (fun _ => twins_giveUp _ (.pure ⟨⟨rfl, rfl⟩, nofun⟩)) fun _ => ?_
    apply Twins.bind twins_simpleCall
    rintro r' _ _ ⟨⟨addr, rfl⟩, rfl⟩
    refine .ite Iff.rfl (fun _ => .bind (twins_setErr _ _) ?_) fun _ => ?_
    · rintro _ _ _ ⟨-, rfl⟩
      apply Twins.bind (twins_closeFd _)
      rintro _ _ _ ⟨-, rfl⟩
      exact ih
    refine .bind (.ite Iff.rfl (fun _ => hflags) fun _ => hquiet) ?_
    rintro failed' _ _ ⟨rfl, rfl⟩
    refine .ite Iff.rfl (fun _ => .bind twins_socketErrno ?_) fun _ => .pure ⟨⟨rfl, rfl⟩, ?_⟩
    · rintro e e' _ rfl
      apply Twins.bind (twins_setErr e e')
      rintro _ _ _ ⟨-, rfl⟩
      exact .pure ⟨⟨rfl, rfl⟩, nofun⟩
    · split <;> simp

/-! ## The calls that open -/

/-- The call fails, or it returns the slot, which keeps its read limit. -/
def Opens (i : ℕ) (rlimit : ℤ) (v v' : ℤ) (y : View) : Prop :=
  v = v' ∧ (v = -1 ∨ (v = i ∧ ∃ c, c.rlimit = rlimit ∧ y = .holds (some c)))

theorem Opens.failed : Opens i rlimit (-1) (-1) y := ⟨rfl, .inl rfl⟩

theorem Opens.opened (h : c.rlimit = rlimit) : Opens i rlimit i i (.holds (some c)) :=
  ⟨rfl, .inr ⟨rfl, c, h, rfl⟩⟩

/-- The same addresses, or none. -/
theorem twins_getaddrinfo : Twins P i getaddrinfo getaddrinfo x (Same x) := by
  apply Twins.bind (twins_call _)
  rintro r _ _ ⟨⟨addr, rfl⟩, -, rfl⟩
  refine .ite Iff.rfl (fun _ => .pure ⟨rfl, rfl⟩) fun _ => .bind (twins_emit _ _) ?_
  rintro _ _ _ ⟨-, rfl⟩
  exact .pure ⟨rfl, rfl⟩

/-- The list is freed without a call to the system. -/
theorem silent_noAddress (err : ℤ) : Silent (noAddress err : NetM σ ℤ) := by
  have hend : Silent (σ := σ) (do emit .freedAddrinfo; pure (-1)) :=
    .bind (.emit _) fun _ => .pure _
  exact .bind (.read _) fun n => .ite (.bind (.setErr err) fun _ => hend) hend

/-- Nothing changes but the error and the log. -/
theorem noAddress_run {r : ℤ} (h : x.Of B i w) (hr : noAddress err w = (.ok r, w')) :
    r = -1 ∧ x.Of B i w' ∧ w'.np = w.np := by
  simp only [noAddress, Prog.bind_apply, Prog.read_apply] at hr
  split at hr
  · simp only [Prog.bind_apply, setErr, emit, Prog.write_apply, Prog.pure_apply] at hr
    obtain ⟨hv, rfl⟩ := Prod.mk.inj hr
    exact ⟨(Except.ok.inj hv).symm, h.frame w.np w.os err _ h.inv.known, rfl⟩
  · simp only [Prog.bind_apply, emit, Prog.write_apply, Prog.pure_apply] at hr
    obtain ⟨hv, rfl⟩ := Prod.mk.inj hr
    exact ⟨(Except.ok.inj hv).symm, h.frame w.np w.os w.net.err _ h.inv.known, rfl⟩

/-- No address is left. The error kept until now may differ. -/
theorem twins_noAddress (err : ℤ) :
    Twins P i (noAddress err) (noAddress err) x (Opens i rlimit) := by
  have hsilent := silent_noAddress (σ := σ) err
  refine (twins_of_still (fun _ _ _ => noAddress_run) (fun _ _ _ => noAddress_run) (fun _ _ h => h)
    hsilent.uses hsilent.uses).mono ?_
  rintro _ _ _ ⟨rfl, rfl, rfl⟩
  exact .failed

/-- A new connection that cannot be used is closed. -/
theorem twins_discard :
    Twins P i
      (do
        setErr (← socketErrno)
        closeSocket B i
        pure (-1))
      (do
        setErr (← socketErrno)
        closeSocket B i
        pure (-1)) (.holds (some c)) (Opens i rlimit) := by
  apply Twins.bind twins_socketErrno
  rintro e e' _ rfl
  apply Twins.bind (twins_setErr e e')
  rintro _ _ _ ⟨-, rfl⟩
  apply Twins.bind twins_closeSocket
  rintro _ _ _ ⟨-, -, rfl⟩
  exact .pure .failed

/-- `socket_bind`. -/
theorem twins_socketBind (fd udata protocol : ℤ) :
    Twins P i (socketBind B fd udata protocol) (socketBind B fd udata protocol) (.next rlimit)
      (Opens i rlimit) := by
  apply Twins.bind (twins_createSocket fd 0 udata protocol)
  rintro _ _ _ ⟨rfl, rfl, rfl⟩
  apply Twins.bind twins_setFlags
  rintro r _ _ ⟨rfl, rfl⟩
  refine .ite Iff.rfl (fun _ => twins_discard) fun _ => .bind (twins_setSlot
    (fun c => { c with status := .bind }) (fun _ _ => rfl) (fun _ => ⟨rfl, rfl⟩) (fun _ => by simp) rfl) ?_
  rintro _ _ _ ⟨-, -, rfl⟩
  exact .pure (.opened rfl)

/-- `socket_listen`. -/
theorem twins_socketListen (udata : ℤ) :
    Twins P i (socketListen B udata) (socketListen B udata) (.next rlimit) (Opens i rlimit) := by
  apply Twins.bind twins_getaddrinfo
  rintro (_ | count) _ _ ⟨rfl, rfl⟩
  · apply Twins.bind (twins_setErr _ _)
    rintro _ _ _ ⟨-, rfl⟩
    exact .pure .failed
  apply Twins.bind (twins_setErr _ _)
  rintro _ _ _ ⟨-, rfl⟩
  apply Twins.bind (twins_listenLoop count)
  rintro (_ | _ | ⟨fd, status⟩) _ _ ⟨rfl, rfl⟩
  · exact .pure .failed
  · exact twins_noAddress _
  apply Twins.bind (twins_setErr _ _)
  rintro _ _ _ ⟨-, rfl⟩
  apply Twins.bind (twins_emit _ _)
  rintro _ _ _ ⟨-, rfl⟩
  apply Twins.bind twins_simpleCall
  rintro r _ _ ⟨⟨addr, rfl⟩, rfl⟩
  refine .ite Iff.rfl (fun _ => twins_giveUp _ (.pure .failed)) fun _ => ?_
  apply Twins.bind (twins_createSocket fd 0 udata 0)
  rintro _ _ _ ⟨rfl, rfl, rfl⟩
  apply Twins.bind (twins_subscribe _)
  rintro v _ _ ⟨rfl, m, rfl⟩
  refine .ite Iff.rfl (fun _ => twins_discard) fun _ => .bind (twins_setSlot
    (fun c => { c with status := .listening }) (fun _ _ => rfl) (fun _ => ⟨rfl, rfl⟩)
    (fun _ => by simp) rfl) ?_
  rintro _ _ _ ⟨-, -, rfl⟩
  exact .pure (.opened rfl)

/-- `socket_connect`. -/
theorem twins_socketConnect (block : Bool) (udata : ℤ) :
    Twins P i (socketConnect B block udata) (socketConnect B block udata) (.next rlimit)
      (Opens i rlimit) := by
  apply Twins.bind (twins_setErr _ _)
  rintro _ _ _ ⟨-, rfl⟩
  apply Twins.bind twins_getaddrinfo
  rintro (_ | count) _ _ ⟨rfl, rfl⟩
  · apply Twins.bind (twins_setErr _ _)
    rintro _ _ _ ⟨-, rfl⟩
    exact .pure .failed
  apply Twins.bind (twins_setErr _ _)
  rintro _ _ _ ⟨-, rfl⟩
  apply Twins.bind (twins_connectLoop block count)
  rintro (_ | _ | ⟨fd, status⟩) _ _ ⟨⟨rfl, rfl⟩, hstatus⟩
  · exact .pure .failed
  · exact twins_noAddress _
  apply Twins.bind (twins_setErr _ _)
  rintro _ _ _ ⟨-, rfl⟩
  apply Twins.bind (twins_emit _ _)
  rintro _ _ _ ⟨-, rfl⟩
  apply Twins.bind (twins_createSocket fd 0 udata 0)
  rintro _ _ _ ⟨rfl, rfl, rfl⟩
  refine .bind (twins_setSlot (fun c => { c with status }) (fun _ _ => rfl) (fun _ => ⟨rfl, rfl⟩)
    (fun _ h => hstatus fd (congrArg _ h)) rfl) ?_
  rintro _ _ _ ⟨-, -, rfl⟩
  refine .ite Iff.rfl (fun _ => .bind (twins_subscribe _) ?_) fun _ => .pure (.opened rfl)
  rintro v _ _ ⟨rfl, m, rfl⟩
  refine .ite Iff.rfl (fun _ => twins_discard) fun _ => .bind (twins_setErr _ _) ?_
  rintro _ _ _ ⟨-, rfl⟩
  exact .pure (.opened rfl)

/-! ## Accepting -/

/-- The rule for sequences that begin with a program that leaves the nets alone, beside what is known of
them. -/
theorem Twins.bind_beside {β : Type} {R : Net → Net → Prop} {p q : NetM σ α} {f g : α → NetM σ β}
    {Q : α → α → View → Prop} {T : β → β → World σ → World σ → Prop} (hp : Twins P i p q x Q)
    (hnet : ∀ w, (p w).2.net = w.net) (hnet' : ∀ w, (q w).2.net = w.net)
    (hf : ∀ v v' y, Q v v' y →
      Prog.Matches (fun w w' => y.Both P i w w' ∧ R w.net w'.net) (f v) (g v') T) :
    Prog.Matches (fun w w' => x.Both P i w w' ∧ R w.net w'.net) (p >>= f) (q >>= g) T := by
  refine Prog.Matches.bind (Q := fun v v' w w' => (∃ y, Q v v' y ∧ y.Both P i w w') ∧
    R w.net w'.net) ?_ ?_
  · rintro w w' ⟨hw, hR⟩ v w₁ v' w₁' hr hr'
    refine ⟨hp w w' hw v w₁ v' w₁' hr hr', ?_⟩
    have h := hnet w
    have h' := hnet' w'
    rw [hr] at h
    rw [hr'] at h'
    rwa [h, h']
  · rintro v v' w w' ⟨⟨y, hv, hw⟩, hR⟩
    exact hf v v' y hv w w' ⟨hw, hR⟩

theorem call_net (ok : Reply → Prop) [DecidablePred ok] (w : World σ) :
    (call ok w).2.net = w.net := rfl

/-- A call to the system does not touch the slots. -/
theorem descriptorCall_net (w : World σ) : (descriptorCall w).2.net = w.net := by
  rw [descriptorCall, Prog.bind_apply]
  rcases hr : call (fun r => r.Failed ∨ (0 ≤ r.ret ∧ r.ret ≤ CInt.INT_MAX)) w with ⟨_ | r, w₁⟩
  · exact (congrArg (fun x => x.2.net) hr).symm
  · have hnet : w.net = w₁.net := congrArg (fun x => x.2.net) hr
    rw [hnet]
    simp only
    split <;> rfl

/-- What a listening socket hands down to the connections that it accepts. -/
def Bequeaths (lis lis' : ℕ) (n n' : Net) : Prop :=
  (n.sockets lis).slimit = (n'.sockets lis').slimit ∧ (n.sockets lis).udata = (n'.sockets lis').udata

/-- `_accept`. -/
theorem twins_accept (lis lis' : ℕ) :
    Prog.Matches
      (fun w w' => (View.next rlimit).Both P i w w' ∧ Bequeaths lis lis' w.net w'.net)
      (accept B lis) (accept B lis') fun r r' w w' => ∃ y : View, (r = r' ∧ (r = none ∨
        (r = some i ∧ ∃ c : Conn, c.rlimit = rlimit ∧ y = .holds (some c)))) ∧ y.Both P i w w' := by
  refine Twins.bind_beside (R := Bequeaths lis lis') twins_descriptorCall descriptorCall_net
    descriptorCall_net ?_
  rintro r _ _ ⟨⟨addr, rfl⟩, rfl⟩
  refine .ite Iff.rfl (fun _ => .pure fun _ _ h => ⟨_, ⟨rfl, .inl rfl⟩, h.1⟩) fun _ => ?_
  refine Twins.bind_beside (R := Bequeaths lis lis') twins_simpleCall (call_net _) (call_net _) ?_
  rintro _ _ _ ⟨-, rfl⟩
  -- the two listeners may be different slots, but what they pass on is the same
  refine Prog.Matches.bind (Q := fun l l' w w' => (l.slimit = l'.slimit ∧ l.udata = l'.udata) ∧
    (View.next rlimit).Both P i w w') ?_ ?_
  · refine .bind (Q := fun n n' w w' => (View.next rlimit).Both P i w w' ∧ Bequeaths lis lis' n n')
      (.read fun _ _ h => h) fun n n' => ?_
    refine .bind (Q := fun _ _ w w' => (View.next rlimit).Both P i w w' ∧ Bequeaths lis lis' n n')
      (.check fun _ _ _ _ h => h) fun _ _ => ?_
    exact .pure fun _ _ h => ⟨h.2, h.1⟩
  rintro l l' w w' ⟨⟨hslimit, hudata⟩, hw⟩
  rw [hslimit, hudata]
  have htake : Twins P i (createSocket r.ret l'.slimit l'.udata 0)
      (createSocket r.ret l'.slimit l'.udata 0) (.next rlimit) _ :=
    twins_createSocket r.ret l'.slimit l'.udata 0
  refine Twins.bind (T := fun r r' y => r = r' ∧ (r = none ∨
    (r = some i ∧ ∃ c, c.rlimit = rlimit ∧ y = .holds (some c)))) htake ?_ w w' hw
  rintro _ _ _ ⟨rfl, rfl, rfl⟩
  apply Twins.bind twins_setFlags
  rintro v _ _ ⟨rfl, rfl⟩
  refine .ite Iff.rfl (fun _ => .bind twins_closeSocket ?_) fun _ => .bind (twins_setSlot
    (fun c => { c with status := .connected }) (fun _ _ => rfl) (fun _ => ⟨rfl, rfl⟩)
    (fun _ => by simp) rfl) ?_
  · rintro _ _ _ ⟨-, -, rfl⟩
    exact .pure ⟨rfl, .inl rfl⟩
  · rintro _ _ _ ⟨-, -, rfl⟩
    exact .pure ⟨rfl, .inr ⟨rfl, _, rfl, rfl⟩⟩

/-! ## Every call that opens -/

/-- Calls with the same arguments. The listening sockets may be different ones, with the same limit and
user data. -/
inductive Opener.Same (a a' : Abs σ) : Opener → Opener → Prop
  | listen (udata : ℤ) : Same a a' (.listen udata) (.listen udata)
  | connect (block : Bool) (udata : ℤ) : Same a a' (.connect block udata) (.connect block udata)
  | bind (fd udata protocol : ℤ) : Same a a' (.bind fd udata protocol) (.bind fd udata protocol)
  | accept {lis lis' : ℕ} {c c' : Conn} (hc : a.slot lis = some c) (hc' : a'.slot lis' = some c')
      (hslimit : c.slimit = c'.slimit) (hudata : c.udata = c'.udata) :
      Same a a' (.accept lis) (.accept lis')

theorem View.Of.answer (h : x.Of B i w) (rs : List Reply) : x.Of B i (w.answer rs) :=
  h.frame w.np _ w.net.err w.log h.inv.known

/-- The same opening call of two nets returns the same, and what it opens shows nothing of what was in
the slot but the read limit. -/
theorem Opener.Same.agree {o o' : Opener} {r r' : Option ℕ} (hs : Same w.abs w'.abs o o')
    (h : (View.next rlimit).Of B i w) (h' : (View.next rlimit).Of B i w') (hl : P.Same i w.np w'.np)
    (hrs : List.Forall₂ Reply.Alike rs rs') (hr : o.call B (w.answer rs) = (.ok r, w₁))
    (hr' : o'.call B (w'.answer rs') = (.ok r', w₁')) :
    r = r' ∧ ∀ j, r = some j → j = i ∧ ∃ c, c.rlimit = rlimit ∧
      (View.holds (some c)).Both P i w₁ w₁' := by
  have hboth : (View.next rlimit).Both P i (w.answer rs) (w'.answer rs') :=
    ⟨h.answer rs, h'.answer rs', hrs, hl⟩
  have hid {p : NetM σ ℤ} (hp : Twins P i p p (.next rlimit) (Opens i rlimit))
      (hr : (idOf <$> p) (w.answer rs) = (.ok r, w₁))
      (hr' : (idOf <$> p) (w'.answer rs') = (.ok r', w₁')) :
      r = r' ∧ ∀ j, r = some j → j = i ∧ ∃ c, c.rlimit = rlimit ∧
        (View.holds (some c)).Both P i w₁ w₁' := by
    have hmap : Twins P i (idOf <$> p) (idOf <$> p) (.next rlimit) fun r r' y =>
        ∃ v v', Opens i rlimit v v' y ∧ r = idOf v ∧ r' = idOf v' := by
      apply Twins.bind hp
      exact fun v v' y hv => .pure ⟨v, v', hv, rfl, rfl⟩
    obtain ⟨y, ⟨v, _, ⟨rfl, hv⟩, rfl, rfl⟩, hy⟩ := hmap _ _ hboth r w₁ r' w₁' hr hr'
    refine ⟨rfl, fun j hj => ?_⟩
    rcases hv with rfl | ⟨rfl, c, hc, rfl⟩
    · cases hj
    · rw [idOf_natCast] at hj
      exact ⟨(Option.some.inj hj).symm, c, hc, hy⟩
  cases hs with
  | listen udata => exact hid (twins_socketListen udata) hr hr'
  | connect block udata => exact hid (twins_socketConnect block udata) hr hr'
  | bind fd udata protocol => exact hid (twins_socketBind fd udata protocol) hr hr'
  | @accept lis lis' c c' hc hc' hslimit hudata =>
    have hcs := (Rep.shows ⟨(h.answer rs).inv, rfl⟩ hc).conn_eq
    have hcs' := (Rep.shows ⟨(h'.answer rs').inv, rfl⟩ hc').conn_eq
    have hlis : Bequeaths lis lis' (w.answer rs).net (w'.answer rs').net := by
      constructor
      · exact (congrArg Conn.slimit hcs).trans (hslimit.trans (congrArg Conn.slimit hcs').symm)
      · exact (congrArg Conn.udata hcs).trans (hudata.trans (congrArg Conn.udata hcs').symm)
    obtain ⟨y, ⟨rfl, hv⟩, hy⟩ := twins_accept lis lis' _ _ ⟨hboth, hlis⟩ r w₁ r' w₁' hr hr'
    refine ⟨rfl, fun j hj => ?_⟩
    rcases hv with rfl | ⟨rfl, c, hc, rfl⟩
    · cases hj
    · exact ⟨(Option.some.inj hj).symm, c, hc, hy⟩

end Lsocket
