import Lsocket.Net.Calls

/-!
# Opening connections

`socket_listen`, `socket_connect`, `socket_bind` and `_accept` as chains of changes. A connection is
opened with its final status in one change; if a later step fails it is closed again at once.
-/

namespace Lsocket

open CInt

variable {σ : Type} {B : Backend σ} {a a' : Abs σ} {i : ℕ} {c : Conn} {op : Op}

/-! ## Descriptors -/

/-- A descriptor stays loose while nothing is done with it. -/
theorem Loose.cons {fd : ℤ} {log : List Ev} {e : Ev} (h : Loose fd log) (he : e.Note ∨ e = .refused) :
    Loose fd (e :: log) := by
  obtain ⟨evs, past, rfl, hevs⟩ := h
  refine ⟨e :: evs, past, rfl, fun x hx => ?_⟩
  rcases List.mem_cons.mp hx with rfl | hx
  · exact he
  · exact hevs x hx

theorem loose_acquired (fd : ℤ) (log : List Ev) : Loose fd (.acquired fd :: log) :=
  ⟨[], log, rfl, fun _ hx => absurd hx List.not_mem_nil⟩

/-- A call that fails, or opens a descriptor. -/
theorem does_descriptorCall :
    Does B descriptorCall a fun r a' =>
      (r.ret = -1 ∧ a' = a) ∨ (0 ≤ r.ret ∧ a' = a.emit (.acquired r.ret)) := by
  refine .bind (does_call _) ?_
  rintro r _ ⟨hr, rfl⟩
  refine .ite (fun h => ?_) fun h => .pure (.inl ⟨?_, rfl⟩)
  · refine .bind (does_emit _) ?_
    rintro _ _ rfl
    exact .pure (.inr ⟨h, rfl⟩)
  · rcases hr with hr | hr
    · exact hr.1
    · exact absurd hr.1 h

/-- A call such as `setsockopt` changes nothing of the net. -/
theorem does_simpleCall : Does B simpleCall a fun _ a' => a' = a :=
  (does_call _).mono fun _ _ h => h.2

/-- Nor does the setting of flags. -/
theorem does_setFlags : Does B setFlags a fun _ a' => a' = a := by
  refine .bind (does_call _) ?_
  rintro r _ ⟨-, rfl⟩
  refine .ite (fun _ => .pure rfl) fun _ => .bind does_simpleCall ?_
  rintro _ _ rfl
  exact .pure rfl

/-- Calls that leave everything as it is, one after the other. -/
theorem does_anyFails {fs : List (NetM σ ℤ)}
    (h : ∀ f ∈ fs, ∀ a : Abs σ, Does B f a fun _ a' => a' = a) :
    Does B (anyFails fs) a fun _ a' => a' = a := by
  induction fs with
  | nil => exact .pure rfl
  | cons f fs ih =>
    refine .bind (h f List.mem_cons_self a) ?_
    rintro r _ rfl
    exact .ite (fun _ => .pure rfl) fun _ => ih fun g hg => h g (List.mem_cons_of_mem _ hg)

theorem does_anyFails_setFlags : Does B (anyFails [setFlags]) a fun _ a' => a' = a :=
  does_anyFails fun f hf a => by
    obtain rfl := List.mem_singleton.mp hf
    exact does_setFlags

/-! ## A new connection that is closed again -/

/-- A connection that is closed before its mask has changed. -/
theorem Change.bounce {v : ℤ} {rest : List ℕ} {fd slimit udata protocol rlimit : ℤ} (hfd : 0 ≤ fd)
    (hf : a.free = i :: rest) (hi : i < a.max) (hn : a.slot i = none) :
    Change B op v a ((a.create i rest (newConn fd slimit udata protocol rlimit)).close i B
      (newConn fd slimit udata protocol rlimit)) := by
  have hb : Change B op v a (((a.create i rest (newConn fd slimit udata protocol rlimit)).put i
      (newConn fd slimit udata protocol rlimit) a.np []).close i B
        (newConn fd slimit udata protocol rlimit)) :=
    .bounced hfd hf hi hn (.same rfl) (.inl rfl)
  have hput : (a.create i rest (newConn fd slimit udata protocol rlimit)).put i
      (newConn fd slimit udata protocol rlimit) a.np [] = a.create i rest _ :=
    Abs.put_self (Function.update_self ..)
  rwa [hput] at hb

/-- A connection that is opened with nothing to subscribe. -/
theorem Change.openSet {v : ℤ} {rest : List ℕ} {fd slimit udata protocol rlimit : ℤ} {c : Conn}
    (hfd : 0 ≤ fd) (hf : a.free = i :: rest) (hi : i < a.max) (hn : a.slot i = none)
    (h : Opening.Makes B op i (newConn fd slimit udata protocol rlimit) a.np c a.np []) :
    Change B op v a ((a.create i rest (newConn fd slimit udata protocol rlimit)).set i c) :=
  .opened hfd hf hi hn h

/-! ## Bind and accept -/

/-- `socket_bind`. -/
theorem does_socketBind {fd : ℤ} (udata protocol : ℤ) (hfd : 0 ≤ fd) :
    Does B (socketBind B fd udata protocol) a
      fun v a' => Changes B (.bind fd udata protocol) v a a' := by
  refine .bind (does_createSocket 0 udata protocol hfd) ?_
  rintro r _ (⟨rfl, hf, rfl⟩ | ⟨i, rest, rlimit, rfl, hf, hn, hi, rfl⟩)
  · refine .bind (does_setErr _) ?_
    rintro _ _ rfl
    exact .pure (.tail (.single (.refused hf)) (.err _))
  refine .bind does_setFlags ?_
  rintro _ _ rfl
  refine .ite (fun _ => ?_) fun _ => ?_
  -- options refused: the slot is given back, and the caller's descriptor closed with it
  · refine .bind does_socketErrno ?_
    rintro e _ rfl
    refine .bind (does_setErr e) ?_
    rintro _ _ rfl
    refine .bind (does_closeSocket (c := newConn fd 0 udata protocol rlimit)
      (Function.update_self ..)) ?_
    rintro _ _ rfl
    exact .pure (.tail (.single (.err e)) (.bounce (a := a.setErr e) hfd hf hi hn))
  · refine .bind (does_setSlot (fun c => { c with status := .bind })
      (c := newConn fd 0 udata protocol rlimit) (Function.update_self ..) (fun _ _ => rfl)
      (fun _ => ⟨rfl, rfl⟩) (fun _ => by simp) rfl) ?_
    rintro _ _ rfl
    exact .pure (.single (.openSet hfd hf hi hn (.bound rfl)))

/-- `_accept`. -/
theorem does_accept {timeout : ℤ} (hc : a.slot i = some c) (hop : op = .poll timeout) :
    Does B (accept B i) a fun r a' => (∀ v, Changes B op v a a') ∧
      ∀ j, r = some j → ∃ c', a'.slot j = some c' := by
  refine .bind does_descriptorCall ?_
  rintro r _ (⟨hr, rfl⟩ | ⟨hr, rfl⟩)
  · rw [if_pos (by omega)]
    exact .pure ⟨fun _ => .refl, fun j hj => by cases hj⟩
  rw [if_neg (by omega)]
  have hnote : ∀ v, Changes B op v a (a.emit (.acquired r.ret)) := fun _ => .single (.note trivial nofun)
  refine .bind does_simpleCall ?_
  rintro _ _ rfl
  refine .bind (does_slotAt (c := c) hc) ?_
  rintro l _ ⟨rfl, -⟩
  refine .bind (does_createSocket l.slimit l.udata 0 hr) ?_
  rintro r' _ (⟨rfl, hf, rfl⟩ | ⟨j, rest, rlimit, rfl, hf, hn, hi, rfl⟩)
  · refine .bind (does_socketCloseFd r.ret) ?_
    rintro _ _ rfl
    refine .pure ⟨fun v => .tail (.tail (hnote v) (.refused hf)) (.drop ?_), fun j hj => by cases hj⟩
    exact (loose_acquired r.ret a.log).cons (.inr rfl)
  refine .bind does_setFlags ?_
  rintro _ _ rfl
  refine .ite (fun _ => ?_) fun _ => ?_
  · refine .bind (does_closeSocket (c := newConn r.ret l.slimit l.udata 0 rlimit)
      (Function.update_self ..)) ?_
    rintro _ _ rfl
    exact .pure ⟨fun v => .tail (hnote v) (.bounce hr hf hi hn), fun j hj => by cases hj⟩
  · refine .bind (does_setSlot (fun c => { c with status := .connected })
      (c := newConn r.ret l.slimit l.udata 0 rlimit) (Function.update_self ..) (fun _ _ => rfl)
      (fun _ => ⟨rfl, rfl⟩) (fun _ => by simp) rfl) ?_
    rintro _ _ rfl
    refine .pure ⟨fun v => .tail (hnote v) (.openSet hr hf hi hn (.accepted hop)), fun k hk => ?_⟩
    obtain rfl := Option.some.inj hk
    exact ⟨_, Abs.set_slot_self ..⟩

/-! ## The loops over addresses -/

/-- A descriptor that is at hand, and nothing else: the state in which a loop over addresses ends. -/
def Opening.Ready (statuses : List Status) (log : List Ev) : Opening → Prop
  | .opened fd status => 0 ≤ fd ∧ status ∈ statuses ∧ Loose fd log
  | _ => True

/-- The end of an attempt that fails: the error is kept, the descriptor closed. -/
theorem does_giveUp {α : Type} {p : NetM σ α} {fd err : ℤ} {Q : α → Abs σ → Prop}
    (h : ∀ v, Changes B op v a a') (hl : Loose fd a'.log)
    (hp : ∀ a', (∀ v, Changes B op v a a') → Does B p a' Q) :
    Does B (do
        setErr err
        socketCloseFd B fd
        p) a' Q := by
  refine .bind (does_setErr err) ?_
  rintro _ _ rfl
  refine .bind (does_socketCloseFd fd) ?_
  rintro _ _ rfl
  exact hp _ fun v => .tail (.tail (h v) (.err err)) (.drop (a := Abs.setErr _ err) hl)

/-- The loop of `socket_listen`. -/
theorem does_listenLoop (op : Op) (k : ℕ) :
    Does B (listenLoop B k) a fun r a' => (∀ v, Changes B op v a a') ∧
      r.Ready [.listening] a'.log := by
  induction k generalizing a with
  | zero => exact .pure ⟨fun _ => .refl, trivial⟩
  | succ k ih =>
    refine .bind does_descriptorCall ?_
    rintro r _ (⟨hr, rfl⟩ | ⟨hr, rfl⟩)
    · rw [if_pos hr]
      exact ih
    rw [if_neg (by omega)]
    have hnote : ∀ v, Changes B op v a (a.emit (.acquired r.ret)) := fun _ => .single (.note trivial nofun)
    refine .bind (does_anyFails ?_) ?_
    · intro f hf a
      simp only [List.mem_cons, List.not_mem_nil, or_false] at hf
      rcases hf with rfl | rfl | rfl
      · exact does_setFlags
      · exact does_setFlags
      · exact .bind does_simpleCall fun _ _ h => .pure h
    rintro failed _ rfl
    refine .ite (fun _ => ?_) fun _ => ?_
    · refine .bind does_socketErrno ?_
      rintro e _ rfl
      refine does_giveUp hnote (loose_acquired ..) fun a' ha' => .pure ⟨ha', trivial⟩
    refine .bind does_simpleCall ?_
    rintro b _ rfl
    refine .ite (fun _ => ?_) fun _ => .pure ⟨hnote, hr, by simp, loose_acquired ..⟩
    refine .bind does_socketErrno ?_
    rintro e _ rfl
    -- `bind` failed on this address; the descriptor is closed and the next one tried
    exact does_giveUp hnote (loose_acquired ..) fun a' ha' => does_trans ha' ih

/-- The loop of `socket_connect`. -/
theorem does_connectLoop (op : Op) (block : Bool) (k : ℕ) :
    Does B (connectLoop B block k) a fun r a' => (∀ v, Changes B op v a a') ∧
      r.Ready [.connecting, .connected] a'.log := by
  induction k generalizing a with
  | zero => exact .pure ⟨fun _ => .refl, trivial⟩
  | succ k ih =>
    refine .bind does_descriptorCall ?_
    rintro r _ (⟨hr, rfl⟩ | ⟨hr, rfl⟩)
    · rw [if_pos hr]
      exact ih
    rw [if_neg (by omega)]
    have hnote : ∀ v, Changes B op v a (a.emit (.acquired r.ret)) := fun _ => .single (.note trivial nofun)
    -- the options are set before `connect` unless it is to block, and after it if it is
    have hflags : ∀ (c : Bool) (a : Abs σ), Does B (if c then pure false else anyFails [setFlags]) a
        fun _ a' => a' = a := fun c a => .ite (fun _ => .pure rfl) fun _ => does_anyFails_setFlags
    have hflags' : ∀ (c : Bool) (a : Abs σ), Does B (if c then anyFails [setFlags] else pure false) a
        fun _ a' => a' = a := fun c a => .ite (fun _ => does_anyFails_setFlags) fun _ => .pure rfl
    refine .bind does_simpleCall ?_
    rintro alive _ rfl
    refine .ite (fun _ => ?_) fun _ => ?_
    · refine .bind does_socketErrno ?_
      rintro e _ rfl
      exact does_giveUp hnote (loose_acquired ..) fun a' ha' => .pure ⟨ha', trivial⟩
    refine .bind (hflags block _) ?_
    rintro failed _ rfl
    refine .ite (fun _ => ?_) fun _ => ?_
    · refine .bind does_socketErrno ?_
      rintro e _ rfl
      exact does_giveUp hnote (loose_acquired ..) fun a' ha' => .pure ⟨ha', trivial⟩
    refine .bind does_simpleCall ?_
    rintro c _ rfl
    refine .ite (fun _ => ?_) fun _ => ?_
    · exact does_giveUp hnote (loose_acquired ..) fun a' ha' => does_trans ha' ih
    refine .bind (hflags' block _) ?_
    rintro failed' _ rfl
    refine .ite (fun _ => ?_) fun _ => ?_
    · refine .bind does_socketErrno ?_
      rintro e _ rfl
      refine .bind (does_setErr e) ?_
      rintro _ _ rfl
      -- here the source leaves the descriptor open
      exact .pure ⟨fun v => .tail (hnote v) (.err e), trivial⟩
    · refine .pure ⟨hnote, hr, ?_, loose_acquired ..⟩
      split <;> simp

/-! ## Listen and connect -/

/-- `getaddrinfo`. -/
theorem does_getaddrinfo :
    Does B getaddrinfo a fun r a' => (r = none ∧ a' = a) ∨
      ∃ count, r = some count ∧ a' = a.emit .gotAddrinfo := by
  refine .bind (does_call _) ?_
  rintro r _ ⟨-, rfl⟩
  refine .ite (fun _ => .pure (.inl ⟨rfl, rfl⟩)) fun _ => .bind (does_emit _) ?_
  rintro _ _ rfl
  exact .pure (.inr ⟨_, rfl, rfl⟩)

/-- What `socket_listen` and `socket_connect` do when no address is left. -/
def noAddress (err : ℤ) : NetM σ ℤ := do
  let n ← Prog.read World.net
  if n.err = 0 then setErr err
  emit .freedAddrinfo
  pure (-1)

/-- No address is left: there is an error to report in any case. -/
theorem does_noAddress (err : ℤ) (h : ∀ v, Changes B op v a a') :
    Does B (noAddress err) a' fun v a'' => Changes B op v a a'' := by
  refine .bind does_net ?_
  rintro n _ ⟨rfl, -, -⟩
  refine .ite (fun _ => .bind (does_setErr err) ?_) fun _ => .bind (does_emit _) ?_
  · rintro _ _ rfl
    refine .bind (does_emit _) ?_
    rintro _ _ rfl
    exact .pure (.tail (.tail (h _) (.err err)) (.note trivial nofun))
  · rintro _ _ rfl
    exact .pure (.tail (h _) (.note trivial nofun))

/-- The end of an attempt that fails with the error that the system reports. -/
theorem does_failClose {fd : ℤ} (h : ∀ v, Changes B op v a a') (hl : Loose fd a'.log) :
    Does B (do
        setErr (← socketErrno)
        socketCloseFd B fd
        pure (-1)) a' fun v a'' => Changes B op v a a'' := by
  refine .bind does_socketErrno ?_
  rintro e _ rfl
  exact does_giveUp h hl fun _ ha' => .pure (ha' _)

/-- The same for a new connection that cannot be subscribed. -/
theorem does_failSocket {rest : List ℕ} {fd slimit udata protocol rlimit r : ℤ} {mask new : Mask}
    {np : σ} {evs : List Ev} {c : Conn} {a₀ : Abs σ} (h : ∀ v, Changes B op v a₀ a) (hfd : 0 ≤ fd)
    (hf : a.free = i :: rest) (hi : i < a.max) (hn : a.slot i = none)
    (hs : Subscribe B i fd .none new a.np r mask np evs) (hr : r ≠ 0)
    (hc : c.fd = fd ∧ c.mask = .none ∧ c.queue = []) :
    Does B (do
        setErr (← socketErrno)
        closeSocket B i
        pure (-1))
      ((a.create i rest (newConn fd slimit udata protocol rlimit)).put i c np evs)
      fun v a' => Changes B op v a₀ a' := by
  refine .bind does_socketErrno ?_
  rintro e _ rfl
  refine .bind (does_setErr e) ?_
  rintro _ _ rfl
  refine .bind (does_closeSocket (c := c) (Abs.put_slot_self np evs)) ?_
  rintro _ _ rfl
  have hb : Change B op (-1) (a.setErr e) ((((a.setErr e).create i rest
      (newConn fd slimit udata protocol rlimit)).put i (newConn fd slimit udata protocol rlimit) np
        evs).close i B (newConn fd slimit udata protocol rlimit)) :=
    .bounced hfd hf hi hn hs (.inr hr)
  rw [← Abs.close_put (c := newConn fd slimit udata protocol rlimit) np evs c hc.1 hc.2.1 hc.2.2] at hb
  exact .pure (.tail (.tail (h _) (.err e)) hb)

/-- A mask that could not be set stays. -/
theorem Subscribe.mask_of_failed {fd r : ℤ} {old new mask : Mask} {np np' : σ} {evs : List Ev}
    (h : Subscribe B i fd old new np r mask np' evs) (hr : r ≠ 0) : mask = old := by
  cases h with
  | same => rfl
  | done => exact absurd rfl hr
  | failed => rfl

/-- `socket_listen`. -/
theorem does_socketListen (udata : ℤ) :
    Does B (socketListen B udata) a fun v a' => Changes B (.listen udata) v a a' := by
  refine .bind does_getaddrinfo ?_
  rintro r _ (⟨rfl, rfl⟩ | ⟨count, rfl, rfl⟩)
  · refine .bind (does_setErr _) ?_
    rintro _ _ rfl
    exact .pure (.single (.err _))
  refine .bind (does_setErr 0) ?_
  rintro _ _ rfl
  refine does_after (fun v => .tail (.single (.note (e := .gotAddrinfo) trivial nofun)) (.err 0)) ?_
  generalize Abs.setErr _ 0 = a
  refine .bind (does_listenLoop (.listen udata) count) ?_
  rintro r a' ⟨hch, hready⟩
  rcases r with _ | _ | ⟨fd, status⟩
  · exact .pure (hch _)
  · exact does_noAddress _ hch
  obtain ⟨hfd, -, hl⟩ := hready
  refine .bind (does_setErr 0) ?_
  rintro _ _ rfl
  refine .bind (does_emit _) ?_
  rintro _ _ rfl
  -- from here on the address list is freed, and the descriptor is loose until it has a slot
  have hch : ∀ v, Changes B (.listen udata) v a ((a'.setErr 0).emit .freedAddrinfo) := fun v =>
    .tail (.tail (hch v) (.err 0)) (.note trivial nofun)
  have hl : Loose fd ((a'.setErr 0).emit .freedAddrinfo).log := hl.cons (.inl trivial)
  generalize (a'.setErr 0).emit .freedAddrinfo = a' at hch hl ⊢
  refine .bind does_simpleCall ?_
  rintro r _ rfl
  refine .ite (fun _ => does_failClose hch hl) fun _ => ?_
  refine .bind (does_createSocket 0 udata 0 hfd) ?_
  rintro r' _ (⟨rfl, hf, rfl⟩ | ⟨i, rest, rlimit, rfl, hf, hn, hi, rfl⟩)
  · exact does_giveUp (fun v => .tail (hch v) (.refused hf)) (hl.cons (.inr rfl))
      fun _ ha' => .pure (ha' _)
  refine .bind (does_subscribe (c := newConn fd 0 udata 0 rlimit) _ (Function.update_self ..)) ?_
  rintro r _ ⟨mask, np, evs, hsub, rfl⟩
  refine .ite (fun hr => ?_) fun hr => ?_
  · exact does_failSocket hch hfd hf hi hn hsub hr ⟨rfl, hsub.mask_of_failed hr, rfl⟩
  obtain rfl := not_not.mp hr
  refine .bind (does_setSlot (fun c => { c with status := .listening }) (Abs.put_slot_self ..)
    (fun _ _ => rfl) (fun _ => ⟨rfl, rfl⟩) (fun _ => by simp) rfl) ?_
  rintro _ _ rfl
  rw [Abs.put_set]
  exact .pure (.tail (hch _) (.opened hfd hf hi hn (.listening rfl hsub)))

/-- `socket_connect`. -/
theorem does_socketConnect (block : Bool) (udata : ℤ) :
    Does B (socketConnect B block udata) a fun v a' => Changes B (.connect block udata) v a a' := by
  refine .bind (does_setErr 0) ?_
  rintro _ _ rfl
  refine does_after (fun v => .single (.err 0)) ?_
  generalize Abs.setErr _ 0 = a
  refine .bind does_getaddrinfo ?_
  rintro r _ (⟨rfl, rfl⟩ | ⟨count, rfl, rfl⟩)
  · refine .bind (does_setErr _) ?_
    rintro _ _ rfl
    exact .pure (.single (.err _))
  refine .bind (does_setErr 0) ?_
  rintro _ _ rfl
  refine does_after (fun v => .tail (.single (.note (e := .gotAddrinfo) trivial nofun)) (.err 0)) ?_
  generalize Abs.setErr _ 0 = a
  refine .bind (does_connectLoop (.connect block udata) block count) ?_
  rintro r a' ⟨hch, hready⟩
  rcases r with _ | _ | ⟨fd, status⟩
  · exact .pure (hch _)
  · exact does_noAddress _ hch
  obtain ⟨hfd, hstatus, hl⟩ := hready
  refine .bind (does_setErr 0) ?_
  rintro _ _ rfl
  refine .bind (does_emit _) ?_
  rintro _ _ rfl
  have hch : ∀ v, Changes B (.connect block udata) v a ((a'.setErr 0).emit .freedAddrinfo) := fun v =>
    .tail (.tail (hch v) (.err 0)) (.note trivial nofun)
  have hl : Loose fd ((a'.setErr 0).emit .freedAddrinfo).log := hl.cons (.inl trivial)
  generalize (a'.setErr 0).emit .freedAddrinfo = a' at hch hl ⊢
  refine .bind (does_createSocket 0 udata 0 hfd) ?_
  rintro r' _ (⟨rfl, hf, rfl⟩ | ⟨i, rest, rlimit, rfl, hf, hn, hi, rfl⟩)
  · exact does_giveUp (fun v => .tail (hch v) (.refused hf)) (hl.cons (.inr rfl))
      fun _ ha' => .pure (ha' _)
  have hst : status ≠ .invalid := by
    rintro rfl
    simp at hstatus
  refine .bind (does_setSlot (fun c => { c with status }) (c := newConn fd 0 udata 0 rlimit)
    (Function.update_self ..) (fun _ _ => rfl) (fun _ => ⟨rfl, rfl⟩) (fun _ => hst) rfl) ?_
  rintro _ _ rfl
  refine .ite (fun hcon => ?_) fun hcon => ?_
  · subst hcon
    refine .bind (does_subscribe _ (Abs.set_slot_self ..)) ?_
    rintro r _ ⟨mask, np, evs, hsub, rfl⟩
    -- setting the status and subscribing are one change of the slot
    have hput : ((a'.create i rest (newConn fd 0 udata 0 rlimit)).set i
        { newConn fd 0 udata 0 rlimit with status := .connecting }).put i
          { newConn fd 0 udata 0 rlimit with status := .connecting, mask } np evs
        = (a'.create i rest (newConn fd 0 udata 0 rlimit)).put i
          { newConn fd 0 udata 0 rlimit with status := .connecting, mask } np evs := by
      rw [Abs.set_eq_put, Abs.put_put, List.append_nil]
    rw [hput]
    refine .ite (fun hr => ?_) fun hr => ?_
    · exact does_failSocket hch hfd hf hi hn hsub hr ⟨rfl, hsub.mask_of_failed hr, rfl⟩
    obtain rfl := not_not.mp hr
    refine .bind (does_setErr _) ?_
    rintro _ _ rfl
    exact .pure (.tail (.tail (hch _) (.opened hfd hf hi hn (.connecting rfl hsub))) (.err _))
  · obtain rfl : status = .connected := by simpa [hcon] using hstatus
    exact .pure (.tail (hch _) (.openSet hfd hf hi hn (.connected rfl)))

end Lsocket
