import Lsocket.Net.Run

/-!
# What one event of the poller does

`pollEvent` says nothing to a free slot, accepts on one that listens, ends the connect of one that is
connecting, and serves any other. `Handled` lists all that can come of it, with the events that it
stores; whatever holds of a loop of `socket_poll` is proved from these cases (`does_pollLoop_of`).
-/

namespace Lsocket

open CInt

variable {σ : Type} {B : Backend σ} {a a' : Abs σ} {i : ℕ} {c : Conn} {op : Op}

/-! ## Accepting -/

/-- What `_accept` does for a listener `l`: no connection is there, or none that can be kept; or there is
a new connection. -/
inductive Admits (B : Backend σ) (l : Conn) (a : Abs σ) : Option ℕ → Abs σ → Prop
  | none : Admits B l a none a
  | full {fd : ℤ} (hfd : 0 ≤ fd) (hf : a.free = []) :
      Admits B l a .none (((a.emit (.acquired fd)).emit .refused).closeFd B fd)
  | dropped {fd rlimit : ℤ} {j : ℕ} {rest : List ℕ} (hfd : 0 ≤ fd) (hf : a.free = j :: rest)
      (hj : j < a.max) (hn : a.slot j = .none) :
      Admits B l a .none (((a.emit (.acquired fd)).create j rest
        (newConn fd l.slimit l.udata 0 rlimit)).close j B (newConn fd l.slimit l.udata 0 rlimit))
  | some {fd rlimit : ℤ} {j : ℕ} {rest : List ℕ} (hfd : 0 ≤ fd) (hf : a.free = j :: rest)
      (hj : j < a.max) (hn : a.slot j = .none) :
      Admits B l a (.some j) (((a.emit (.acquired fd)).create j rest
        (newConn fd l.slimit l.udata 0 rlimit)).set j
          { newConn fd l.slimit l.udata 0 rlimit with status := .connected })

/-- `_accept`, by what becomes of the new connection. -/
theorem does_accept_cases (hc : a.slot i = some c) :
    Does B (accept B i) a fun r a' => Admits B c a r a' := by
  refine .bind does_descriptorCall ?_
  rintro r _ (⟨hr, rfl⟩ | ⟨hr, rfl⟩)
  · rw [if_pos (by omega)]
    exact .pure .none
  rw [if_neg (by omega)]
  refine .bind does_simpleCall ?_
  rintro _ _ rfl
  refine .bind (does_slotAt (a := a.emit (.acquired r.ret)) hc) ?_
  rintro l _ ⟨rfl, hl⟩
  have hlimit : l.slimit = c.slimit := congrArg Conn.slimit hl.conn_eq
  have hudata : l.udata = c.udata := congrArg Conn.udata hl.conn_eq
  rw [hlimit, hudata]
  refine .bind (does_createSocket c.slimit c.udata 0 hr) ?_
  rintro _ _ (⟨rfl, hf, rfl⟩ | ⟨j, rest, rlimit, rfl, hf, hn, hj, rfl⟩)
  · refine .bind (does_socketCloseFd r.ret) ?_
    rintro _ _ rfl
    exact .pure (.full hr hf)
  refine .bind does_setFlags ?_
  rintro _ _ rfl
  refine .ite (fun _ => ?_) fun _ => ?_
  · refine .bind (does_closeSocket (c := newConn r.ret c.slimit c.udata 0 rlimit)
      (Function.update_self ..)) ?_
    rintro _ _ rfl
    exact .pure (.dropped hr hf hj hn)
  · refine .bind (does_setSlot (fun c => { c with status := .connected })
      (c := newConn r.ret c.slimit c.udata 0 rlimit) (Function.update_self ..) (fun _ _ => rfl)
      (fun _ => ⟨rfl, rfl⟩) (fun _ => by simp) rfl) ?_
    rintro _ _ rfl
    exact .pure (.some hr hf hj hn)

/-! ## One event -/

/-- A write event and a read event for a connection: what was written, if the queue did not fail, and
whether there is something to read. -/
inductive Serves (B : Backend σ) (i : ℕ) (c : Conn) (np : σ) : Bool → Conn → σ → List Ev → Prop
  | skip : Serves B i c np false c np []
  | flush {c' : Conn} {np' : σ} {evs : List Ev} (h : Flush B i c np c' np' evs)
      (hs : c.status = .halfclose → c'.queue ≠ []) : Serves B i c np true c' np' evs

/-- What the event `ie` of the poller does, with the events that are stored. -/
inductive Handled (B : Backend σ) (ie : NpEvent) (a : Abs σ) : List SocketEvent → Abs σ → Prop
  | free (hn : a.slot ie.ud = none) : Handled B ie a [] a
  | refused {c : Conn} {a' : Abs σ} (hc : a.slot ie.ud = some c) (hs : c.status = .listening)
      (h : Admits B c a none a') : Handled B ie a [] a'
  | accepted {c d : Conn} {j : ℕ} {a' : Abs σ} (hc : a.slot ie.ud = some c) (hs : c.status = .listening)
      (h : Admits B c a (some j) a') (hd : a'.slot j = some d) {e : SocketEvent}
      (he : e = { id := j, type := .accept, udata := d.udata, arg := some (ie.ud : ℤ) }) :
      Handled B ie a [e] (a'.emit (.raised e))
  | connected {c : Conn} {r : ℤ} {mask : Mask} {np : σ} {evs : List Ev} (hc : a.slot ie.ud = some c)
      (hs : c.status = .connecting) (h : Subscribe B ie.ud c.fd c.mask .none a.np r mask np evs)
      {e : SocketEvent} (he : e = { id := ie.ud, type := if ie.read then .connThenRead else .connect
                                    udata := c.udata, arg := some 0 }) :
      Handled B ie a [e] ((a.put ie.ud { c with status := .connected, mask } np
        (evs ++ [.completed ie.ud (!c.queue.isEmpty)])).emit (.raised e))
  | unconnected {c : Conn} {err : ℤ} (hc : a.slot ie.ud = some c) (hs : c.status = .connecting)
      (herr : err ≠ 0) {e : SocketEvent}
      (he : e = { id := ie.ud, type := .connerr, udata := c.udata, arg := some err }) :
      Handled B ie a [e] ((a.close ie.ud B c).emit (.raised e))
  | served {c c' : Conn} {np : σ} {evs : List Ev} (hc : a.slot ie.ud = some c)
      (hs : c.status ≠ .listening ∧ c.status ≠ .connecting)
      (h : Serves B ie.ud c a.np ie.write c' np evs) (hr : ie.read = false) :
      Handled B ie a [] (a.put ie.ud c' np evs)
  | ready {c c' : Conn} {np : σ} {evs : List Ev} (hc : a.slot ie.ud = some c)
      (hs : c.status ≠ .listening ∧ c.status ≠ .connecting)
      (h : Serves B ie.ud c a.np ie.write c' np evs) {e : SocketEvent}
      (he : e = { id := ie.ud, type := .read, udata := c.udata, arg := none }) :
      Handled B ie a [e] ((a.put ie.ud c' np evs).emit (.raised e))
  | broken {c c' : Conn} {evs : List Ev} {err : ℤ} (hc : a.slot ie.ud = some c)
      (hs : c.status ≠ .listening ∧ c.status ≠ .connecting) (h : Drain ie.ud c c' evs) (herr : err ≠ 0)
      {e : SocketEvent} (he : e = { id := ie.ud, type := .sockerr, udata := c.udata, arg := some err }) :
      Handled B ie a [e] ((a.put ie.ud c' a.np (.raised e :: evs)).close ie.ud B c')
  | finished {c c' : Conn} {np : σ} {evs : List Ev} (hc : a.slot ie.ud = some c)
      (hs : c.status = .halfclose) (h : Flush B ie.ud c a.np c' np evs) (hq : c'.queue = [])
      {e : SocketEvent} (he : e = { id := ie.ud, type := .wridoneclose, udata := c.udata, arg := none }) :
      Handled B ie a [e] ((a.put ie.ud c' np (.raised e :: evs)).close ie.ud B c')

/-- An event is stored. -/
theorem does_raise_eq (e : SocketEvent) :
    Does B (raise e) a fun es a' => es = [e] ∧ a' = a.emit (.raised e) := by
  refine .bind (does_emit _) ?_
  rintro _ _ rfl
  exact .pure ⟨rfl, rfl⟩

/-- An event is stored, and then its slot is closed. -/
theorem does_raiseClose_eq {e : SocketEvent} (hc : a.slot i = some c) :
    Does B (do
        let es ← raise e
        closeSocket B i
        pure es)
      a fun es a' => es = [e] ∧ a' = (a.emit (.raised e)).close i B c := by
  refine .bind (does_raise_eq e) ?_
  rintro _ _ ⟨rfl, rfl⟩
  refine .bind (does_closeSocket (a := a.emit (.raised e)) hc) ?_
  rintro _ _ rfl
  exact .pure ⟨rfl, rfl⟩

/-- What `_onconnect` does: the connect has succeeded, or the slot is free. -/
theorem does_onconnect_cases (hc : a.slot i = some c) :
    Does B (onconnect B i) a fun err a' =>
      (err = 0 ∧ ∃ r mask np evs, Subscribe B i c.fd c.mask .none a.np r mask np evs ∧
        a' = a.put i { c with status := .connected, mask } np
          (evs ++ [.completed i (!c.queue.isEmpty)])) ∨
        (err ≠ 0 ∧ a' = a.close i B c) := by
  refine .bind (does_call _) ?_
  rintro r _ ⟨-, rfl⟩
  refine .bind does_socketErrno ?_
  rintro errno a rfl
  refine .ite (fun _ => ?_) fun herr => ?_
  · refine .bind (does_slotAt hc) ?_
    rintro s _ ⟨rfl, hshow⟩
    -- what the event records is whether the source would still have something to send
    have hsome : s.head.isSome = !c.queue.isEmpty := by
      rw [Bool.eq_iff_iff]
      simp [Option.isSome_iff_ne_none, hshow.head_iff]
    rw [hsome]
    refine .bind (does_emit _) ?_
    rintro _ _ rfl
    rw [← Abs.put_emit_self hc]
    refine .bind (does_setSlot (fun c => { c with status := .connected }) (Abs.put_slot_self ..)
      (fun _ _ => rfl) (fun _ => ⟨rfl, rfl⟩) (fun _ => by simp) rfl) ?_
    rintro _ _ rfl
    rw [Abs.put_set]
    refine .bind (does_subscribe .none (Abs.put_slot_self ..)) ?_
    rintro _ _ ⟨m, np, evs, hsub, rfl⟩
    rw [Abs.put_put]
    exact .pure (.inl ⟨rfl, _, m, np, evs, hsub, rfl⟩)
  · refine .bind (does_closeSocket hc) ?_
    rintro _ _ rfl
    exact .pure (.inr ⟨herr, rfl⟩)

/-- The last check of `pollConn`, when the queue did not fail. -/
theorem does_pollRead_handled {ie : NpEvent} {c' : Conn} {np : σ} {evs : List Ev}
    (hc : a.slot ie.ud = some c) (hs : c.status ≠ .listening ∧ c.status ≠ .connecting)
    (h : Serves B ie.ud c a.np ie.write c' np evs) :
    Does B (pollRead ie.ud c.udata ie) (a.put ie.ud c' np evs) fun es a' => Handled B ie a es a' := by
  refine .ite (fun _ => ?_) fun hr => .pure (.served hc hs h (by simpa using hr))
  refine (does_raise_eq _).mono ?_
  rintro _ _ ⟨rfl, rfl⟩
  exact .ready hc hs h rfl

/-- The case of `socket_poll` for a connection. -/
theorem does_pollConn_handled (ie : NpEvent) (hc : a.slot ie.ud = some c)
    (hs : c.status ≠ .listening ∧ c.status ≠ .connecting) :
    Does B (pollConn B ie.ud ie) a fun es a' => Handled B ie a es a' := by
  refine .bind (does_slotAt hc) ?_
  rintro s a ⟨rfl, hshow⟩
  have hudata : s.udata = c.udata := congrArg Conn.udata hshow.conn_eq
  rw [hudata]
  refine .ite (fun hw => ?_) fun hw => ?_
  swap
  · have hserves : Serves B ie.ud c a.np ie.write c a.np [] := by
      rw [show ie.write = false by simpa using hw]
      exact .skip
    have := does_pollRead_handled hc hs hserves
    rwa [Abs.put_self hc] at this
  refine .bind (does_sendBuffer hc) ?_
  rintro err _ (⟨herr, c', evs, hd, rfl⟩ | ⟨rfl, c', np, evs, hf, rfl⟩)
  · rw [if_pos herr]
    refine (does_raiseClose_eq (Abs.put_slot_self ..)).mono ?_
    rintro _ _ ⟨rfl, rfl⟩
    rw [Abs.put_emit]
    exact .broken hc hs hd herr rfl
  rw [if_neg (by decide)]
  refine .bind (does_slotAt (Abs.put_slot_self ..)) ?_
  rintro s' _ ⟨rfl, hshow'⟩
  have hst : s'.status = c.status := (congrArg Conn.status hshow'.conn_eq).trans hf.status
  have hudata' : s'.udata = c.udata := (congrArg Conn.udata hshow'.conn_eq).trans hf.udata
  rw [hst, hudata']
  refine .ite (fun h => ?_) fun h => ?_
  · refine (does_raiseClose_eq (Abs.put_slot_self ..)).mono ?_
    rintro _ _ ⟨rfl, rfl⟩
    rw [Abs.put_emit]
    exact .finished hc h.1 hf (hshow'.head_iff.mp h.2) rfl
  · refine does_pollRead_handled hc hs ?_
    rw [hw]
    exact .flush hf fun hs hq => h ⟨hs, hshow'.head_iff.mpr hq⟩

/-- The body of the loop of `socket_poll`. -/
theorem does_pollEvent_handled (ie : NpEvent) (hi : ie.ud < a.max) :
    Does B (pollEvent B ie) a fun es a' => Handled B ie a es a' := by
  rcases hc : a.slot ie.ud with _ | c
  · refine .bind (does_slotAt_free hc hi) ?_
    rintro s _ ⟨rfl, hs⟩
    rw [hs]
    exact .pure (.free hc)
  refine .bind (does_slotAt hc) ?_
  rintro s _ ⟨rfl, hshow⟩
  have hst : s.status = c.status := congrArg Conn.status hshow.conn_eq
  have hudata : s.udata = c.udata := congrArg Conn.udata hshow.conn_eq
  rw [hudata]
  rcases hs : s.status with _ | _ | _ | _ | _ | _ | _
  · exact absurd (hst.symm.trans hs) hshow.status
  · refine .bind (does_accept_cases hc) ?_
    intro r a' h
    rcases r with _ | j
    · exact .pure (.refused hc (hst.symm.trans hs) h)
    obtain ⟨d, hd⟩ : ∃ d, a'.slot j = some d := by
      cases h
      exact ⟨_, Abs.set_slot_self ..⟩
    refine .bind (does_slotAt hd) ?_
    rintro t _ ⟨rfl, ht⟩
    have hudata : t.udata = d.udata := congrArg Conn.udata ht.conn_eq
    rw [hudata]
    refine (does_raise_eq _).mono ?_
    rintro _ _ ⟨rfl, rfl⟩
    exact .accepted hc (hst.symm.trans hs) h hd rfl
  · refine .bind (does_onconnect_cases hc) ?_
    rintro err a' (⟨rfl, r, mask, np, evs, hsub, rfl⟩ | ⟨herr, rfl⟩)
    · refine (does_raise_eq _).mono ?_
      rintro _ _ ⟨rfl, rfl⟩
      exact .connected hc (hst.symm.trans hs) hsub rfl
    · refine (does_raise_eq _).mono ?_
      rintro _ _ ⟨rfl, rfl⟩
      exact .unconnected hc (hst.symm.trans hs) herr (by rw [if_pos herr])
  all_goals exact does_pollConn_handled ie hc (by simp [← hst, hs])

/-! ## The loop -/

theorem Admits.max_eq {r : Option ℕ} (h : Admits B c a r a') : a'.max = a.max := by
  cases h with
  | none | full | some => rfl
  | dropped => exact Abs.close_max

/-- An event does not alter the length of the array. -/
theorem Handled.max_eq {ie : NpEvent} {es : List SocketEvent} (h : Handled B ie a es a') :
    a'.max = a.max := by
  cases h with
  | free | connected | served | ready => rfl
  | refused _ _ h => exact h.max_eq
  | accepted _ _ h => exact h.max_eq
  | unconnected | broken | finished => exact Abs.close_max

variable {I : Abs σ → Prop}

/-- What every event of the poller keeps, the loop keeps. -/
theorem does_pollLoop_of {ies : List NpEvent} (hies : ∀ ie ∈ ies, ie.ud < a.max)
    (h : ∀ ie a es a', I a → Handled B ie a es a' → I a') (ha : I a) :
    Does B (pollLoop B ies) a fun _ a' => I a' := by
  induction ies generalizing a with
  | nil => exact .pure ha
  | cons ie ies ih =>
    refine .bind (does_pollEvent_handled ie (hies ie List.mem_cons_self)) ?_
    intro es a' hh
    refine .bind (ih (fun e he => ?_) (h ie a es a' ha hh)) fun es' a'' ha'' => .pure ha''
    rw [hh.max_eq]
    exact hies e (List.mem_cons_of_mem _ he)

/-- What every event of the poller keeps, `socket_poll` keeps. -/
theorem does_socketPoll_of (timeout : ℤ) (hnp : ∀ a np, I a → I { a with np })
    (h : ∀ ie a es a', I a → Handled B ie a es a' → I a') (ha : I a) :
    Does B (socketPoll B timeout) a fun _ a' => I a' := by
  refine .bind does_net ?_
  rintro n a ⟨rfl, hn, -⟩
  rw [hn]
  refine .bind (does_npPoll timeout) ?_
  rintro ies _ ⟨hies, o, o', np, hp, rfl⟩
  refine .bind (.check_or (Q := fun _ a' => a' = { a with np }) (.inr (.inr rfl)) fun _ => rfl) ?_
  rintro _ _ rfl
  exact does_pollLoop_of hies h (hnp a np ha)

/-- The same for the call. -/
theorem does_poll_of (timeout : ℤ) (hnp : ∀ a np, I a → I { a with np })
    (h : ∀ ie a es a', I a → Handled B ie a es a' → I a') (ha : I a) :
    Does B (Op.call B (.poll timeout)) a fun _ a' => I a' :=
  .bind (does_socketPoll_of timeout hnp h ha) fun _ _ ha' => .pure ha'

/-- What the changes of a call keep, the call keeps. -/
theorem Changes.keeps {v : ℤ} (h : Changes B op v a a')
    (hchange : ∀ a a', I a → Change B op v a a' → I a') (ha : I a) : I a' := by
  induction h with
  | refl => exact ha
  | tail _ hch ih => exact hchange _ _ ih hch

/-- The rule for what holds in every run: the changes of the calls other than `socket_poll` keep it, and
so does every event of the poller. -/
theorem reach_handled {w : World σ} (hinit : ∀ max, I (Abs.initial B max))
    (hchange : ∀ op v a a', (∀ t, op ≠ .poll t) → I a → Change B op v a a' → I a')
    (hnp : ∀ a np, I a → I { a with np }) (h : ∀ ie a es a', I a → Handled B ie a es a' → I a')
    (hw : (net B).Reach w) : I w.abs := by
  refine hw.invariant (I := fun w => I w.abs) ?_ fun w l w' hw ha hs => ?_
  · rintro _ ⟨max, junk, rfl⟩
    exact (rep_netCreate (B := B) max junk).2 ▸ hinit _
  have hrep := (reach_abs hw).1
  by_cases hop : ∃ t, l.op = .poll t
  · obtain ⟨t, hop⟩ := hop
    obtain ⟨-, -, replies, hrun⟩ := hs
    rw [hop] at hrun
    obtain ⟨_, ⟨-, rfl⟩, ha'⟩ := (does_poll_of t hnp h ha).ok (hrep.answer replies) hrun
    exact ha'
  · exact (step_changes hrep hs).2.keeps
      (fun a a' ha hch => hchange l.op l.ret a a' (fun t ht => hop ⟨t, ht⟩) ha hch) ha

end Lsocket
