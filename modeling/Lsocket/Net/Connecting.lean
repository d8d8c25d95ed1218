import Lsocket.Net.Fate
import Lsocket.Net.Handled

/-!
# Connections that are being made

`socket_connect` returns before its connection is made, and says so. From then on the slot waits for the
event that ends the connect, with the poller asked to report it. Only a call that closes the slot, or a
read or a send on it that fails, ends this otherwise; and the `socket_poll` that does stores an event that
tells how.
-/

namespace Lsocket

open CInt

variable {σ : Type} {B : Backend σ} {a a' : Abs σ} {i : ℕ} {c c' : Conn} {op : Op} {v : ℤ}
variable {np np' : σ} {evs : List Ev} {es : List SocketEvent}

/-! ## Waiting for the end of a connect -/

/-- The connect has not ended, and the poller was asked for its end. -/
structure Conn.Awaits (c : Conn) : Prop where
  status : c.status = .connecting
  wable : c.mask.wable = true

/-- The slot waits for the end of a connect. -/
def Abs.Awaits (a : Abs σ) (i : ℕ) : Prop := ∃ c, a.slot i = some c ∧ c.Awaits

/-- The same in the world. -/
def World.Awaits (w : World σ) (i : ℕ) : Prop :=
  w.Live i ∧ (w.net.sockets i).status = .connecting ∧ (w.net.sockets i).mask.wable = true

/-- What a world awaits its net awaits. -/
theorem World.awaits_iff {w : World σ} : w.Awaits i ↔ w.abs.Awaits i := by
  constructor
  · rintro ⟨hl, hs, hw⟩
    exact ⟨_, if_pos hl, hs, hw⟩
  · rintro ⟨c, hc, hcon⟩
    by_cases hl : w.Live i
    · obtain rfl := Option.some.inj ((if_pos hl).symm.trans hc)
      exact ⟨hl, hcon.status, hcon.wable⟩
    · cases (if_neg hl).symm.trans hc

/-- The call, returning `v`, does not end what the slot waits for. -/
def Op.Leaves (i : ℕ) (op : Op) (v : ℤ) : Prop :=
  match op with
  | .close id _ => id ≠ i
  | .read id | .send id _ _ | .sendfd id _ _ _ => id = i → v ≠ -1
  | .poll _ | .free => False
  | _ => True

/-- A change of interest that asks for writing leaves the connection waiting. -/
theorem Conn.Awaits.subscribe {fd r : ℤ} {new mask : Mask} (h : c.Awaits)
    (hs : Subscribe B i fd c.mask new np r mask np' evs) (hnew : new.wable = true) : mask.wable = true := by
  cases hs with
  | same | failed => exact h.wable
  | done => exact hnew

/-- No step of a call that leaves the slot to its connect ends the wait. -/
theorem ConnStep.awaits (h : ConnStep B op v i c np c' np' evs) (hop : op.Leaves i v) (hc : c.Awaits) :
    c'.Awaits := by
  cases h with
  | tune | received | whole | behind => exact ⟨hc.status, hc.wable⟩
  | enable _ hs => exact ⟨hc.status, hc.subscribe hs hc.wable⟩
  | start _ _ _ _ hs => exact ⟨hc.status, hc.subscribe hs rfl⟩
  | half hop' =>
    subst hop'
    exact absurd rfl hop
  | flushed hop' | completed hop' =>
    subst hop'
    exact hop.elim

/-- A call that closes the connection does not leave it to its connect. -/
theorem Closing.not_leaves (h : Closing B op v i c np c' np' evs) : ¬ op.Leaves i v := by
  intro hop
  cases h with
  | forced hop' | idle hop' =>
    subst hop'
    exact hop rfl
  | destroyed hop' | broken hop' | finished hop' | unconnected hop' =>
    subst hop'
    exact hop
  | unread hop' hv =>
    subst hop'
    exact hop rfl hv
  | unsent hs hv => cases hs <;> exact hop rfl hv

/-- A change in such a call. -/
theorem Change.awaits (h : Change B op v a a') (hop : op.Leaves i v) (ha : a.Awaits i) : a'.Awaits i := by
  obtain ⟨c, hc, hcon⟩ := ha
  cases h.fate hc with
  | elsewhere _ hslot => exact ⟨c, hslot, hcon⟩
  | step hs => exact ⟨_, Abs.put_slot_self .., hs.awaits hop hcon⟩
  | ended hs => exact absurd hop hs.not_leaves

/-- A chain of changes in such a call. -/
theorem Changes.awaits (h : Changes B op v a a') (hop : op.Leaves i v) (ha : a.Awaits i) : a'.Awaits i :=
  h.keeps (fun _ _ ha hch => hch.awaits hop ha) ha

/-! ## What `socket_connect` returns -/

/-- A mask that could be set is set. -/
theorem Subscribe.mask_of_ok {fd : ℤ} {old new mask : Mask}
    (h : Subscribe B i fd old new np 0 mask np' evs) : mask = new := by
  cases h with
  | same h => exact h.symm
  | done => rfl
  | failed _ hr => exact absurd rfl hr

/-- A connection that is being made waits for its end. -/
theorem does_socketConnect_awaits (udata : ℤ) :
    Does B (socketConnect B false udata) a fun v a' =>
      0 ≤ v → a'.err = LS_CONNECTING → ∃ i : ℕ, v = i ∧ a'.Awaits i := by
  have hfail {a : Abs σ} : Does B (pure (-1) : NetM σ ℤ) a fun v a' =>
      0 ≤ v → a'.err = LS_CONNECTING → ∃ i : ℕ, v = i ∧ a'.Awaits i :=
    .pure fun h => absurd h (by decide)
  refine .bind (does_setErr 0) ?_
  rintro _ _ rfl
  refine .bind does_getaddrinfo ?_
  rintro r a' hr
  rcases r with _ | count
  · exact .bind (does_setErr _) fun _ _ _ => hfail
  refine .bind (does_setErr 0) ?_
  rintro _ _ rfl
  refine .bind (does_connectLoop (.connect false udata) false count) ?_
  rintro r a' ⟨-, hready⟩
  rcases r with _ | _ | ⟨fd, status⟩
  · exact hfail
  · refine .bind does_net fun n _ _ => .ite (fun _ => .bind (does_setErr _) fun _ _ _ => ?_) fun _ => ?_
    · exact .bind (does_emit _) fun _ _ _ => hfail
    · exact .bind (does_emit _) fun _ _ _ => hfail
  obtain ⟨hfd, hstatus, -⟩ := hready
  refine .bind (does_setErr 0) ?_
  rintro _ _ rfl
  refine .bind (does_emit _) ?_
  rintro _ _ rfl
  refine .bind (does_createSocket 0 udata 0 hfd) ?_
  rintro r' _ (⟨rfl, -, rfl⟩ | ⟨i, rest, rlimit, rfl, -, -, -, rfl⟩)
  · exact .bind (does_setErr _) fun _ _ _ => .bind (does_socketCloseFd _) fun _ _ _ => hfail
  have hst : status ≠ .invalid := by
    rintro rfl
    simp at hstatus
  refine .bind (does_setSlot (fun c => { c with status }) (c := newConn fd 0 udata 0 rlimit)
    (Function.update_self ..) (fun _ _ => rfl) (fun _ => ⟨rfl, rfl⟩) (fun _ => hst) rfl) ?_
  rintro _ _ rfl
  refine .ite (fun hcon => ?_) fun hcon => .pure fun _ herr => ?_
  · refine .bind (does_subscribe _ (Abs.set_slot_self ..)) ?_
    rintro r _ ⟨mask, np, evs, hsub, rfl⟩
    refine .ite (fun hr => ?_) fun hr => .bind (does_setErr _) ?_
    · refine .bind does_socketErrno fun _ _ h => .bind (does_setErr _) fun _ _ h' => ?_
      subst h h'
      exact .bind (does_closeSocket (Abs.put_slot_self np evs)) fun _ _ _ => hfail
    · rintro _ _ rfl
      obtain rfl := not_not.mp hr
      refine .pure fun _ _ => ⟨i, rfl, _, Abs.put_slot_self np evs, hcon, ?_⟩
      exact congrArg Mask.wable hsub.mask_of_ok
  -- a connection that is made at once leaves no error behind
  · cases herr

/-! ## What `socket_poll` stores -/

/-- An event that ends a connect. -/
def EventType.EndsConnect (t : EventType) : Prop := t = .connThenRead ∨ t = .connect ∨ t = .connerr

/-- The slot still waits, or its end is among the events. -/
def Told (i : ℕ) (es : List SocketEvent) (a : Abs σ) : Prop :=
  a.Awaits i ∨ ∃ e ∈ es, e.id = i ∧ e.type.EndsConnect

/-- Only the slot counts. -/
theorem Abs.Awaits.of_slot (h : a.Awaits i) (hs : a'.slot i = a.slot i) : a'.Awaits i :=
  h.imp fun _ hc => ⟨hs.trans hc.1, hc.2⟩

theorem Abs.Awaits.close {j : ℕ} (h : a.Awaits i) (hj : i ≠ j) : (a.close j B c).Awaits i :=
  h.of_slot ((congrFun (Abs.close_slot ..) i).trans (Function.update_of_ne hj ..))

/-- What a listener does has no part in it. -/
theorem Admits.awaits {r : Option ℕ} (h : Admits B c a r a') (ha : a.Awaits i) : a'.Awaits i := by
  obtain ⟨d, hd, hcon⟩ := ha
  cases h with
  | none | full => exact ⟨d, hd, hcon⟩
  | dropped _ _ _ hn =>
    have hi := (Abs.ne_of_slot hn hd).symm
    exact Abs.Awaits.close ⟨d, (Function.update_of_ne hi ..).trans hd, hcon⟩ hi
  | some _ _ _ hn =>
    have hi := (Abs.ne_of_slot hn hd).symm
    exact ⟨d, (Function.update_of_ne hi ..).trans ((Function.update_of_ne hi ..).trans hd), hcon⟩

/-- An event of the poller leaves the slot waiting, or its end is stored. -/
theorem Handled.told {ie : NpEvent} (h : Handled B ie a es a') (ha : a.Awaits i) : Told i es a' := by
  obtain ⟨d, hd, hcon⟩ := id ha
  -- another event leaves the slot alone, and an event of a slot that waits ends its connect
  have hother {c : Conn} (hc : a.slot ie.ud = some c) (hs : c.status ≠ .connecting) : i ≠ ie.ud := by
    rintro rfl
    exact hs (Option.some.inj (hc.symm.trans hd) ▸ hcon.status)
  cases h with
  | free => exact .inl ha
  | refused _ _ h => exact .inl (h.awaits ha)
  | accepted _ _ h => exact .inl (h.awaits ha)
  | connected hc hs _ he =>
    rcases eq_or_ne i ie.ud with rfl | hi
    · refine .inr ⟨_, List.mem_singleton_self _, he ▸ rfl, he ▸ ?_⟩
      show EventType.EndsConnect (if ie.read then .connThenRead else .connect)
      split
      · exact .inl rfl
      · exact .inr (.inl rfl)
    · exact .inl (ha.of_slot (Function.update_of_ne hi ..))
  | unconnected hc hs _ he =>
    rcases eq_or_ne i ie.ud with rfl | hi
    · exact .inr ⟨_, List.mem_singleton_self _, he ▸ rfl, he ▸ .inr (.inr rfl)⟩
    · exact .inl (ha.close hi)
  | served hc hs | ready hc hs => exact .inl (ha.of_slot (Function.update_of_ne (hother hc hs.2) ..))
  | broken hc hs =>
    have hi := hother hc hs.2
    exact .inl (Abs.Awaits.close (ha.of_slot (Function.update_of_ne hi ..)) hi)
  | finished hc hs =>
    have hi := hother hc (hs ▸ by decide)
    exact .inl (Abs.Awaits.close (ha.of_slot (Function.update_of_ne hi ..)) hi)

/-- The loop of `socket_poll` loses no end of a connect. -/
theorem does_pollLoop_told {ies : List NpEvent} (hies : ∀ ie ∈ ies, ie.ud < a.max) (ha : a.Awaits i) :
    Does B (pollLoop B ies) a fun es a' => Told i es a' := by
  induction ies generalizing a with
  | nil => exact .pure (.inl ha)
  | cons ie ies ih =>
    refine .bind (does_pollEvent_handled ie (hies ie List.mem_cons_self)) ?_
    intro es a₁ hh
    have hmax : ∀ x ∈ ies, x.ud < a₁.max := fun x hx => hh.max_eq ▸ hies x (List.mem_cons_of_mem _ hx)
    rcases hh.told ha with ha₁ | ⟨e, he, hend⟩
    · refine .bind (ih hmax ha₁) fun es' a₂ ht => .pure (ht.imp_right ?_)
      rintro ⟨e, he, hend⟩
      exact ⟨e, List.mem_append_right _ he, hend⟩
    · refine .bind (does_pollLoop_of (I := fun _ => True) hmax (fun _ _ _ _ _ _ => trivial) trivial) ?_
      exact fun es' a₂ _ => .pure (.inr ⟨e, List.mem_append_left _ he, hend⟩)

/-- Every connect that ends in a `socket_poll` is told. -/
theorem does_socketPoll_told (timeout : ℤ) (ha : a.Awaits i) :
    Does B (socketPoll B timeout) a fun es a' => Told i es a' := by
  refine .bind does_net ?_
  rintro n a ⟨rfl, hn, -⟩
  rw [hn]
  refine .bind (does_npPoll timeout) ?_
  rintro ies _ ⟨hies, o, o', np, hp, rfl⟩
  refine .bind (.check_or (Q := fun _ a' => a' = { a with np }) (.inr (.inr rfl)) fun _ => rfl) ?_
  rintro _ _ rfl
  exact does_pollLoop_told hies ha

end Lsocket
