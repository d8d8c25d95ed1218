import Lsocket.Net.Course
import Lsocket.Net.Handled
import Lsocket.Net.Lifecycle
import Lsocket.Net.Results

/-!
# The events of a connection, in order

The events that `socket_poll` stores for a connection, from its opening to its end, follow a protocol. A
connection is announced once at most, by `LS_EACCEPT` or by the end of its connect; it is read from
then on; and one error, or the end of its writing, is the last that is heard of it.
-/

namespace Lsocket

variable {σ : Type} {B : Backend σ} {a a' : Abs σ} {i j g : ℕ} {c c' d : Conn} {op : Op} {v : ℤ}
variable {np np' : σ} {evs log : List Ev} {w : World σ} {e : SocketEvent}

/-! ## The protocol -/

/-- How far a connection has come: nothing was stored for it, it is in use, or its end was reported. -/
inductive Stage
  | quiet
  | inUse
  | over
deriving DecidableEq, Repr

namespace Stage

/-- The stage after an event, if the event may come. -/
def next : Stage → EventType → Option Stage
  | .quiet, .accept | .quiet, .connect | .quiet, .connThenRead => some .inUse
  | .quiet, .connerr => some .over
  | .quiet, .read | .inUse, .read => some .inUse
  | .quiet, .sockerr | .quiet, .wridoneclose | .inUse, .sockerr | .inUse, .wridoneclose => some .over
  | _, _ => none

/-- The stage after the events, the earliest first, if each of them may come when it does. -/
def after (ts : List EventType) : Option Stage := ts.foldlM next .quiet

@[simp] theorem after_nil : after [] = some .quiet := rfl

/-- One more event. -/
theorem after_append_singleton (ts : List EventType) (t : EventType) :
    after (ts ++ [t]) = (after ts).bind fun s => s.next t := by
  rw [after, after, List.foldlM_append]
  rcases ts.foldlM next quiet with _ | s
  · rfl
  · exact bind_pure (s.next t)

/-- Only nothing leaves a connection quiet. -/
theorem eq_nil_of_after {ts : List EventType} (h : after ts = some .quiet) : ts = [] := by
  rcases List.eq_nil_or_concat ts with rfl | ⟨ts, t, rfl⟩
  · rfl
  rw [List.concat_eq_append, after_append_singleton] at h
  obtain ⟨s, -, hs⟩ := Option.bind_eq_some_iff.mp h
  cases s <;> cases t <;> cases hs

/-- A read event may come at any time before the end. -/
theorem next_read {s : Stage} (h : s ≠ .over) : s.next .read = some .inUse := by
  cases s <;> first | rfl | exact absurd rfl h

/-- The end may be reported at any stage but the last. -/
theorem next_end {s : Stage} {t : EventType} (h : s ≠ .over) (ht : t = .sockerr ∨ t = .wridoneclose) :
    s.next t = some .over := by
  rcases ht with rfl | rfl <;> cases s <;> first | rfl | exact absurd rfl h

end Stage

/-- The argument of an event: the error if it reports one, and not zero; the listener of a connection
that was accepted. -/
def SocketEvent.Proper (e : SocketEvent) : Prop :=
  match e.type with
  | .connerr | .sockerr => ∃ err, err ≠ 0 ∧ e.arg = some err
  | .connect | .connThenRead => e.arg = some 0
  | .accept => ∃ lis : ℕ, e.arg = some (lis : ℤ)
  | .read | .wridoneclose => e.arg = none

/-- The connection still waits for its first event. -/
def Conn.Waits (c : Conn) : Prop := c.status = .listening ∨ c.status = .connecting

/-- What was stored for the slot follows the protocol. The end of a connection was not reported while it
has the slot, and nothing was while it waits. -/
structure Tells (i : ℕ) (a : Abs σ) : Prop where
  stage : ∃ s, Stage.after (since i (Ev.told i) a.log) = some s ∧
    ∀ c, a.slot i = some c → s ≠ .over ∧ (c.Waits → s = .quiet)
  past : History (fun e past => e.Opens i → (Stage.after (since i (Ev.told i) past)).isSome) a.log
  proper : ∀ e, .raised e ∈ a.log → e.Proper

/-- An event that neither opens the slot nor is stored for it. -/
def Ev.Untold (i : ℕ) (e : Ev) : Prop := ¬ e.Opens i ∧ e.Unreported

theorem Ev.Local.untold {e : Ev} (h : e.Local j) : e.Untold i := ⟨h.steady.not_opens, h.unreported⟩

theorem Ev.untold_acquired (fd : ℤ) : (Ev.acquired fd).Untold i := ⟨id, trivial⟩

/-- Closing a slot tells its user nothing. -/
theorem closing_untold : ∀ e ∈ closeEvs c ++ [.closed j c.fd c.mask], e.Untold i := by
  intro e he
  rcases List.mem_append.mp he with he | he
  · exact ⟨(closeEvs_steady e he).not_opens, closeEvs_unreported e he⟩
  · exact List.mem_singleton.mp he ▸ ⟨id, trivial⟩

/-- What tells nothing does not count. -/
theorem since_untold (h : ∀ e ∈ evs, e.Untold i) :
    since i (Ev.told i) (evs ++ log) = since i (Ev.told i) log := by
  rw [since_append (fun e he => (h e he).1) fun _ _ _ => rfl,
    since_eq_nil (fun e he => ⟨(h e he).1, (h e he).2.told⟩) fun _ _ _ => rfl, List.append_nil]

namespace Tells

/-- Nothing is stored for the slot, and a connection that waits has waited before. -/
theorem keep (h : Tells i a) (evs : List Ev) (hlog : a'.log = evs ++ a.log) (hevs : ∀ e ∈ evs, e.Untold i)
    (hslot : ∀ c', a'.slot i = some c' → ∃ c, a.slot i = some c ∧ (c'.Waits → c.Waits)) :
    Tells i a' := by
  obtain ⟨s, hs, hconn⟩ := h.stage
  refine ⟨⟨s, ?_, fun c' hc' => ?_⟩, ?_, fun e he => ?_⟩
  · rw [hlog, since_untold hevs, hs]
  · obtain ⟨c, hc, hwaits⟩ := hslot c' hc'
    exact ⟨(hconn c hc).1, fun hw => (hconn c hc).2 (hwaits hw)⟩
  · rw [hlog]
    exact h.past.append fun e he _ ho => absurd ho (hevs e he).1
  · rw [hlog] at he
    rcases List.mem_append.mp he with he | he
    · exact absurd (hevs _ he).2 id
    · exact h.proper e he

/-- The same, with the slot as it is. -/
theorem same (h : Tells i a) (evs : List Ev) (hlog : a'.log = evs ++ a.log)
    (hevs : ∀ e ∈ evs, e.Untold i) (hslot : a'.slot i = a.slot i) : Tells i a' :=
  h.keep evs hlog hevs fun c' hc' => ⟨c', hslot ▸ hc', id⟩

/-- An event is stored: the next one of the protocol, if it is for the slot. -/
theorem raise (h : Tells i a) (he : e.Proper) (hself : e.id = i → ∃ s s',
    Stage.after (since i (Ev.told i) a.log) = some s ∧ s.next e.type = some s' ∧
      ∀ c, a.slot i = some c → s' ≠ .over ∧ ¬ c.Waits) : Tells i (a.emit (.raised e)) := by
  refine ⟨?_, ⟨fun ho => ho.elim, h.past⟩, ?_⟩
  · show ∃ s, Stage.after (since i (Ev.told i) (.raised e :: a.log)) = some s ∧ _
    rw [since_cons id fun _ _ _ => rfl, Ev.told]
    by_cases hid : e.id = i
    · obtain ⟨s, s', hs, hnext, hslot⟩ := hself hid
      rw [if_pos hid, Stage.after_append_singleton, hs]
      exact ⟨s', hnext, fun c hc => ⟨(hslot c hc).1, fun hw => absurd hw (hslot c hc).2⟩⟩
    · rw [if_neg hid, List.append_nil]
      exact h.stage
  · rintro x (hx | ⟨_, hx⟩)
    · exact he
    · exact h.proper x hx

/-- The connection in a slot goes on. -/
theorem put (h : Tells j a) (hc : a.slot i = some c) (hevs : ∀ e ∈ evs, e.Untold j)
    (hw : c'.Waits → c.Waits) : Tells j (a.put i c' np evs) := by
  refine h.keep evs rfl hevs fun d hd => ?_
  rcases eq_or_ne j i with rfl | hj
  · obtain rfl := Option.some.inj ((Abs.put_slot_self ..).symm.trans hd)
    exact ⟨c, hc, hw⟩
  · exact ⟨d, (Function.update_of_ne hj ..).symm.trans hd, id⟩

theorem emit {x : Ev} (h : Tells i a) (hx : x.Untold i) : Tells i (a.emit x) :=
  h.same [x] rfl (by simpa using hx) rfl

theorem closeFd (h : Tells i a) (fd : ℤ) : Tells i (a.closeFd B fd) :=
  h.same [.released fd] rfl (by simp [Ev.Untold, Ev.Opens, Ev.Unreported]) rfl

/-- The connection in a slot goes on, and the slot is freed. -/
theorem putClose (h : Tells j a) (hevs : ∀ e ∈ evs, e.Untold j) :
    Tells j ((a.put i c np evs).close i B c') := by
  refine h.keep (closeEvs c' ++ [.closed i c'.fd c'.mask] ++ evs) ?_ ?_ fun d hd => ?_
  · rw [Abs.close_log, List.append_assoc, List.append_assoc]
    rfl
  · exact fun e he => (List.mem_append.mp he).elim (closing_untold e) (hevs e)
  · rw [Abs.close_slot, Abs.put, Function.update_idem] at hd
    rcases eq_or_ne j i with rfl | hj
    · rw [Function.update_self] at hd
      cases hd
    · rw [Function.update_of_ne hj] at hd
      exact ⟨d, hd, id⟩

/-- A slot is freed. -/
theorem close (h : Tells j a) (hc : a.slot i = some c) : Tells j (a.close i B c) := by
  have hput : Tells j ((a.put i c a.np []).close i B c) := h.putClose (by simp)
  rwa [Abs.put_self hc] at hput

/-- A slot is given to a new connection, of which nothing is stored yet. -/
theorem opened {rest : List ℕ} (h : Tells j a) (hevs : ∀ e ∈ evs, e.Local i) :
    Tells j ((a.create i rest d).put i c np evs) := by
  have hevs' : ∀ e ∈ evs, e.Untold j := fun e he => (hevs e he).untold
  rcases eq_or_ne i j with rfl | hj
  swap
  · refine h.same (evs ++ [.opened i d.fd d.protocol]) ?_ ?_ ?_
    · rw [List.append_assoc]
      rfl
    · intro e he
      rcases List.mem_append.mp he with he | he
      · exact hevs' e he
      · exact List.mem_singleton.mp he ▸ ⟨hj, trivial⟩
    · exact (Function.update_of_ne hj.symm ..).trans (Function.update_of_ne hj.symm ..)
  obtain ⟨s, hs, -⟩ := h.stage
  refine ⟨⟨.quiet, ?_, fun _ _ => ⟨nofun, fun _ => rfl⟩⟩, ?_, fun e he => ?_⟩
  · show Stage.after (since i (Ev.told i) (evs ++ .opened i d.fd d.protocol :: a.log)) = _
    rw [since_untold hevs', show since i (Ev.told i) (.opened i d.fd d.protocol :: a.log) = []
      from if_pos rfl, Stage.after_nil]
  · exact History.append ⟨fun _ => by rw [hs]; rfl, h.past⟩ fun e he _ ho => absurd ho (hevs' e he).1
  · rcases List.mem_append.mp he with he | he
    · exact absurd (hevs' _ he).2 id
    · exact h.proper e ((List.mem_cons.mp he).resolve_left nofun)

theorem created {rest : List ℕ} (h : Tells j a) : Tells j (a.create i rest d) := by
  have hput : Tells j ((a.create i rest d).put i d (a.create i rest d).np []) := h.opened (by simp)
  rwa [Abs.put_self (Function.update_self ..)] at hput

end Tells

theorem ConnStep.untold (h : ConnStep B op v i c np c' np' evs) : ∀ e ∈ evs, e.Untold j :=
  fun e he => ⟨(h.about e he).steady.not_opens, h.unreported e he⟩

/-- No step begins a connect. -/
theorem ConnStep.waits (h : ConnStep B op v i c np c' np' evs) (hw : c'.Waits) : c.Waits := by
  unfold Conn.Waits at *
  rcases h.becomes with hs | ⟨hs, -⟩ | hs
  · rwa [hs] at hw
  · exact .inr hs
  · rw [hs] at hw
    rcases hw with hw | hw <;> cases hw

/-- What happens to a connection before it is closed by another call than `socket_poll`. -/
theorem Closing.untold (h : Closing B op v i c np c' np' evs) (hop : ∀ t, op ≠ .poll t) :
    ∀ e ∈ evs, e.Untold j := by
  refine fun e he => ⟨(h.about e he).steady.not_opens, ?_⟩
  cases h with
  | forced | idle | destroyed | unread | unconnected => cases he
  | unsent =>
    rcases List.mem_append.mp he with he | he
    · exact (Chunk.freed_local (i := i) _ e he).unreported
    · rcases List.mem_append.mp he with he | he
      · exact (wrote_local _ _ _ e he).unreported
      · exact List.mem_singleton.mp he ▸ trivial
  | broken hop' => exact absurd hop' (hop _)
  | finished hop' => exact absurd hop' (hop _)

/-! ## The events of the poller -/

/-- Serving a connection does not change its status. -/
theorem Serves.status {b : Bool} (h : Serves B i c np b c' np' evs) : c'.status = c.status := by
  cases h with
  | skip => rfl
  | flush h => exact h.status

theorem Serves.untold {b : Bool} (h : Serves B i c np b c' np' evs) : ∀ e ∈ evs, e.Untold j := by
  cases h with
  | skip => simp
  | flush h => exact fun e he => (h.events_local e he).untold

/-- What is stored for a connection that does not wait any more. -/
theorem Tells.raise_ready (h : Tells j a) (hc : a.slot i = some c) (hw : ¬ c.Waits)
    (he : e = { id := i, type := .read, udata := v, arg := none }) : Tells j (a.emit (.raised e)) := by
  subst he
  refine h.raise rfl ?_
  rintro rfl
  obtain ⟨s, hs, hconn⟩ := h.stage
  refine ⟨s, .inUse, hs, Stage.next_read (hconn c hc).1, fun d hd => ⟨nofun, ?_⟩⟩
  exact Option.some.inj (hc.symm.trans hd) ▸ hw

/-- The end of a connection is stored, and the slot is freed. -/
theorem Tells.ended (h : Tells j a) (hc : a.slot i = some c) (hevs : ∀ e ∈ evs, e.Untold j)
    (he : e.Proper) (hid : e.id = i) (ht : e.type = .sockerr ∨ e.type = .wridoneclose) :
    Tells j ((a.put i c' np (.raised e :: evs)).close i B c') := by
  have hslot : ((a.put i c' np evs).remove i).slot = Function.update a.slot i none :=
    Function.update_idem ..
  -- take the slot away first, raise the event, and close without telling anything more
  have hgone : Tells j ((a.put i c' np evs).remove i) := by
    refine h.keep evs rfl hevs fun d hd => ⟨d, ?_, id⟩
    rw [hslot] at hd
    by_cases hj : j = i
    · rw [hj, Function.update_self] at hd
      cases hd
    · rwa [Function.update_of_ne hj] at hd
  have hraised : Tells j (((a.put i c' np evs).remove i).emit (.raised e)) := by
    refine hgone.raise he fun hj => ?_
    obtain rfl : i = j := hid.symm.trans hj
    obtain ⟨s, hs, hconn⟩ := h.stage
    refine ⟨s, .over, (congrArg _ (since_untold hevs)).trans hs, Stage.next_end (hconn c hc).1 ht, ?_⟩
    intro d hd
    rw [hslot, Function.update_self] at hd
    cases hd
  refine hraised.same (closeEvs c' ++ [.closed i c'.fd c'.mask]) ?_ ?_ (congrFun (Abs.close_slot ..) j)
  · rw [Abs.close_log, List.append_assoc]
    rfl
  · exact closing_untold

/-- Closing a slot stores nothing. -/
theorem since_close (j : ℕ) :
    since i (Ev.told i) (a.close j B c).log = since i (Ev.told i) a.log := by
  have hlog : (a.close j B c).log = closeEvs c ++ [.closed j c.fd c.mask] ++ a.log := by
    rw [Abs.close_log, List.append_assoc]
    rfl
  rw [hlog, since_untold closing_untold]

/-- Nothing was stored for a connection that is new. -/
theorem since_created {rest : List ℕ} :
    since i (Ev.told i) ((a.create i rest d).set i c).log = [] :=
  if_pos rfl

/-- What a listener does tells the other slots nothing. -/
theorem Admits.tells {r : Option ℕ} (h : Admits B c a r a') (ht : Tells i a) : Tells i a' := by
  cases h with
  | none => exact ht
  | full => exact ((ht.emit (Ev.untold_acquired _)).emit (x := .refused) ⟨id, trivial⟩).closeFd _
  | dropped => exact (ht.emit (Ev.untold_acquired _)).created.close (Function.update_self ..)
  | some =>
    rw [Abs.set_eq_put]
    exact (ht.emit (Ev.untold_acquired _)).opened (by simp)

/-- Every event of the poller. -/
theorem Tells.handled {ie : NpEvent} {es : List SocketEvent} (h : Tells i a)
    (hh : Handled B ie a es a') : Tells i a' := by
  cases hh with
  | free => exact h
  | refused _ _ ha => exact ha.tells h
  | @accepted l d j b hc _ ha hd x hx =>
    subst hx
    refine (ha.tells h).raise ⟨ie.ud, rfl⟩ ?_
    rintro rfl
    cases ha with
    | some =>
      refine ⟨.quiet, .inUse, congrArg Stage.after since_created, rfl, fun c' hc' => ⟨nofun, ?_⟩⟩
      obtain rfl := Option.some.inj ((Abs.set_slot_self ..).symm.trans hc')
      rintro (hw | hw) <;> cases hw
  -- waiting so far, so nothing was told yet: this is the first event
  | @connected c r mask np evs hc hs hsub x hx =>
    subst hx
    have hevs : ∀ e ∈ evs ++ [.completed ie.ud (!c.queue.isEmpty)], e.Untold i := by
      intro e he
      rcases List.mem_append.mp he with he | he
      · exact (hsub.events_local e he).untold
      · exact List.mem_singleton.mp he ▸ ⟨id, trivial⟩
    refine Tells.raise (h.put hc hevs fun _ => .inr hs) ?_ ?_
    · show SocketEvent.Proper _
      unfold SocketEvent.Proper
      cases ie.read <;> rfl
    · rintro rfl
      obtain ⟨s, hstage, hconn⟩ := h.stage
      obtain rfl := (hconn c hc).2 (.inr hs)
      refine ⟨.quiet, .inUse, (congrArg _ (since_untold hevs)).trans hstage, ?_, fun d hd => ⟨nofun, ?_⟩⟩
      · show Stage.next .quiet (if ie.read then .connThenRead else .connect) = _
        split <;> rfl
      · obtain rfl := Option.some.inj ((Abs.put_slot_self ..).symm.trans hd)
        rintro (hw | hw) <;> cases hw
  | @unconnected c err hc hs herr x hx =>
    subst hx
    refine (h.close hc).raise ⟨err, herr, rfl⟩ ?_
    rintro rfl
    obtain ⟨s, hstage, hconn⟩ := h.stage
    obtain rfl := (hconn c hc).2 (.inr hs)
    refine ⟨.quiet, .over, (congrArg _ (since_close ..)).trans hstage, rfl, fun d hd => ?_⟩
    rw [Abs.close_slot, Function.update_self] at hd
    cases hd
  | served hc hs hserve =>
    exact h.put hc hserve.untold fun hw => by rwa [Conn.Waits, hserve.status] at hw
  | @ready c c' np evs hc hs hserve x hx =>
    have hput : Tells i (a.put ie.ud c' np evs) :=
      h.put hc hserve.untold fun hw => by rwa [Conn.Waits, hserve.status] at hw
    refine hput.raise_ready (Abs.put_slot_self ..) ?_ hx
    rw [Conn.Waits, hserve.status]
    exact not_or.mpr hs
  | @broken c c' evs err hc hs hd herr x hx =>
    subst hx
    exact h.ended hc (fun e he => (hd.events_local e he).untold) ⟨err, herr, rfl⟩ rfl (.inl rfl)
  | @finished c c' np evs hc hs hf hq x hx =>
    subst hx
    exact h.ended hc (fun e he => (hf.events_local e he).untold) rfl rfl (.inr rfl)

/-! ## The calls -/

/-- Every call but `socket_poll` stores no event. -/
theorem Tells.change (h : Tells j a) (hch : Change B op v a a') (hop : ∀ t, op ≠ .poll t) :
    Tells j a' := by
  cases hch with
  | err => exact h.same [] rfl (by simp) rfl
  | polled => exact h.same [] rfl (by simp) rfl
  | @note e he _ => exact h.emit ⟨he.steady.not_opens, by cases e <;> first | exact he.elim | trivial⟩
  | raised hop' => exact absurd hop' (hop _)
  | refused => exact h.emit ⟨id, trivial⟩
  | drop => exact h.closeFd _
  | conn hc hs => exact h.put hc hs.untold hs.waits
  | close _ hs => exact h.putClose (hs.untold hop)
  | opened _ _ _ _ hm => exact h.opened hm.events_local
  | bounced _ _ _ _ hs => exact (h.opened hs.events_local).close (Abs.put_slot_self ..)
  | destroyed => exact h.emit ⟨id, trivial⟩

/-- In every run, the events stored for a connection follow the protocol, and its status is the one
that they tell. -/
theorem reach_tells (h : (net B).Reach w) (i : ℕ) : Tells i w.abs := by
  refine reach_handled (I := Tells i) (fun max => ?_) (fun _ _ _ _ hop ht hch => ht.change hch hop)
    (fun a np ht => ht.same [] rfl (by simp) rfl) (fun _ _ _ _ ht hh => ht.handled hh) h
  exact ⟨⟨.quiet, rfl, fun c hc => absurd hc.symm (Option.some_ne_none c)⟩, True.intro,
    fun e he => absurd he List.not_mem_nil⟩

/-! ## Every connection -/

/-- The events that were stored so far follow the protocol. -/
structure EventProtocol (w : World σ) : Prop where
  /-- Those of every connection that a slot has held come in the order of the protocol. -/
  order : ∀ i g, (Stage.after (told i g w.log)).isSome
  /-- The end of a connection is stored when it gives its slot back, not earlier. -/
  live : ∀ i, w.Live i → Stage.after (told i (generation i w.log) w.log) ≠ some .over
  /-- Nothing is stored for a listener, or for a connection before the end of its connect. -/
  waits : ∀ i, w.Live i →
    (w.net.sockets i).status = .listening ∨ (w.net.sockets i).status = .connecting →
    told i (generation i w.log) w.log = []
  /-- The argument of an event is the one of its type. -/
  proper : ∀ e, .raised e ∈ w.log → e.Proper

/-- Every `socket_poll` of every run keeps to the protocol, also when the poller reports a slot that was
given to another connection in the meantime. -/
theorem event_protocol (h : (net B).Reach w) : EventProtocol w := by
  have htells := reach_tells h
  have hlast (i : ℕ) : told i (generation i w.log) w.log = since i (Ev.told i) w.log := by
    rw [told, upTo_of_le le_rfl]
  refine ⟨fun i g => ?_, fun i hi => ?_, fun i hi hw => ?_, (htells 0).proper⟩
  · obtain ⟨s, hs, -⟩ := (htells i).stage
    -- the present generation, or one that a later opening has made past
    rcases upTo_ends i g w.log with heq | ⟨post, fd, p, hlog⟩
    · rw [told, heq]
      exact Option.isSome_iff_exists.mpr ⟨s, hs⟩
    · have hpast : History _ w.log := (htells i).past
      rw [hlog] at hpast
      exact hpast.at_event rfl
  · obtain ⟨s, hs, hconn⟩ := (htells i).stage
    rw [hlast, show Stage.after (since i (Ev.told i) w.log) = some s from hs]
    exact fun h => (hconn _ (if_pos hi)).1 (Option.some.inj h)
  · obtain ⟨s, hs, hconn⟩ := (htells i).stage
    rw [hlast]
    exact Stage.eq_nil_of_after (hs.trans (congrArg _ ((hconn _ (if_pos hi)).2 hw)))

/-- A connect that completes, and data that arrives. -/
def connectedRead : World Epoll := (fresh epoll 1).after epoll
  [(.connect false 0, [{ count := 1 }, { ret := 5 }, { ret := 0 }, { ret := 0 }, { ret := 0 },
      { ret := -1, errno := EINPROGRESS }, { ret := 0 }]),
    (.poll 0, [{ ret := 1, ready := [⟨5, false, true, false⟩] }, { ret := 0 }, { ret := 0 }]),
    (.enableread 0 true, [{ ret := 0 }]),
    (.poll 0, [{ ret := 1, ready := [⟨5, true, false, false⟩] }])]

example : told 0 1 connectedRead.log = [.connect, .read] := by decide +kernel

theorem event_protocol_connectedRead : EventProtocol connectedRead :=
  event_protocol (reach_fresh (by decide +kernel))

end Lsocket
