import Lsocket.Lua.Intake
import Lsocket.Lua.Waiting
import Lsocket.Net.Connecting

/-!
# Every connect can be answered

A coroutine that waits in `socket.connect` is woken by the event that ends its connect. Until then the
poller is asked for that event, or the event is left to be dispatched, and the entry names the coroutine.
It holds as long as no call takes the entry away, or closes the socket.
-/

namespace Lsocket.Lua

open CInt

variable {σ : Type} {B : Backend σ} {s s' : State σ} {i k : ℕ} {id : ℤ} {op : Op} {O : Op → Prop}

/-! ## What leaves a connect alone -/

/-- A call that closes the socket of the id. -/
def Call.Shuts : Call → ℤ → Prop
  | .shutdown n, id | .close n, id | .send n _ _, id => wrap n = id
  | _, _ => False

/-- A call that does not shut the socket leaves it to its connect. -/
theorem Call.Makes.leaves {c : Call} (h : c.Makes op) (hc : ¬ c.Shuts i) (v : ℤ) : op.Leaves i v := by
  cases h with
  | listen | connect | readenable => trivial
  | shutdown | close | unsent => exact hc
  | send => exact fun hid => absurd hid hc

/-- So does the handler of an event for another socket. -/
theorem HandlerMakes.leaves {e : SocketEvent} (h : HandlerMakes e op) (he : wrap e.id ≠ i) (v : ℤ) :
    op.Leaves i v := by
  cases h with
  | read => exact fun hid => absurd hid he
  | close => exact he

/-- The calls of a passage leave the slot alone. -/
theorem Kept.awaits (h : Kept B O s s') (hs : Reached B s.world) (hO : ∀ op, O op → ∀ v, op.Leaves i v)
    (ha : s.world.abs.Awaits i) : s'.world.abs.Awaits i :=
  h.passage.keeps hs.2 (fun op v _ _ hop _ ha hch => hch.awaits (hO op hop v) ha) ha

/-! ## A call that suspends its coroutine -/

/-- `socket.connect` suspends its coroutine where the connect is being made. -/
theorem connect_awaits (hs : Reached B s.world) :
    Prog.wp (connect B)
      (fun r s' => ∀ id, r = .yield (.connecting id) → ∃ i : ℕ, id = i ∧ s'.world.abs.Awaits i ∧
        ∃ x, s'.pool (.id id) = some x ∧ x.co = s.running) (OnError fun _ => True) s := by
  rw [connect, Prog.wp_bind]
  unfold Prog.wp Lua.net
  rcases hr : socketConnect B false 0 s.world with ⟨e | n, w⟩
  · intro h
    cases h
  -- with `LS_CONNECTING` set, the slot of the new id awaits the end of its connect
  obtain ⟨_, ⟨-, rfl⟩, haw⟩ := (does_socketConnect_awaits (B := B) 0).ok hs.1 hr
  show Prog.wp _ _ _ _
  rw [Prog.wp_bind, wp_lasterrno]
  split
  swap
  · intro id hid
    cases hid
  next hn =>
  rw [Prog.wp_bind, wp_start]
  split
  swap
  · intro id hid
    cases hid
  next hcon =>
  rw [Prog.wp_bind, wp_entry (Function.update_self ..)]
  refine wp_suspend_of (fun hco id hid => ?_) trivial
  obtain rfl : n = id := Point.connecting.inj (Result.yield.inj hid)
  obtain ⟨i, hi, ha⟩ := haw hn hcon
  exact ⟨i, hi, ha, _, Function.update_self .., hco⟩

/-- No other call suspends its coroutine in `socket.connect`. -/
theorem Called.eq_connect {me : ℕ} {pool pool' : Key → Option Entry} {c : Call} {notes : List Note}
    (h : Called me pool c (some (.yield (.connecting id))) pool' notes) :
    c = .connect ∨ ∃ n callback, c = .start n callback := by
  cases h with
  | started hc | owned hc => exact hc.elim (fun h => .inr ⟨_, _, h⟩) .inl
  | same hr | bound _ hr | removed _ _ hr | enabled _ _ hr => exact absurd rfl (hr _)
  | waited _ _ _ hr => cases (hr _ rfl).1

/-- A `socket.connect` that waits has an entry for the coroutine and a slot that waits. -/
theorem call_awaits {c : Call} {s₁ : State σ} (hs : Reached B s.world) (hsound : Sound s.pool)
    (h : c.run B s = (.ok (.yield (.connecting id)), s₁)) :
    ∃ i : ℕ, id = i ∧ s₁.world.abs.Awaits i ∧ ∃ x, s₁.pool (.id id) = some x ∧ x.co = s.running := by
  obtain ⟨-, -, notes, hcalled, -⟩ := Prog.wp_ok (ends_call hsound c) h
  rcases hcalled.eq_connect with rfl | ⟨n, callback, rfl⟩
  · exact Prog.wp_ok (connect_awaits hs) h id rfl
  · obtain ⟨-, -, hno⟩ := Prog.map_ok h
    cases hno

/-! ## Dispatch -/

section Handles

variable {pool pool' : Key → Option Entry} {point : ℕ → Option Point} {e : SocketEvent}
variable {heard : Option Heard} {v : Verdict} {notes : List Note} {x : Entry}

/-- The event tells how a connect has ended. -/
def AnswersConnect (e : SocketEvent) : Prop := e.type = .connect ∨ e.type = .connerr

/-- What `socket.connect` returns after the event. -/
def connectAnswer (e : SocketEvent) : List Value :=
  if e.type = .connect then [.number e.id] else [.nil, .text (socketError (e.arg.getD 0))]

/-- The end of a connect wakes the coroutine of the entry. -/
theorem Handles.answers (h : Handles pool point e heard v pool' notes) (hx : pool (.id e.id) = some x)
    (he : AnswersConnect e) : v = woken point x.co (connectAnswer e) := by
  have huniq {y : Entry} (hy : pool (.id e.id) = some y) : y = x := Option.some.inj (hy.symm.trans hx)
  unfold AnswersConnect at he
  unfold connectAnswer
  cases h with
  | connected ht hy => rw [if_pos ht, huniq hy]
  | refused ht hy => rw [if_neg (by simp [ht]), huniq hy]
  | missing _ hn => cases hn.symm.trans hx
  | ignored ht => exact (he.elim ht.2.2.1 ht.2.2.2.1).elim
  | _ ht => simp [ht] at he

/-- So does the failure of a read. -/
theorem Handles.fails {err : ℤ} (h : Handles pool point e heard v pool' notes)
    (hx : pool (.id e.id) = some x) (hh : heard = some (.failed err)) :
    v = woken point x.co [.nil, .text (socketError err)] := by
  cases h with
  | failed _ hy =>
    rw [Option.some.inj (hy.symm.trans hx), Heard.failed.inj (Option.some.inj hh)]
  | _ => cases hh

end Handles

/-- A read on a slot that waits leaves it waiting, unless it fails. -/
theorem wp_lread_awaits {Q : Heard → State σ → Prop} {P : State σ → Prop} (hs : Reached B s.world)
    (ha : s.world.abs.Awaits i)
    (hQ : ∀ h w, Reached B w → (w.abs.Awaits i ∨ ∃ err, h = .failed err) →
      Q h { s with world := w, heard := some h }) : Prog.wp (lread B id) Q (OnError P) s := by
  rw [lread, Prog.wp_bind]
  unfold Prog.wp Lua.net
  rcases hr : socketRead B (wrap id) s.world with ⟨e | r, w⟩
  · intro h
    cases h
  have hrun : (Op.read (wrap id)).call B s.world = (.ok r.n, w) := Prog.map_of_ok _ hr
  obtain ⟨_, ⟨hinv, rfl⟩, hch⟩ := (does_call_changes (.read (wrap id))
    (hs.1.max_eq ▸ within_of_ok hr)).ok hs.1 hrun
  refine hQ _ w ⟨⟨hinv, rfl⟩, hch.reach hs.2⟩ ?_
  by_cases hn : r.n = -1
  · refine .inr ⟨w.net.err, ?_⟩
    rw [if_neg (by omega), if_neg (by omega)]
  · exact .inl (hch.awaits (fun _ => hn) ha)

/-- The handler of `LS_EREAD` leaves a slot waiting, unless it hears of a failure. -/
theorem eventRead_awaits {a : ℕ} (hs : Reached B s.world) (ha : s.world.abs.Awaits i) :
    Prog.wp (eventRead B id a)
      (fun _ s' => s'.world.abs.Awaits i ∨ ∃ err, s'.heard = some (.failed err))
      (OnError fun s' => s'.world.abs.Awaits i ∨ ∃ err, s'.heard = some (.failed err)) s := by
  rw [eventRead, Prog.wp_bind, wp_lookup]
  rcases s.pool (.id id) with _ | x
  · exact .inl ha
  dsimp only
  rw [Prog.wp_bind]
  refine wp_lread_awaits hs ha fun h w hw haw => ?_
  -- what comes behind the read reads nothing, and calls the net only after a failure
  have hrest := Moves.afterRead (B := B) (O := fun op => (∃ err, h = .failed err) ∧ ∀ j, op ≠ .read j)
    id a x h (fun err he => ⟨⟨err, he⟩, fun j hj => by cases hj⟩) { s with world := w, heard := some h } hw
  refine wp_anyhow hrest fun s₁ hm => ?_
  rcases haw with haw | ⟨err, rfl⟩
  · by_cases hf : ∃ err, h = .failed err
    · obtain ⟨err, rfl⟩ := hf
      exact .inr ⟨err, hm.heard fun j hj => hj.2 j rfl⟩
    · exact .inl (hm.toKept.awaits hw (fun op hop => absurd hop.1 hf) haw)
  · exact .inr ⟨err, hm.heard fun j hj => hj.2 j rfl⟩

/-- A dispatch that does not wake the coroutine of a slot leaves the slot waiting. -/
theorem dispatch_awaits {a : ℕ} {e : SocketEvent} {v : Verdict} {x : Entry} (hs : Reached B s.world)
    (hsound : Sound s.pool) (hw : Ints s.world)
    (hfresh : ∀ k x b, s.pool k = some x → x.buffer = some b → b.mem.cell a = none)
    (hid : wrap e.id = e.id) (ha : s.world.abs.Awaits i) (hx : s.pool (.id i) = some x)
    (h : dispatch B a e s = some (v, s')) (hv : ∀ args, v ≠ woken s.point x.co args) :
    s'.world.abs.Awaits i := by
  by_cases hi : e.id = i
  swap
  · have hne : wrap e.id ≠ i := by
      rw [hid]
      exact mod_cast hi
    have hk := dispatch_kept (O := HandlerMakes e) (fun _ hm => hm) hs h
    exact hk.awaits hs (fun op hm => hm.leaves hne) ha
  subst hi
  obtain ⟨notes, hh, -⟩ := dispatch_handles h hsound hw hfresh
  have huniq {y : Entry} (hy : s.pool (.id e.id) = some y) : y = x := Option.some.inj (hy.symm.trans hx)
  -- of its own events, those that end a connect would have woken the coroutine
  have hconn : ¬ AnswersConnect e := fun he => hv _ (hh.answers hx he)
  by_cases he : e.type = .read
  · refine (dispatch_of_wp (P := fun s' => s'.world.abs.Awaits e.id ∨ ∃ err, s'.heard = some (.failed err))
      ?_ (fun s₁ s₂ hb hheard hp => by rwa [hb.world, hheard]) h).resolve_right ?_
    · rw [handler_of_read he]
      exact eventRead_awaits (s := { s with heard := none }) hs ha
    · rintro ⟨err, herr⟩
      exact hv _ (hh.fails hx herr)
  · have hk := dispatch_kept (O := HandlerMakes e) (fun _ hm => hm) hs h
    refine hk.awaits hs (fun op hm => ?_) ha
    cases hm with
    | read he' => exact absurd he' he
    | close he' => exact absurd (he'.resolve_left he) (not_or.mp hconn).2

/-! ## Runs -/

/-- The connect that the coroutine `k` waits for can still be answered: the entry names the coroutine, and
the end of the connect is waited for or left to be dispatched. -/
structure Answerable (s : State σ) (k : ℕ) (id : ℤ) : Prop where
  own : ∃ x, s.pool (.id id) = some x ∧ x.co = k
  due : ∃ i : ℕ, id = i ∧ (s.world.Awaits i ∨ ∃ e ∈ s.pending, e.id = i ∧ AnswersConnect e)

/-- Every coroutine that waits for a connect can still be answered. -/
def AllAnswerable (s : State σ) : Prop :=
  ∀ k id, s.point k = some (.connecting id) → Answerable s k id

/-- A call of the library leaves the sockets whose connect coroutines wait for to these: it neither closes
one, nor takes its entry away. -/
def Step.Spares (B : Backend σ) (s : State σ) (l : Step) : Prop :=
  ∀ c rs, l = .call c rs → ∀ k id, s.point k = some (.connecting id) → ¬ c.Shuts id ∧ ¬ c.Robs B s rs id

/-- Who does not wait any longer does not count. -/
theorem AllAnswerable.congr (hall : AllAnswerable s)
    (hpoint : ∀ k id, s'.point k = some (.connecting id) → s.point k = some (.connecting id))
    (hkeep : ∀ k id, s.point k = some (.connecting id) → Answerable s k id → Answerable s' k id) :
    AllAnswerable s' := fun k id hk =>
  hkeep k id (hpoint k id hk) (hall k id (hpoint k id hk))

/-- Nothing else counts. -/
theorem Answerable.of_eq (h : Answerable s k id) (hpool : s'.pool = s.pool) (hworld : s'.world = s.world)
    (hpending : s'.pending = s.pending) : Answerable s' k id := by
  refine ⟨hpool ▸ h.own, ?_⟩
  rw [hworld, hpending]
  exact h.due

/-- A call that leaves the socket and its entry alone leaves the connect to be answered. -/
theorem Answerable.call {c : Call} {rs : List Reply} (h : Answerable s k id)
    (hstep : (properScript B).step s (.call c rs) s') (hs : Reached B s.world) (hc : ¬ c.Shuts id)
    (hown : Owns k id s'.pool) : Answerable s' k id := by
  obtain ⟨i, rfl, hdue⟩ := h.due
  have hk := step_kept (O := fun op => ∀ v, op.Leaves i v) hstep hs fun op hm v => by
    cases hm with
    | called hm => exact hm.leaves hc v
  refine ⟨hown, i, rfl, hdue.imp (fun ha => ?_) ?_⟩
  · exact World.awaits_iff.mpr (hk.awaits hs (fun _ hop => hop) (World.awaits_iff.mp ha))
  · rw [pending_of_call hstep hs]
    exact fun he => he

/-- Among the events that are handed to the handlers is the end of the connect. -/
theorem told_expand {es : List SocketEvent} {a : Abs σ} (h : Told i es a) :
    a.Awaits i ∨ ∃ e ∈ es.flatMap expand, e.id = i ∧ AnswersConnect e := by
  refine h.imp_right ?_
  rintro ⟨e, he, hid, hend⟩
  by_cases ht : e.type = .connThenRead
  · refine ⟨{ e with type := .connect }, List.mem_flatMap.mpr ⟨e, he, ?_⟩, hid, .inl rfl⟩
    rw [expand, if_pos ht]
    exact List.mem_cons_self
  · refine ⟨e, List.mem_flatMap.mpr ⟨e, he, ?_⟩, hid, hend.resolve_left ht⟩
    rw [expand, if_neg ht]
    exact List.mem_singleton_self e

/-- A dispatch answers the connect that it is for, and leaves the others to be answered. -/
theorem AllAnswerable.dispatch {a : ℕ} {rs : List Reply} {e : SocketEvent} {rest : List SocketEvent}
    {v : Verdict} {s₁ : State σ} (hall : AllAnswerable s) (hs : Reached B s.world)
    (hsound : Sound s.pool) (hal : (Step.dispatch a rs).Allowed s) (hid : wrap e.id = e.id)
    (hp : s.pending = e :: rest) (h : Lua.dispatch B a e (s.answer rs) = some (v, s₁)) :
    AllAnswerable { s₁ with pending := rest, log := .turn (turn s e v s₁) :: s₁.log } := by
  intro k id hk
  obtain ⟨hk₀, hv⟩ := dispatch_point (s := s.answer rs) h hsound hal.1 hal.2 hk
  have hk₀ : s.point k = some (.connecting id) := hk₀
  obtain ⟨⟨x, hx, rfl⟩, i, rfl, hdue⟩ := hall k id hk₀
  obtain ⟨notes, hh, -⟩ := dispatch_handles (s := s.answer rs) h hsound hal.1 hal.2
  have hwoken (args : List Value) : v ≠ woken s.point x.co args := by
    rw [woken_eq (by rw [hk₀]; rfl)]
    exact hv args
  refine ⟨?_, i, rfl, ?_⟩
  · rcases hh.keeps hx hwoken with hpool | ⟨-, -, b, hpool⟩
    · exact ⟨x, hpool.trans hx, rfl⟩
    · exact ⟨_, hpool, rfl⟩
  -- the answer is still to come from the net, or is waiting to be dispatched
  rcases hdue with ha | ⟨d, hd, hdid, hend⟩
  · have ha₁ : s₁.world.abs.Awaits i := dispatch_awaits (s := s.answer rs) (hs.answer rs) hsound hal.1
      hal.2 hid (World.awaits_iff.mp ha) hx h hwoken
    exact .inl (World.awaits_iff.mpr ha₁)
  · rw [hp] at hd
    rcases List.mem_cons.mp hd with rfl | hd
    · -- the dispatched event is the end of the connect, and wakes the coroutine
      subst hdid
      exact absurd (hh.answers hx hend) (hwoken _)
    · exact .inr ⟨d, hd, hdid, hend⟩

/-- A step keeps every connect answerable: a call spares those that are waited for, `socket_poll` reports
the end of a connect or leaves it to come, and its dispatch wakes the coroutine. -/
theorem AllAnswerable.step {l : Step} (hall : AllAnswerable s) (h : (properScript B).step s l s')
    (hr : (properScript B).Reach s) (hmax : s.world.net.max ≤ INT_MAX) (hsp : l.Spares B s) :
    AllAnswerable s' := by
  have hR := reached_of_script hr
  have hsound := sound_of_reach hr.of_restrict
  -- a call that spares a waiting coroutine keeps its answer coming
  have hcall (c : Call) (rs : List Reply) (hl : l = .call c rs) (k : ℕ) (id : ℤ)
      (hk : s.point k = some (.connecting id)) (ha : Answerable s k id) : Answerable s' k id := by
    subst hl
    obtain ⟨hc, hrobs⟩ := hsp c rs rfl k id hk
    exact ha.call h hR hc (owns_step hsound ha.own hrobs h.1.2)
  obtain ⟨⟨hal, hrun⟩, -⟩ := id h
  cases Step.ran hrun with
  | @returned c rs vs _ hok =>
    obtain ⟨hpoint, -⟩ := Prog.wp_ok (ends_answer hsound c rs) hok
    exact hall.congr (fun k id hk => (congrFun hpoint k).symm.trans hk) (hcall c rs rfl)
  | @raised c rs _ herr =>
    obtain ⟨hpoint, -⟩ := Prog.wp_error (ends_answer hsound c rs) herr rfl
    exact hall.congr (fun k id hk => (congrFun hpoint k).symm.trans hk) (hcall c rs rfl)
  | @suspended c rs p s₁ _ hok hl =>
    have hends := Prog.wp_ok (ends_answer hsound c rs) hok
    intro k id hk
    -- the coroutine that suspends here has just begun to wait; the others were waiting before
    rcases hends.point_of_leave hl hk with ⟨rfl, rfl⟩ | hk
    · obtain ⟨i, rfl, ha, x, hx, hco⟩ := call_awaits (s := s.answer rs) (hR.answer rs) hsound hok
      refine ⟨⟨x, (State.leave_eq hl).2.1 ▸ hx, hco⟩, i, rfl, .inl (World.awaits_iff.mpr ?_)⟩
      rw [(State.beside_leave hl).world]
      exact ha
    · exact hcall c rs rfl k id hk (hall k id hk)
  | resumed =>
    exact hall.congr (fun _ _ hk => (State.point_of_enter hk).2) fun _ _ _ ha => ha.of_eq rfl rfl rfl
  | yielded hl =>
    obtain ⟨-, hpool, hpending⟩ := State.leave_eq hl
    refine hall.congr (fun k id hk => ?_) fun _ _ _ ha =>
      ha.of_eq hpool (State.beside_leave hl).world hpending
    exact (State.point_of_leave hl hk).resolve_left fun h => nomatch h.2
  | finished => exact hall.congr (fun _ _ hk => hk) fun _ _ _ ha => ha.of_eq rfl rfl rfl
  | @polled timeout rs es w hpoll =>
    -- a poll comes only with nothing left to dispatch, so the answer was still due
    have hempty : s.pending = [] := by
      simp only [Step.run] at hrun
      split at hrun
      · next hidle => exact hidle.2
      · cases hrun
    intro k id hk
    obtain ⟨hown, i, rfl, hdue⟩ := hall k id hk
    have ha : s.world.Awaits i := by
      refine hdue.resolve_right ?_
      rintro ⟨e, he, -⟩
      rw [hempty] at he
      cases he
    obtain ⟨_, ⟨-, rfl⟩, htold⟩ :=
      (does_socketPoll_told timeout (World.awaits_iff.mp ha)).ok (hR.answer rs).1 hpoll
    exact ⟨hown, i, rfl, (told_expand htold).imp_left World.awaits_iff.mpr⟩
  | @dispatched a rs e rest v s₁ hp hd =>
    have he := slotted_of_script hr e (hp ▸ List.mem_cons_self)
    have hid : wrap e.id = e.id := wrap_of_nonneg (Int.natCast_nonneg _) (by omega)
    exact hall.dispatch hR hsound hal hid hp hd

/-- In every run in which calls spare the sockets that are waited for. -/
theorem allAnswerable_of_reach (h : ((properScript B).restrict fun s l _ => l.Spares B s).Reach s)
    (hmax : s.world.net.max ≤ INT_MAX) : AllAnswerable s := by
  refine h.invariant (I := fun s => s.world.net.max ≤ INT_MAX → AllAnswerable s) ?_
    (fun s l s' hr hall hs hmax => ?_) hmax
  · rintro _ ⟨max, junk, rfl⟩ - k id hk
    simp only [State.initial] at hk
    split at hk <;> cases hk
  · have hr := hr.of_restrict
    have hk := step_kept (O := fun _ => True) hs.1 (reached_of_script hr) fun _ _ => trivial
    have hmax : s.world.net.max ≤ INT_MAX := by
      rw [show s.world.net.max = s'.world.net.max from hk.passage.max_eq.symm]
      exact hmax
    exact (hall hmax).step hs.1 hr hmax hs.2

/-- The dispatch of the end of its connect wakes a coroutine that waits for it. -/
theorem Answerable.wakes {a : ℕ} {rs : List Reply} {e : SocketEvent} {rest : List SocketEvent}
    (h : Answerable s k e.id) (hk : s.point k = some (.connecting e.id)) (hsound : Sound s.pool)
    (hp : s.pending = e :: rest) (he : AnswersConnect e) (hstep : (script B).step s (.dispatch a rs) s') :
    s'.point k = none ∧
      ∃ t log, s'.log = .turn t :: log ∧ t.event = e ∧ t.verdict = .woke k (connectAnswer e) := by
  obtain ⟨hal, hrun⟩ := hstep
  generalize hl : Step.dispatch a rs = l at hrun
  cases Step.ran hrun with
  | @dispatched a rs e' rest' v s₁ hp' hd =>
    cases hl
    obtain ⟨rfl, rfl⟩ := List.cons.inj (hp'.symm.trans hp)
    obtain ⟨⟨x, hx, rfl⟩, -⟩ := h
    obtain ⟨notes, hh, -⟩ := dispatch_handles (s := s.answer rs) hd hsound hal.1 hal.2
    have hv : v = .woke x.co (connectAnswer e') := by
      rw [hh.answers hx he]
      exact woken_eq (by show (s.point x.co).isSome = true; rw [hk]; rfl)
    refine ⟨Option.eq_none_iff_forall_ne_some.mpr fun p hpoint => ?_, _, _, rfl, rfl, hv⟩
    exact (dispatch_point (s := s.answer rs) hd hsound hal.1 hal.2 hpoint).2 _ hv
  | _ => cases hl

/-- In every run in which calls leave the sockets alone that coroutines wait with for a connect: every such
coroutine owns its entry, and the poller is asked for the end of its connect or has reported it; and when
that is dispatched, the coroutine goes on with the outcome. -/
theorem connects_answered (h : ((properScript B).restrict fun s l _ => l.Spares B s).Reach s)
    (hmax : s.world.net.max ≤ INT_MAX) : AllAnswerable s ∧
      ∀ a rs e rest s' k, s.pending = e :: rest → AnswersConnect e → s.point k = some (.connecting e.id) →
        (properScript B).step s (.dispatch a rs) s' → s'.point k = none ∧
          ∃ t log, s'.log = .turn t :: log ∧ t.event = e ∧ t.verdict = .woke k (connectAnswer e) := by
  have hall := allAnswerable_of_reach h hmax
  refine ⟨hall, fun a rs e rest s' k hp he hk hs => ?_⟩
  exact (hall k _ hk).wakes hk (sound_of_reach h.of_restrict.of_restrict) hp he hs.1

/-- A coroutine connects; while it waits the main thread enables the read, and the connection is refused. -/
def waitedSteps : List Step :=
  [.resume 1,
    .call .connect [{ count := 1 }, { ret := 5 }, { ret := 0 }, { ret := 0 }, { ret := 0 },
      { ret := -1, errno := EINPROGRESS }, { ret := 0 }],
    .call (.readenable 0 true) [],
    .poll 0 [{ ret := 1, ready := [⟨5, false, true, false⟩] }, { ret := 0, value := 111 }],
    .dispatch 0 []]

def waitedStep (n : ℕ) : Step := waitedSteps.getD n .yield

/-- The state after the first `n` steps. -/
def waitedState : ℕ → State Epoll
  | 0 => .initial epoll 1 zeroed
  | n + 1 => ((waitedStep n).run epoll (waitedState n)).getD (waitedState n)

theorem step_waited {n : ℕ} (hr : (properScript epoll).Reach (waitedState n)) (hn : n < 5) :
    (properScript epoll).step (waitedState n) (waitedStep n) (waitedState (n + 1)) := by
  have hok : ((waitedStep n).run epoll (waitedState n)).isSome ∧
      (waitedStep n).fits (waitedState n) = true := by
    match n with
    | 0 | 1 | 2 | 3 | 4 => decide +kernel
  have hproper : (waitedStep n).Proper := by
    match n with
    | 0 | 1 | 2 | 3 | 4 => trivial
  obtain ⟨s, hs⟩ := Option.isSome_iff_exists.mp hok.1
  exact ⟨⟨Step.allowed_of_fits hr.of_restrict hok.2, by rw [waitedState, hs, Option.getD_some]⟩, hproper⟩

/-- The first call comes when nobody waits, and the second one takes nothing away. -/
theorem spares_waited {n : ℕ} (hn : n < 5) : (waitedStep n).Spares epoll (waitedState n) := by
  match n with
  | 0 => exact fun c rs hl => nomatch (show Step.resume 1 = .call c rs from hl)
  | 1 =>
    intro c rs _ k id hk
    have hpoint : (waitedState 1).point = Function.update (waitedState 0).point 1 none := rfl
    rw [hpoint] at hk
    by_cases h1 : k = 1
    · rw [h1, Function.update_self] at hk
      cases hk
    · rw [Function.update_of_ne h1] at hk
      have hk : (if k = 0 then none else some Point.elsewhere) = some (.connecting id) := hk
      split at hk <;> cases hk
  | 2 =>
    intro c rs hl k id _
    obtain ⟨rfl, -⟩ := Step.call.inj (show Step.call (.readenable 0 true) _ = .call c rs from hl)
    exact ⟨fun h => h, fun h => h⟩
  | 3 => exact fun c rs hl => nomatch (show Step.poll 0 _ = .call c rs from hl)
  | 4 => exact fun c rs hl => nomatch (show Step.dispatch 0 _ = .call c rs from hl)

/-- The connect that the coroutine waits for is refused, and the coroutine goes on. -/
theorem connects_answered_refused : AllAnswerable (waitedState 3) ∧
    (waitedState 4).point 1 = some (.connecting 0) ∧ (waitedState 5).point 1 = none := by
  have hreach {n : ℕ} (hn : n ≤ 5) :
      ((properScript epoll).restrict fun s l _ => l.Spares epoll s).Reach (waitedState n) := by
    induction n with
    | zero => exact .init ⟨1, zeroed, rfl⟩
    | succ n ih =>
      have h := ih (Nat.le_of_succ_le hn)
      exact h.step ⟨step_waited h.of_restrict hn, spares_waited hn⟩
  have hpoint : (waitedState 4).point 1 = some (.connecting 0) := by decide +kernel
  have hpending : (waitedState 4).pending = [⟨0, .connerr, 0, some 111⟩] := by decide +kernel
  refine ⟨(connects_answered (hreach (by decide)) (by decide +kernel)).1, hpoint, ?_⟩
  exact ((connects_answered (hreach (by decide)) (by decide +kernel)).2 0 [] _ [] _ 1 hpending (.inr rfl)
    hpoint (step_waited (hreach (by decide)).of_restrict (by decide))).1

end Lsocket.Lua
