import Lsocket.Net.Handled
import Lsocket.Net.Pointing

/-!
# Work on other slots

A call that is not about a slot, and an event of the poller for another one, leave the slot alone. They
leave alone what points at it too (`Avoids`), as long as they have nothing to do with a descriptor that
is registered for the slot. Such an event tells nothing of the slot (`Handled.tells_nothing`).
-/

namespace Lsocket

variable {σ : Type} {B : Backend σ} {P : Pointers B} {a a' : Abs σ} {i j : ℕ} {c c' d : Conn} {np np' : σ}
variable {evs : List Ev} {op : Op} {v : ℤ} {D : Set ℤ}

/-! ## Calls on other slots -/

/-- A call that opens, or one with another id. -/
def Op.Elsewhere (i : ℕ) : Op → Prop
  | .listen _ | .connect _ _ | .bind _ _ _ => True
  | .close id _ | .send id _ _ | .sendfd id _ _ _ | .read id | .enableread id _ | .udata id _
  | .limit id _ _ | .address id | .fd id => id ≠ i
  | .poll _ | .free => False

/-- A send is about its slot. -/
theorem Sends.not_elsewhere {b : Chunk} (h : Sends i c b op) : ¬ op.Elsewhere i := by
  cases h <;> exact fun hop => hop rfl

/-- A step of a connection comes from a call about its slot, or from a poll. -/
theorem ConnStep.not_elsewhere (h : ConnStep B op v i c np c' np' evs) : ¬ op.Elsewhere i := by
  intro hop
  cases h with
  | tune _ _ _ _ ht => cases op <;> first | exact ht.elim | exact hop ht
  | received hop' | enable hop' | half hop' =>
    subst hop'
    exact hop rfl
  | whole h | start h | behind h => exact h.not_elsewhere hop
  | flushed hop' | completed hop' =>
    subst hop'
    exact hop

/-- So does its end. -/
theorem Closing.not_elsewhere (h : Closing B op v i c np c' np' evs) : ¬ op.Elsewhere i := by
  intro hop
  cases h with
  | forced hop' | idle hop' | unread hop' =>
    subst hop'
    exact hop rfl
  | destroyed hop' | broken hop' | finished hop' | unconnected hop' =>
    subst hop'
    exact hop
  | unsent h => exact h.not_elsewhere hop

/-- The descriptor is opened, closed, or given to a slot. -/
def Ev.Handles (fd : ℤ) : Ev → Prop
  | .opened _ d _ | .acquired d | .released d => d = fd
  | _ => False

/-- What was added to the log handles none of the descriptors. -/
def Untouched (D : Set ℤ) (log log' : List Ev) : Prop :=
  ∀ evs, log' = evs ++ log → ∀ e ∈ evs, ∀ fd ∈ D, ¬ e.Handles fd

/-- What is untouched in a run is untouched in each part. -/
theorem Untouched.split {D : Set ℤ} {log mid log' : List Ev} (h : Untouched D log log')
    (hmid : log <:+ mid) (hlog' : mid <:+ log') : Untouched D log mid ∧ Untouched D mid log' := by
  obtain ⟨evs, rfl⟩ := hmid
  obtain ⟨evs', rfl⟩ := hlog'
  constructor
  · rintro evs₁ heq e he
    obtain rfl := List.append_cancel_right heq
    exact h (evs' ++ evs) (List.append_assoc ..).symm e (List.mem_append_right _ he)
  · rintro evs₁ heq e he
    obtain rfl := List.append_cancel_right heq
    exact h (evs' ++ evs) (List.append_assoc ..).symm e (List.mem_append_left _ he)

/-- The slot holds `c`, and no other one has a descriptor in `D`, which are all that point at the slot. -/
structure Aside (P : Pointers B) (i : ℕ) (c : Conn) (D : Set ℤ) (a : Abs σ) : Prop where
  slot : a.slot i = some c
  others : ∀ j d, j ≠ i → a.slot j = some d → d.fd ∉ D
  ok : P.ok a.np
  watched : P.watched a.np i ⊆ D

/-- Work that leaves the slot, and what points at it. -/
def Avoids (P : Pointers B) (i : ℕ) (c : Conn) (D : Set ℤ) (a a' : Abs σ) : Prop :=
  Aside P i c D a → Aside P i c D a' ∧ P.Same i a.np a'.np

namespace Avoids

theorem trans {a₁ : Abs σ} (h : Avoids P i c D a a₁) (h' : Avoids P i c D a₁ a') : Avoids P i c D a a' := by
  intro ha
  obtain ⟨h₁, hsame⟩ := h ha
  obtain ⟨h₂, hsame'⟩ := h' h₁
  exact ⟨h₂, hsame.left, hsame'.right, fun f d => (hsame.points f d).trans (hsame'.points f d)⟩

/-- Another slot changes, or none does. -/
theorem of_slot (hslot : ∀ j, j ≠ i → ∀ d, a'.slot j = some d → (∃ d', a.slot j = some d' ∧ d'.fd = d.fd) ∨
      d.fd ∉ D) (hi : a'.slot i = a.slot i)
    (hnp : Aside P i c D a → P.Same i a.np a'.np) : Avoids P i c D a a' := by
  intro ha
  have hsame := hnp ha
  refine ⟨⟨hi.trans ha.slot, fun j d hj hd => ?_, hsame.right, hsame.watched_eq ▸ ha.watched⟩, hsame⟩
  rcases hslot j hj d hd with ⟨d', hd', hfd⟩ | hfd
  · exact hfd ▸ ha.others j d' hj hd'
  · exact hfd

theorem still (hslot : a'.slot = a.slot) (hnp : a'.np = a.np) : Avoids P i c D a a' := by
  refine .of_slot (fun j _ d hd => .inl ⟨d, by rw [← hslot, hd], rfl⟩) (congrFun hslot i) fun ha => ?_
  rw [hnp]
  exact .refl ha.ok

/-- Closing another descriptor. -/
theorem closeFd {fd : ℤ} (hfd : fd ∉ D) : Avoids P i c D a (a.closeFd B fd) :=
  .of_slot (fun _ _ d hd => .inl ⟨d, hd, rfl⟩) rfl fun ha =>
    P.frame_closed fd ha.ok fun h => hfd (ha.watched h)

/-- A request for another slot. -/
theorem subscribe {r fd : ℤ} {old new mask : Mask} (hj : j ≠ i)
    (h : Subscribe B j fd old new np r mask np' evs) (hfd : fd ∉ P.watched np i) (hok : P.ok np) :
    P.Same i np np' := by
  have hcalls {r : ℤ} {np' : σ} (hc : B.Calls j fd old new np r np') : P.Same i np np' := by
    obtain ⟨o, o', hrun⟩ := hc
    have hwp := P.frame_request ⟨fd, new, j⟩ old hj (np, o) hok hfd
    exact Prog.wp_ok (p := (Request.mk fd new j).issue B old) hwp hrun
  cases h with
  | same => exact .refl hok
  | done _ hc => exact hcalls hc
  | failed _ _ hc => exact hcalls hc

/-- A connection in another slot takes a step. -/
theorem put {r : ℤ} {new mask : Mask} {evs' : List Ev} (hj : j ≠ i) (hc : a.slot j = some d)
    (hfd : c'.fd = d.fd) (h : Subscribe B j d.fd d.mask new a.np r mask np' evs') :
    Avoids P i c D a (a.put j c' np' evs) := by
  refine .of_slot (fun k _ e he => .inl ?_) (Function.update_of_ne hj.symm ..) fun ha =>
    subscribe hj h (fun hw => ha.others j d hj hc (ha.watched hw)) ha.ok
  by_cases hk : k = j
  · subst hk
    obtain rfl := Option.some.inj ((Abs.put_slot_self ..).symm.trans he)
    exact ⟨d, hc, hfd.symm⟩
  · exact ⟨e, (Function.update_of_ne hk ..).symm.trans he, rfl⟩

/-- A connection in another slot is closed. -/
theorem close (hj : j ≠ i) (hc : a.slot j = some d) : Avoids P i c D a (a.close j B d) := by
  refine .of_slot (fun k _ e he => .inl ?_) ?_ fun ha => ?_
  · rw [Abs.close_slot] at he
    by_cases hk : k = j
    · subst hk
      cases (Function.update_self ..).symm.trans he
    · exact ⟨e, (Function.update_of_ne hk ..).symm.trans he, rfl⟩
  · rw [Abs.close_slot, Function.update_of_ne hj.symm]
  · simp only [Abs.close]
    split
    · exact P.frame_closed d.fd ha.ok fun hw => ha.others j d hj hc (ha.watched hw)
    · exact .refl ha.ok

/-- Another slot is given to a connection. -/
theorem create {rest : List ℕ} (hj : j ≠ i) (hfd : d.fd ∉ D) : Avoids P i c D a (a.create j rest d) := by
  refine .of_slot (fun k _ e he => ?_) (Function.update_of_ne hj.symm ..) fun ha => .refl ha.ok
  by_cases hk : k = j
  · subst hk
    have hself : (a.create k rest d).slot k = some d := Function.update_self ..
    obtain rfl := Option.some.inj (hself.symm.trans he)
    exact .inr hfd
  · exact .inl ⟨e, (Function.update_of_ne hk ..).symm.trans he, rfl⟩

/-- What a call about other slots does at a time. -/
theorem of_change (h : Change B op v a a') (hop : op.Elsewhere i) (hlog : Untouched D a.log a'.log) :
    Avoids P i c D a a' := by
  intro ha
  refine (?_ : Avoids P i c D a a') ha
  cases h with
  | err | note | raised | refused | destroyed => exact .still rfl rfl
  | @polled np _ _ _ _ _ h => exact .still rfl (P.poll h)
  | @drop fd => exact .closeFd fun hfd => hlog [.released fd] rfl _ List.mem_cons_self fd hfd rfl
  | @conn j _ _ _ _ hc h =>
    have hj : j ≠ i := by
      rintro rfl
      exact h.not_elsewhere hop
    obtain ⟨hfd, _, _, _, hs⟩ := h.subscribes
    exact .put hj hc hfd hs
  | @close j _ _ _ _ hc h =>
    have hj : j ≠ i := by
      rintro rfl
      exact h.not_elsewhere hop
    obtain ⟨hfd, _, _, _, hs⟩ := h.subscribes
    exact (Avoids.put hj hc hfd hs).trans (.close hj (Abs.put_slot_self ..))
  -- slot `i` is taken, so the new one is another, and its descriptor is not one of `D`
  | @opened j rest fd slimit udata protocol rlimit _ _ evs _ _ _ hn h =>
    have hj : j ≠ i := Abs.ne_of_slot hn ha.slot
    obtain ⟨hfd', _, _, _, hs⟩ := h.subscribes rfl
    have hfd : fd ∉ D := fun hfd => hlog (evs ++ [.opened j fd (protocolOf protocol)])
      (by simp [Abs.put, Abs.create, newConn]) (.opened j fd (protocolOf protocol)) (by simp) fd hfd rfl
    exact (Avoids.create hj hfd).trans (.put hj (Function.update_self ..) hfd' hs)
  | @bounced j rest fd slimit udata protocol rlimit r mask new np evs _ _ _ hn hs _ =>
    have hj : j ≠ i := Abs.ne_of_slot hn ha.slot
    have hfd : fd ∉ D := fun hfd => by
      refine hlog (closeEvs (newConn fd slimit udata protocol rlimit) ++
        .closed j fd .none :: (evs ++ [.opened j fd (protocolOf protocol)])) ?_
        (.opened j fd (protocolOf protocol)) (by simp) fd hfd rfl
      rw [Abs.close_log]
      simp [Abs.put, Abs.create, newConn]
    exact ((Avoids.create hj hfd).trans (.put hj (Function.update_self ..) rfl hs)).trans
      (.close hj (Abs.put_slot_self ..))

/-- What a call about other slots does in the whole. -/
theorem of_changes (h : Changes B op v a a') (hop : op.Elsewhere i) (hlog : Untouched D a.log a'.log) :
    Avoids P i c D a a' := by
  induction h with
  | refl => exact .still rfl rfl
  | tail h hch ih =>
    obtain ⟨hbefore, hafter⟩ := hlog.split (Changes.log_suffix h) hch.log_suffix
    exact (ih hbefore).trans (.of_change hch hop hafter)

end Avoids

/-! ## Events for other slots -/

/-- What `_accept` does for a listener. -/
theorem Avoids.of_admits {l : Conn} {r : Option ℕ} (h : Admits B l a r a')
    (hlog : Untouched D a.log a'.log) : Avoids P i c D a a' := by
  intro ha
  refine (?_ : Avoids P i c D a a') ha
  -- the descriptor was opened just now
  have hnew {fd : ℤ} (evs : List Ev) (heq : a'.log = evs ++ .acquired fd :: a.log) : fd ∉ D := fun hfd =>
    hlog (evs ++ [.acquired fd]) (by simp [heq]) (.acquired fd) (by simp) fd hfd rfl
  have hacquired {fd : ℤ} : Avoids P i c D a (a.emit (.acquired fd)) := .still rfl rfl
  cases h with
  | none => exact .still rfl rfl
  | @full fd _ _ =>
    have hrefused : Avoids P i c D a ((a.emit (.acquired fd)).emit .refused) := .still rfl rfl
    exact hrefused.trans (.closeFd (hnew [.released fd, .refused] rfl))
  | @dropped fd rlimit j rest _ _ _ hn =>
    have hj : j ≠ i := Abs.ne_of_slot hn ha.slot
    have hfd : fd ∉ D := hnew
      (closeEvs (newConn fd l.slimit l.udata 0 rlimit) ++
        [.closed j fd .none, .opened j fd (protocolOf 0)])
      (by rw [Abs.close_log]; simp [Abs.create, Abs.emit, newConn])
    exact (hacquired.trans (.create hj hfd)).trans (.close hj (Function.update_self ..))
  | @some fd rlimit j rest _ _ _ hn =>
    have hj : j ≠ i := Abs.ne_of_slot hn ha.slot
    have hfd : fd ∉ D := hnew [.opened j fd (protocolOf 0)] rfl
    rw [Abs.set_eq_put]
    exact (hacquired.trans (.create hj hfd)).trans (.put hj (Function.update_self ..) rfl (.same rfl))

/-- What a listener does adds events to the log. -/
theorem Admits.log_suffix {l : Conn} {r : Option ℕ} (h : Admits B l a r a') : a.log <:+ a'.log := by
  cases h with
  | none => exact List.suffix_rfl
  | full => exact (List.suffix_cons ..).trans ((List.suffix_cons ..).trans (List.suffix_cons ..))
  | dropped =>
    rw [Abs.close_log]
    exact (List.suffix_cons ..).trans ((List.suffix_cons ..).trans
      ((List.suffix_cons ..).trans (List.suffix_append ..)))
  | some => exact (List.suffix_cons ..).trans (List.suffix_cons ..)

/-- Serving a connection may change its interest, and not its descriptor. -/
theorem Serves.subscribes {b : Bool} (h : Serves B i c np b c' np' evs) :
    c'.fd = c.fd ∧ ∃ new r evs', Subscribe B i c.fd c.mask new np r c'.mask np' evs' := by
  cases h with
  | skip => exact ⟨rfl, c.mask, 0, [], .same rfl⟩
  | flush h => exact h.subscribes

/-- What comes of an event of the poller for another slot, or for a listener in this one. -/
theorem Avoids.of_handled {ie : NpEvent} {es : List SocketEvent} (h : Handled B ie a es a')
    (hi : ie.ud = i → c.status = .listening) (hlog : Untouched D a.log a'.log) : Avoids P i c D a a' := by
  intro ha
  refine (?_ : Avoids P i c D a a') ha
  have hraised {a₁ : Abs σ} {e : SocketEvent} (h : Avoids P i c D a a₁) :
      Avoids P i c D a (a₁.emit (.raised e)) := h.trans (.still rfl rfl)
  have hj {d : Conn} (hd : a.slot ie.ud = some d) (hs : d.status ≠ .listening) : ie.ud ≠ i := fun hud => by
    obtain rfl := Option.some.inj (hd.symm.trans ((congrArg a.slot hud).trans ha.slot))
    exact hs (hi hud)
  cases h with
  | free => exact .still rfl rfl
  | refused _ _ h => exact .of_admits h hlog
  | accepted _ _ h _ _ =>
    exact hraised (.of_admits h (hlog.split h.log_suffix (List.suffix_cons ..)).1)
  | connected hd hs h _ => exact hraised (.put (hj hd (by simp [hs])) hd rfl h)
  | unconnected hd hs _ _ => exact hraised (.close (hj hd (by simp [hs])) hd)
  | served hd hs h _ =>
    obtain ⟨hfd, _, _, _, hsub⟩ := h.subscribes
    exact .put (hj hd hs.1) hd hfd hsub
  | ready hd hs h _ =>
    obtain ⟨hfd, _, _, _, hsub⟩ := h.subscribes
    exact hraised (.put (hj hd hs.1) hd hfd hsub)
  | broken hd hs h _ _ =>
    exact (Avoids.put (hj hd hs.1) hd h.fd (.same rfl)).trans (.close (hj hd hs.1) (Abs.put_slot_self ..))
  | finished hd hs h _ _ =>
    obtain ⟨hfd, _, _, _, hsub⟩ := h.subscribes
    exact (Avoids.put (hj hd (by simp [hs])) hd hfd hsub).trans
      (.close (hj hd (by simp [hs])) (Abs.put_slot_self ..))

/-- The events of a slot. -/
def eventsOf (i : ℕ) (es : List SocketEvent) : List SocketEvent := es.filter fun e => e.id = i

/-- An event of the poller that is for another slot, or for one that listens or is free, and leaves the
slot as it is, stores nothing for the slot. -/
theorem Handled.tells_nothing {ie : NpEvent} {es : List SocketEvent}
    (h : Handled B ie a es a') (hi : ie.ud = i → ∀ c, a.slot i = some c → c.status = .listening)
    (hslot : a'.slot i = a.slot i) : eventsOf i es = [] := by
  -- an event about the slot of `ie` is about another one
  have hother {c : Conn} {e : SocketEvent} (hc : a.slot ie.ud = some c) (hs : c.status ≠ .listening)
      (he : e.id = ie.ud) : eventsOf i [e] = [] := by
    refine List.filter_eq_nil_iff.mpr fun e' he' => ?_
    obtain rfl := List.mem_singleton.mp he'
    have hne : ie.ud ≠ i := by
      rintro rfl
      exact hs (hi rfl c hc)
    simpa [he] using hne
  cases h with
  | free | refused | served => rfl
  | @accepted _ d j a' _ _ h hd e he =>
    subst he
    refine List.filter_eq_nil_iff.mpr fun e' he' => ?_
    obtain rfl := List.mem_singleton.mp he'
    -- the slot of the new connection was free
    have hne : j ≠ i := by
      rintro rfl
      cases h with
      | some _ _ _ hn => cases (hn.symm.trans (hslot.symm.trans hd))
    simpa using hne
  | connected hc hs _ he => exact hother hc (by simp [hs]) (by rw [he])
  | unconnected hc hs _ he => exact hother hc (by simp [hs]) (by rw [he])
  | ready hc hs _ he => exact hother hc hs.1 (by rw [he])
  | broken hc hs _ _ he => exact hother hc hs.1 (by rw [he])
  | finished hc hs _ _ he => exact hother hc (by simp [hs]) (by rw [he])

end Lsocket
