import Lsocket.Net.Kqueue
import Lsocket.Net.Registry
import Lsocket.Net.SelectTable

/-!
# The slots that a poller points at

`np_poll` finds the slot of an event through the user data that the poller keeps for a descriptor.
`Pointers` says for which descriptors this is the slot `u`. Two pollers with the same pointers to `u`
cannot be told apart through it: the same requests leave the same pointers (`request`), and the same
reports make the same events (`reported`), whatever else the two have registered.
-/

namespace Lsocket

variable {σ : Type} {B : Backend σ} {u : ℕ}

/-! ## Pointers -/

/-- The events of the poller for a slot. -/
def forSlot (u : ℕ) (ies : List NpEvent) : List NpEvent := ies.filter fun ie => ie.ud = u

/-- What the first answer reports. -/
def readyOf : List Reply → List Ready
  | [] => []
  | r :: _ => if 0 < r.ret then r.ready else []

open Classical in
/-- What the first answer reports of the descriptors in `D`. -/
noncomputable def reportsOn (D : Set ℤ) (rs : List Reply) : List Ready :=
  (readyOf rs).filter fun x => x.fd ∈ D

open Classical in
/-- The same reports about the descriptors in `D` make the same events for the slot, if all that make
one are about these. -/
theorem forSlot_filterMap {event event' : Ready → Option NpEvent} {D : Set ℤ} {l l' : List Ready}
    (hD : ∀ x ∈ l, ∀ ie, event x = some ie → ie.ud = u → x.fd ∈ D)
    (hD' : ∀ x ∈ l', ∀ ie, event' x = some ie → ie.ud = u → x.fd ∈ D)
    (hevent : ∀ x ie, x ∈ l → x ∈ l' → ie.ud = u → (event x = some ie ↔ event' x = some ie))
    (hl : l.filter (fun x => x.fd ∈ D) = l'.filter fun x => x.fd ∈ D) :
    forSlot u (l.filterMap event) = forSlot u (l'.filterMap event') := by
  -- only the descriptors that point at the slot can name it
  have hfilter (event : Ready → Option NpEvent) (l : List Ready)
      (hD : ∀ x ∈ l, ∀ ie, event x = some ie → ie.ud = u → x.fd ∈ D) :
      forSlot u (l.filterMap event) =
        (l.filter fun x => x.fd ∈ D).filterMap fun x => (event x).filter fun ie => ie.ud = u := by
    rw [forSlot, List.filter_filterMap, List.filterMap_filter]
    refine List.filterMap_congr fun x hx => ?_
    split
    · rfl
    · next hno =>
      refine Option.eq_none_iff_forall_ne_some.mpr fun ie hie => ?_
      obtain ⟨hev, hud⟩ := Option.filter_eq_some_iff.mp hie
      exact hno (by simpa using hD x hx ie hev (by simpa using hud))
  rw [hfilter event l hD, hfilter event' l' hD', hl]
  refine List.filterMap_congr fun x hx => ?_
  have hxl : x ∈ l := List.mem_of_mem_filter (hl ▸ hx)
  ext ie
  simp only [Option.filter_eq_some_iff, decide_eq_true_eq]
  exact and_congr_left fun hud => hevent x ie hxl (List.mem_of_mem_filter hx) hud

/-- The user data of a poller. -/
structure Pointing (σ : Type) where
  /-- An event for the descriptor is one for the slot. -/
  points : σ → Filter → ℤ → ℕ → Prop
  /-- The state is in order. -/
  ok : σ → Prop

namespace Pointing

/-- The descriptors whose events are events for the slot. -/
def watched (P : Pointing σ) (s : σ) (u : ℕ) : Set ℤ := {d | ∃ f, P.points s f d u}

/-- The same points at the slot. -/
structure Same (P : Pointing σ) (u : ℕ) (s t : σ) : Prop where
  left : P.ok s
  right : P.ok t
  points : ∀ f d, P.points s f d u ↔ P.points t f d u

/-- Two states and their answers, of which the same is said about the slot. -/
def Beside (P : Pointing σ) (u : ℕ) (s t : σ × Os) : Prop := P.Same u s.1 t.1 ∧ s.2.Alike t.2

variable {P : Pointing σ} {s t : σ}

theorem Same.refl (h : P.ok s) : P.Same u s s := ⟨h, h, fun _ _ => Iff.rfl⟩

/-- Pollers that are the same for a slot watch the same descriptors for it. -/
theorem Same.watched_eq (h : P.Same u s t) : P.watched s u = P.watched t u := by
  ext d
  exact exists_congr fun f => h.points f d

/-- Side by side, the two return the same, and leave the same pointers. -/
def Keeps (P : Pointing σ) (u : ℕ) (p : Prog Fault (σ × Os) ℤ) : Prop :=
  Prog.Matches (P.Beside u) p p fun v w s t => v = w ∧ P.Beside u s t

namespace Keeps

variable {p q : Prog Fault (σ × Os) ℤ} {f : ℤ → Prog Fault (σ × Os) ℤ}

protected theorem pure (v : ℤ) : P.Keeps u (Pure.pure v) := Prog.Matches.pure fun _ _ h => ⟨rfl, h⟩

protected theorem bind (hp : P.Keeps u p) (hf : ∀ v, P.Keeps u (f v)) : P.Keeps u (p >>= f) := by
  refine Prog.Matches.bind hp fun v w s t h => ?_
  obtain ⟨rfl, h⟩ := h
  exact hf v s t h

theorem ite {c : Prop} [Decidable c] (hp : P.Keeps u p) (hq : P.Keeps u q) :
    P.Keeps u (if c then p else q) :=
  Prog.Matches.ite Iff.rfl (fun _ => hp) fun _ => hq

end Keeps

/-- What is done for a descriptor that no pointer to the slot is for leaves these pointers alone. -/
def Frames (P : Pointing σ) (u : ℕ) (fd : ℤ) (p : Prog Fault (σ × Os) ℤ) : Prop :=
  ∀ s, P.ok s.1 → fd ∉ P.watched s.1 u → Prog.wp p (fun _ t => P.Same u s.1 t.1) (fun _ _ => True) s

namespace Frames

variable {p q : Prog Fault (σ × Os) ℤ} {f : ℤ → Prog Fault (σ × Os) ℤ} {fd : ℤ}

protected theorem pure (v : ℤ) : P.Frames u fd (Pure.pure v) := fun _ hok _ => .refl hok

protected theorem bind (hp : P.Frames u fd p) (hf : ∀ v, P.Frames u fd (f v)) : P.Frames u fd (p >>= f) := by
  intro s hok hfd
  rw [Prog.wp_bind]
  refine Prog.wp_mono (hp s hok hfd) fun v t h => ?_
  refine Prog.wp_mono (hf v t h.right (h.watched_eq ▸ hfd)) fun _ _ h' => ?_
  exact ⟨h.left, h'.right, fun f d => (h.points f d).trans (h'.points f d)⟩

theorem ite {c : Prop} [Decidable c] (hp : P.Frames u fd p) (hq : P.Frames u fd q) :
    P.Frames u fd (if c then p else q) := by
  split
  · exact hp
  · exact hq

end Frames

end Pointing

/-- A poller whose pointers are known. -/
structure Pointers (B : Backend σ) extends Pointing σ where
  init : ∀ max, ok (B.npInit max)
  closed : ∀ {u s t} fd, toPointing.Same u s t → toPointing.Same u (B.closed fd s) (B.closed fd t)
  request : ∀ (r : Request) old u, toPointing.Keeps u (r.issue B old)
  frame_closed : ∀ {u s} fd, ok s → fd ∉ toPointing.watched s u → toPointing.Same u s (B.closed fd s)
  frame_request : ∀ (r : Request) old {u}, r.ud ≠ u → toPointing.Frames u r.fd (r.issue B old)
  poll : ∀ {max timeout s ies t}, B.npPoll max timeout s = (.ok ies, t) → t.1 = s.1
  reported : ∀ {u max max' timeout timeout' s t ies ies' s' t'}, toPointing.Same u s.1 t.1 →
    reportsOn (toPointing.watched s.1 u) s.2.replies = reportsOn (toPointing.watched s.1 u) t.2.replies →
    B.npPoll max timeout s = (.ok ies, s') → B.npPoll max' timeout' t = (.ok ies', t') →
    forSlot u ies = forSlot u ies'

/-! ## Along a run -/

namespace Pointers

variable (P : Pointers B) {a a' : Abs σ} {i : ℕ} {c c' : Conn} {np np' : σ} {evs : List Ev} {op : Op}
variable {v fd : ℤ}

/-- A request keeps the poller in order: it is compared with itself. -/
theorem subscribe_ok {r : ℤ} {old new mask : Mask} (h : Subscribe B i fd old new np r mask np' evs)
    (hok : P.ok np) : P.ok np' := by
  have hcalls {r : ℤ} {np' : σ} (hc : B.Calls i fd old new np r np') : P.ok np' := by
    obtain ⟨o, o', hrun⟩ := hc
    have hbeside : P.Beside 0 (np, o) (np, o) := ⟨.refl hok, .of_eq rfl⟩
    exact (P.request ⟨fd, new, i⟩ old 0 _ _ hbeside _ _ _ _ hrun hrun).2.1.left
  cases h with
  | same => exact hok
  | done _ hc => exact hcalls hc
  | failed _ _ hc => exact hcalls hc

theorem closed_ok (fd : ℤ) (hok : P.ok np) : P.ok (B.closed fd np) :=
  (P.closed fd (u := 0) (.refl hok)).left

/-- Also where a connection is closed. -/
theorem close_ok (hok : P.ok a.np) : P.ok (a.close i B c).np := by
  simp only [Abs.close]
  split
  · exact P.closed_ok c.fd hok
  · exact hok

/-- What a call does at a time keeps the poller in order. -/
theorem change_ok (h : Change B op v a a') (hok : P.ok a.np) : P.ok a'.np := by
  cases h with
  | err | note | raised | refused | destroyed => exact hok
  | @polled np _ _ _ _ _ h =>
    have hnp : np = a.np := P.poll h
    rwa [hnp]
  | drop => exact P.closed_ok _ hok
  | conn _ h =>
    obtain ⟨-, _, _, _, hs⟩ := h.subscribes
    exact P.subscribe_ok hs hok
  | close _ h =>
    obtain ⟨-, _, _, _, hs⟩ := h.subscribes
    exact P.close_ok (P.subscribe_ok hs hok)
  | opened _ _ _ _ h =>
    obtain ⟨-, _, _, _, hs⟩ := h.subscribes rfl
    exact P.subscribe_ok hs hok
  | bounced _ _ _ _ hs => exact P.close_ok (P.subscribe_ok hs hok)

/-- In every call the poller stays in order. -/
theorem changes_ok (h : Changes B op v a a') (hok : P.ok a.np) : P.ok a'.np := by
  induction h with
  | refl => exact hok
  | tail _ h ih => exact P.change_ok h ih

/-- In every net that a run reaches the poller is in order. -/
theorem reach_ok {w : World σ} (h : (net B).Reach w) : P.ok w.np := by
  refine (reach_abs h).2.invariant (I := fun a => P.ok a.np) ?_ ?_
  · rintro _ ⟨max, -, rfl⟩
    exact P.init max
  · exact fun a l a' _ hok hs => P.change_ok hs hok

end Pointers

/-! ## Epoll -/

namespace Epoll

/-- The user data of the interest list. -/
def pointing : Pointing Epoll where
  points s _ d u := ∃ mask, s d = some (mask, u)
  ok _ := True

variable {s t : Epoll} {fd : ℤ}

/-- An entry that is replaced in both interest lists. -/
theorem Same.update (h : pointing.Same u s t) (fd : ℤ) (e : Option (Mask × ℕ)) :
    pointing.Same u (Function.update s fd e) (Function.update t fd e) := by
  refine ⟨trivial, trivial, fun f d => ?_⟩
  by_cases hd : d = fd
  · subst hd
    simp only [pointing, Function.update_self]
  · simp only [pointing, Function.update_of_ne hd]
    exact h.points f d

/-- An entry for another slot replaces one for another slot. -/
theorem Same.frame {e : Option (Mask × ℕ)} (hfd : fd ∉ pointing.watched s u) (he : ∀ mask, e ≠ some (mask, u)) :
    pointing.Same u s (Function.update s fd e) := by
  refine ⟨trivial, trivial, fun f d => ?_⟩
  simp only [pointing]
  by_cases hd : d = fd
  · subst hd
    rw [Function.update_self]
    exact ⟨fun h => absurd ⟨f, h⟩ hfd, fun ⟨mask, h⟩ => absurd h (he mask)⟩
  · rw [Function.update_of_ne hd]

/-- A run of `np_poll`: nothing changes, and the events are made from the first answer. -/
theorem npPoll_ok (max : ℕ) (timeout : ℤ) {s t : Epoll × Os} {ies : List NpEvent}
    (h : npPoll max timeout s = (.ok ies, t)) :
    t.1 = s.1 ∧ ies = (readyOf s.2.replies).filterMap (event s.1) := by
  rcases s with ⟨s, rs, errno⟩
  simp only [npPoll, Prog.bind_apply, Prog.read_apply, Prog.zoom, sys] at h
  rcases rs with _ | ⟨r, rs⟩
  · cases h
  by_cases hok : Waits s max r
  swap
  · simp [hok] at h
  simp only [hok, if_true, Prog.pure_apply, Prod.mk.injEq, Except.ok.injEq] at h
  obtain ⟨rfl, rfl⟩ := h
  refine ⟨rfl, ?_⟩
  rcases hok with hfail | ⟨hret, -⟩
  · simp [readyOf, hfail.1]
  · rcases hready : r.ready with _ | ⟨x, l⟩
    · simp [readyOf, hready]
    · have hpos : 0 < r.ret := by simp [hret, hready]
      simp only [readyOf, if_pos hpos, if_neg (show ¬ r.ret < 0 by omega), hready]

/-- An event of the poller is one of what is registered. -/
theorem event_iff {x : Ready} {ie : NpEvent} : event s x = some ie ↔
    (∃ mask, s x.fd = some (mask, ie.ud)) ∧ ie.read = x.read ∧ ie.write = (x.write || x.hup) := by
  rcases ie with ⟨ud, read, write⟩
  simp only [event, Option.map_eq_some_iff, Prod.exists, NpEvent.mk.injEq]
  constructor
  · rintro ⟨mask, _, hreg, rfl, rfl, rfl⟩
    exact ⟨⟨mask, hreg⟩, rfl, rfl⟩
  · rintro ⟨⟨mask, hreg⟩, rfl, rfl⟩
    exact ⟨mask, ud, hreg, rfl, rfl, rfl⟩

end Epoll

namespace Kqueue

/-- The user data of the filters that are enabled. -/
def pointing : Pointing Kqueue where
  points s f d u := s d f = some { enabled := true, ud := u }
  ok _ := True

variable {s t : Kqueue} {fd : ℤ} {mask : Mask} {ud : ℕ}

/-- A filter changed alike in both pollers. -/
theorem Same.put {k k' : Option Knote} (h : pointing.Same u s t) (f : Filter)
    (hk : k = some { enabled := true, ud := u } ↔ k' = some { enabled := true, ud := u }) :
    pointing.Same u (s.put fd f k) (t.put fd f k') := by
  refine ⟨trivial, trivial, fun g d => ?_⟩
  simp only [pointing]
  by_cases hd : d = fd
  · subst hd
    by_cases hg : g = f
    · subst hg
      rwa [put_self, put_self]
    · rw [put_other _ hg, put_other _ hg]
      exact h.points g d
  · rw [put_of_ne _ hd, put_of_ne _ hd]
    exact h.points g d

/-- A change that succeeds for a filter in both of the kernels leaves it the same in both. -/
theorem Action.apply_iff {act : Action} {k k' : Option Knote} {e : Knote}
    (hk : act = .add ∨ k.isSome) (hk' : act = .add ∨ k'.isSome) :
    act.apply ud k = some e ↔ act.apply ud k' = some e := by
  cases act with
  | add | delete => exact Iff.rfl
  | disable =>
    obtain ⟨n, rfl⟩ := Option.isSome_iff_exists.mp (hk.resolve_left (by decide))
    obtain ⟨n', rfl⟩ := Option.isSome_iff_exists.mp (hk'.resolve_left (by decide))
    exact Iff.rfl

theorem keeps_kevent {f : Filter} {act : Action} : pointing.Keeps u (kevent fd f act ud) := by
  refine matches_ask (R := pointing.Same u)
    (fun (s : Kqueue) r => r.Failed ∨ (r.ret = 0 ∧ (act = .add ∨ (s fd f).isSome)))
    (fun s => s.put fd f (act.apply ud (s fd f))) fun s t r r' h hr hr' hok hok' =>
    Same.put h f (Action.apply_iff ?_ ?_)
  · exact (hok.resolve_left fun h => absurd (h.1.symm.trans hr) (by decide)).2
  · exact (hok'.resolve_left fun h => absurd (h.1.symm.trans hr') (by decide)).2

/-- So does `np_del`, also where it looks for the next descriptor. -/
theorem keeps_npDel : pointing.Keeps u (npDel fd) :=
  .bind keeps_kevent fun _ => .bind keeps_kevent fun _ => .pure _

/-- `np_add` keeps two pollers the same for the slot, with any answers. -/
theorem keeps_npAdd : pointing.Keeps u (npAdd fd mask ud) := by
  have hdisable (has : Bool) (f : Filter) : pointing.Keeps u (disableUnless has fd f ud) :=
    .ite (.pure _) keeps_kevent
  have hundo : pointing.Keeps u (npDel fd >>= fun _ => pure (-1)) :=
    .bind keeps_npDel fun _ => .pure _
  refine .bind keeps_kevent fun _ => .ite (.pure _) (.bind keeps_kevent fun _ => .ite ?_ ?_)
  · exact .bind keeps_kevent fun _ => .pure _
  · exact .bind (hdisable _ _) fun _ => .ite hundo (.bind (hdisable _ _) fun _ => .ite hundo (.pure _))

theorem keeps_npMod : pointing.Keeps u (npMod fd mask ud) :=
  .ite keeps_kevent (.ite keeps_kevent (.pure _))

/-- A filter for another slot replaces one for another slot. -/
theorem Same.frame {f : Filter} {k : Option Knote} (hfd : fd ∉ pointing.watched s u)
    (hk : k ≠ some { enabled := true, ud := u }) : pointing.Same u s (s.put fd f k) := by
  refine ⟨trivial, trivial, fun g d => ?_⟩
  simp only [pointing]
  by_cases hd : d = fd
  · subst hd
    by_cases hg : g = f
    · subst hg
      rw [put_self]
      exact ⟨fun h => absurd ⟨g, h⟩ hfd, fun h => absurd h hk⟩
    · rw [put_other _ hg]
  · rw [put_of_ne _ hd]

theorem frames_kevent {f : Filter} {act : Action} (h : ud ≠ u ∨ act = .delete) :
    pointing.Frames u fd (kevent fd f act ud) := by
  intro s _ hfd
  refine Prog.wp_of_any_fault (wp_kevent (fun _ => .refl trivial) fun _ => Same.frame hfd fun heq => ?_)
  cases act with
  | add =>
    have hud : ud = u := congrArg Knote.ud (Option.some.inj heq)
    exact h.elim (fun h => h hud) fun h => by cases h
  | delete => cases heq
  | disable =>
    obtain ⟨_, -, hk⟩ := Option.map_eq_some_iff.mp heq
    cases hk

theorem frames_npDel : pointing.Frames u fd (npDel fd) :=
  .bind (frames_kevent (.inr rfl)) fun _ => .bind (frames_kevent (.inr rfl)) fun _ => .pure _

/-- `np_add` for another slot does not point at this one. -/
theorem frames_npAdd (h : ud ≠ u) : pointing.Frames u fd (npAdd fd mask ud) := by
  have hdisable (has : Bool) (f : Filter) : pointing.Frames u fd (disableUnless has fd f ud) :=
    .ite (.pure _) (frames_kevent (.inl h))
  have hundo : pointing.Frames u fd (npDel fd >>= fun _ => pure (-1)) :=
    .bind frames_npDel fun _ => .pure _
  refine .bind (frames_kevent (.inl h)) fun _ => .ite (.pure _) ?_
  refine .bind (frames_kevent (.inl h)) fun _ => .ite (.bind (frames_kevent (.inr rfl)) fun _ => .pure _) ?_
  exact .bind (hdisable _ _) fun _ => .ite hundo (.bind (hdisable _ _) fun _ => .ite hundo (.pure _))

theorem frames_npMod (h : ud ≠ u) : pointing.Frames u fd (npMod fd mask ud) :=
  .ite (frames_kevent (.inl h)) (.ite (frames_kevent (.inl h)) (.pure _))

/-- A run of `np_poll`: nothing changes, and the events are made from the first answer, which reports
filters that are enabled. -/
theorem npPoll_ok (max : ℕ) (timeout : ℤ) {s t : Kqueue × Os} {ies : List NpEvent}
    (h : npPoll max timeout s = (.ok ies, t)) :
    t.1 = s.1 ∧ ies = (readyOf s.2.replies).filterMap (event s.1) ∧
      ∀ x ∈ readyOf s.2.replies, reports s.1 x := by
  rcases s with ⟨s, rs, errno⟩
  simp only [npPoll, Prog.bind_apply, Prog.read_apply, Prog.zoom, sys] at h
  rcases rs with _ | ⟨r, rs⟩
  · cases h
  -- an answer the kernel cannot give does not let the call return
  by_cases hok : Waits s max r
  swap
  · simp [hok] at h
  simp only [hok, if_true, Prog.pure_apply, Prod.mk.injEq, Except.ok.injEq] at h
  obtain ⟨rfl, rfl⟩ := h
  refine ⟨rfl, ?_⟩
  rcases hok with hfail | ⟨hret, -, -, hall⟩
  · simp [readyOf, hfail.1]
  · rcases hready : r.ready with _ | ⟨x, l⟩
    · simp [readyOf, hready]
    · have hpos : 0 < r.ret := by simp [hret, hready]
      simp only [readyOf, if_pos hpos, if_neg (show ¬ r.ret < 0 by omega), ← hready]
      exact ⟨trivial, hall⟩

/-- The filter that a report is about. -/
def filterOf (x : Ready) : Filter := if x.read then .read else .write

theorem event_iff {x : Ready} {ie : NpEvent} (hx : reports s x) : event s x = some ie ↔
    pointing.points s (filterOf x) x.fd ie.ud ∧ ie.read = x.read ∧ ie.write = x.write := by
  have hany : (s x.fd (filterOf x)).any Knote.enabled := by
    rcases x with ⟨fd, _ | _, _ | _, hup⟩ <;> first | exact hx | cases hx
  obtain ⟨k, hk, henabled⟩ := (Option.any_eq_true ..).mp hany
  rcases ie with ⟨ud, read, write⟩
  rcases k with ⟨enabled, v⟩
  obtain rfl : enabled = true := henabled
  have hevent : event s x = some { ud := v, read := x.read, write := x.write } := by
    rw [event, show (if x.read then Filter.read else .write) = filterOf x from rfl, hk]
    rfl
  simp only [hevent, pointing, hk, Option.some.injEq, NpEvent.mk.injEq, Knote.mk.injEq, true_and]
  grind

end Kqueue

/-- The pointers of the poller on kqueue. -/
def kqueuePointers : Pointers kqueue where
  toPointing := Kqueue.pointing
  init _ := trivial
  closed {u s t} fd h := by
    refine ⟨trivial, trivial, fun f d => ?_⟩
    simp only [Kqueue.pointing, kqueue]
    by_cases hd : d = fd
    · subst hd
      rw [Function.update_self, Function.update_self]
    · rw [Function.update_of_ne hd, Function.update_of_ne hd]
      exact h.points f d
  request _ _ _ := .ite Kqueue.keeps_npDel (.ite Kqueue.keeps_npAdd Kqueue.keeps_npMod)
  frame_closed {u s} fd _ hfd := by
    refine ⟨trivial, trivial, fun f d => ?_⟩
    simp only [Kqueue.pointing, kqueue]
    by_cases hd : d = fd
    · subst hd
      rw [Function.update_self]
      exact ⟨fun h => absurd ⟨f, h⟩ hfd, fun h => by cases h⟩
    · rw [Function.update_of_ne hd]
  frame_request _ _ _ hu :=
    .ite Kqueue.frames_npDel (.ite (Kqueue.frames_npAdd hu) (Kqueue.frames_npMod hu))
  poll {max timeout _ _ _} h := (Kqueue.npPoll_ok max timeout h).1
  reported := by
    intro u max max' timeout timeout' s t ies ies' s' t' h hreports hs ht
    obtain ⟨-, rfl, hall⟩ := Kqueue.npPoll_ok max timeout hs
    obtain ⟨-, rfl, hall'⟩ := Kqueue.npPoll_ok max' timeout' ht
    refine forSlot_filterMap ?_ ?_ ?_ hreports
    · rintro x hx ie hie rfl
      exact ⟨_, ((Kqueue.event_iff (hall x hx)).mp hie).1⟩
    · rintro x hx ie hie rfl
      rw [h.watched_eq]
      exact ⟨_, ((Kqueue.event_iff (hall' x hx)).mp hie).1⟩
    · rintro x ie hx hx' rfl
      rw [Kqueue.event_iff (hall x hx), Kqueue.event_iff (hall' x hx')]
      exact and_congr_left fun _ => h.points _ x.fd

/-! ## Select -/

namespace Select

/-- The array spans its entries, and `maxfd` is not below any of them. -/
structure Spans (s : Select) : Prop where
  cap : 0 < s.cap
  entry : ∀ fd u, s.ud fd = some u → 0 ≤ fd ∧ fd ≤ s.maxfd ∧ fd < s.cap

/-- The entries of the array. -/
def pointing : Pointing Select where
  points s _ d u := s.ud d = some u
  ok := Spans

variable {s t : Select} {fd : ℤ} {mask : Mask} {ud : ℕ}

namespace Spans

theorem npInit (max : ℕ) : (npInit max).Spans :=
  ⟨Nat.lt_of_lt_of_le Nat.one_pos (le_double max max 1), fun _ _ h => by cases h⟩

/-- A descriptor with user data is within the array. -/
theorem range (h : s.Spans) : ∀ fd u, s.ud fd = some u → fd < s.cap := fun fd u hu => (h.entry fd u hu).2.2

/-- `np_add`. -/
theorem add (h : s.Spans) (hfd : Valid fd) (hm : mask ≠ .none) : (s.add fd mask ud).Spans := by
  obtain ⟨hle, hlt⟩ : s.cap ≤ (s.add fd mask ud).cap ∧ fd < (s.add fd mask ud).cap := add_cap hm h.cap
  have hmaxfd : (s.add fd mask ud).maxfd = if s.maxfd < fd then fd else s.maxfd := by
    obtain ⟨s', heq, -, -, hmax⟩ := add_eq_store (s := s) (u := ud) hm
    rw [heq, ← hmax]
    simp only [store]
    split <;> rfl
  refine ⟨h.cap.trans_le hle, fun d u hd => ?_⟩
  rw [hmaxfd]
  rw [add_ud_eq hm h.range] at hd
  by_cases hdf : d = fd
  · subst hdf
    refine ⟨hfd.1, ?_, hlt⟩
    split <;> omega
  · rw [Function.update_of_ne hdf] at hd
    obtain ⟨h0, hmax, hcap⟩ := h.entry d u hd
    refine ⟨h0, ?_, by omega⟩
    split <;> omega

/-- `np_del`. -/
theorem remove (h : s.Spans) : (s.remove fd).Spans := by
  refine ⟨h.cap, fun d u hd => ?_⟩
  have hud : (s.remove fd).ud = Function.update s.ud fd none := rfl
  have hmaxfd : (s.remove fd).maxfd =
      if fd = s.maxfd then highest (Function.update s.ud fd none) s.maxfd.toNat else s.maxfd := rfl
  rw [hud] at hd
  have hne : d ≠ fd := by
    rintro rfl
    simp at hd
  have hd' := hd
  rw [Function.update_of_ne hne] at hd'
  obtain ⟨h0, hmax, hcap⟩ := h.entry d u hd'
  refine ⟨h0, ?_, hcap⟩
  rw [hmaxfd]
  split
  · -- the scan begins below the descriptor that is removed
    refine (highest_spec _ s.maxfd.toNat).1 d h0 (by omega) ?_
    rw [hd]
    rfl
  · exact hmax

end Spans

/-- A change of both arrays that depends on nothing but what it is asked for. -/
theorem Same.of_ud {s' t' : Select} (h : pointing.Same u s t) (hs : s'.Spans) (ht : t'.Spans)
    (f : Option ℕ → Option ℕ) (hs' : s'.ud = Function.update s.ud fd (f (s.ud fd)))
    (ht' : t'.ud = Function.update t.ud fd (f (t.ud fd)))
    (hf : f (s.ud fd) = some u ↔ f (t.ud fd) = some u) : pointing.Same u s' t' := by
  refine ⟨hs, ht, fun g d => ?_⟩
  simp only [pointing, hs', ht']
  by_cases hd : d = fd
  · subst hd
    rwa [Function.update_self, Function.update_self]
  · rw [Function.update_of_ne hd, Function.update_of_ne hd]
    exact h.points g d

theorem keeps_change {f : Select → Select}
    (hf : ∀ s t, Valid fd → pointing.Same u s t → pointing.Same u (f s) (f t)) :
    pointing.Keeps u (change fd f) := by
  unfold change
  split
  · next hfd =>
    refine Prog.Matches.bind (Q := fun _ _ s t => pointing.Beside u s t) ?_ fun _ _ =>
      .pure fun _ _ h => ⟨rfl, h⟩
    exact .write fun s t h => ⟨hf s.1 t.1 hfd h.1, h.2⟩
  · exact .pure _

theorem keeps_npAdd (hm : mask ≠ .none) : pointing.Keeps u (npAdd fd mask ud) :=
  keeps_change fun _ _ hfd h => Same.of_ud h (Spans.add h.left hfd hm) (Spans.add h.right hfd hm)
    (fun _ => some ud) (add_ud_eq hm (Spans.range h.left)) (add_ud_eq hm (Spans.range h.right)) Iff.rfl

theorem keeps_npMod {n : ℕ} : pointing.Keeps u (npMod fd mask n) :=
  keeps_change fun _ _ _ h => ⟨⟨h.left.cap, h.left.entry⟩, ⟨h.right.cap, h.right.entry⟩, h.points⟩

theorem keeps_npDel : pointing.Keeps u (npDel fd) := by
  unfold npDel
  split
  · refine Prog.Matches.bind (Q := fun _ _ s t => pointing.Beside u s t) (.read fun _ _ h => h) fun _ _ => ?_
    refine .bind (Q := fun _ _ s t => pointing.Beside u s t) (.check fun _ _ _ _ h => h) fun _ _ => ?_
    refine .bind (Q := fun _ _ s t => pointing.Beside u s t) ?_ fun _ _ => .pure fun _ _ h => ⟨rfl, h⟩
    exact .write fun s t h => ⟨Same.of_ud h.1 (Spans.remove h.1.left) (Spans.remove h.1.right)
      (fun _ => none) rfl rfl Iff.rfl, h.2⟩
  · exact .pure _

/-- An entry for another slot replaces one for another slot. -/
theorem Same.frame {s' : Select} {e : Option ℕ} (hok : s.Spans) (hok' : s'.Spans)
    (hud : s'.ud = Function.update s.ud fd e) (hfd : fd ∉ pointing.watched s u) (he : e ≠ some u) :
    pointing.Same u s s' := by
  refine ⟨hok, hok', fun f d => ?_⟩
  simp only [pointing, hud]
  by_cases hd : d = fd
  · subst hd
    rw [Function.update_self]
    exact ⟨fun h => absurd ⟨f, h⟩ hfd, fun h => absurd h he⟩
  · rw [Function.update_of_ne hd]

theorem frames_npAdd (hm : mask ≠ .none) (h : ud ≠ u) : pointing.Frames u fd (npAdd fd mask ud) :=
  fun _ hok hfd => wp_change (.refl hok) fun hvalid =>
    Same.frame hok (Spans.add hok hvalid hm) (add_ud_eq hm (Spans.range hok)) hfd fun heq =>
      h (Option.some.inj heq)

theorem frames_npMod {n : ℕ} : pointing.Frames u fd (npMod fd mask n) := fun _ hok _ =>
  wp_change (.refl hok) fun _ => ⟨hok, ⟨hok.cap, hok.entry⟩, fun _ _ => Iff.rfl⟩

theorem frames_npDel : pointing.Frames u fd (npDel fd) := fun _ hok hfd =>
  Prog.wp_of_any_fault (wp_npDel (.refl hok) fun _ =>
    Same.frame hok (Spans.remove hok) rfl hfd fun h => by cases h)

/-- A run of `np_poll`: nothing changes, and the events are made from the first answer. -/
theorem npPoll_ok (max : ℕ) (timeout : ℤ) {s t : Select × Os} {ies : List NpEvent}
    (h : npPoll max timeout s = (.ok ies, t)) : t.1 = s.1 ∧
      ies = (List.range (s.1.maxfd + 1).toNat).filterMap fun n : ℕ => s.1.event (readyOf s.2.replies) n := by
  rcases s with ⟨s, rs, errno⟩
  simp only [npPoll, Prog.bind_apply, Prog.read_apply] at h
  -- with nothing registered the source does not call `select`
  by_cases hmax : s.maxfd = -1
  · rw [if_pos hmax] at h
    obtain ⟨hies, rfl⟩ := Prod.mk.inj h
    exact ⟨rfl, by simp [← Except.ok.inj hies, hmax]⟩
  simp only [if_neg hmax, Prog.bind_apply, Prog.zoom, sys] at h
  rcases rs with _ | ⟨r, rs⟩
  · cases h
  by_cases hok : Selects s r
  swap
  · simp [hok] at h
  simp only [hok, if_true, Prog.pure_apply, Prod.mk.injEq, Except.ok.injEq] at h
  obtain ⟨rfl, rfl⟩ := h
  refine ⟨rfl, ?_⟩
  simp only [readyOf]
  split
  · rfl
  · simp [event, isSet]

open Classical in
/-- Whether a descriptor is ready is said by what is reported of it. -/
theorem isSet_filter {D : Set ℤ} (l : List Ready) (get : Ready → Bool)
    (hfd : fd ∈ D) : isSet (l.filter fun x => x.fd ∈ D) get fd = isSet l get fd := by
  rw [isSet, isSet, List.any_filter]
  congr 1
  funext x
  by_cases hx : x.fd = fd
  · simp [hx, hfd]
  · simp [hx]

theorem event_iff {l : List Ready} {ie : NpEvent} : s.event l fd = some ie ↔
    s.ud fd = some ie.ud ∧ ie.read = isSet l Ready.read fd ∧ ie.write = isSet l Ready.write fd ∧
      (ie.read || ie.write) = true := by
  rcases ie with ⟨ud, read, write⟩
  simp only [event, Option.ite_none_right_eq_some, Option.map_eq_some_iff, NpEvent.mk.injEq]
  constructor
  · rintro ⟨hset, _, hud, rfl, rfl, rfl⟩
    exact ⟨hud, rfl, rfl, hset⟩
  · rintro ⟨hud, rfl, rfl, hset⟩
    exact ⟨hset, ud, hud, rfl, rfl, rfl⟩

/-- A scan finds the same, wherever it ends behind the last it can find. -/
theorem filterMap_range {α : Type} {f : ℕ → Option α} {m n : ℕ} (hm : ∀ k, (f k).isSome → k < m)
    (hn : ∀ k, (f k).isSome → k < n) : (List.range m).filterMap f = (List.range n).filterMap f := by
  have hextend (m k : ℕ) (hm : ∀ j, (f j).isSome → j < m) :
      (List.range (m + k)).filterMap f = (List.range m).filterMap f := by
    rw [List.range_add, List.filterMap_append]
    refine (congrArg _ (List.filterMap_eq_nil_iff.mpr fun j hj => ?_)).trans (List.append_nil _)
    obtain ⟨i, -, rfl⟩ := List.mem_map.mp hj
    by_contra hsome
    have := hm (m + i) (Option.isSome_iff_ne_none.mpr hsome)
    omega
  rw [← hextend m n hm, Nat.add_comm, hextend n m hn]

/-- Two pollers that are the same for a slot report the same for it. -/
theorem reported {l l' : List Ready} (h : pointing.Same u s t)
    (hl : ∀ fd get, s.ud fd = some u → isSet l get fd = isSet l' get fd) :
    forSlot u ((List.range (s.maxfd + 1).toNat).filterMap fun n : ℕ => s.event l n) =
      forSlot u ((List.range (t.maxfd + 1).toNat).filterMap fun n : ℕ => t.event l' n) := by
  rw [forSlot, forSlot, List.filter_filterMap, List.filter_filterMap]
  have hevent (n : ℕ) : (s.event l n).filter (fun ie => ie.ud = u) =
      (t.event l' n).filter fun ie => ie.ud = u := by
    ext ie
    simp only [Option.filter_eq_some_iff, decide_eq_true_eq, event_iff]
    refine and_congr_left ?_
    rintro rfl
    have hiff := h.points .read n
    constructor
    · rintro ⟨hud, hrest⟩
      rw [hl n _ hud, hl n _ hud] at hrest
      exact ⟨hiff.mp hud, hrest⟩
    · rintro ⟨hud, hrest⟩
      rw [← hl n _ (hiff.mpr hud), ← hl n _ (hiff.mpr hud)] at hrest
      exact ⟨hiff.mpr hud, hrest⟩
  -- the loop runs to `maxfd`, and every descriptor registered for the slot is below it
  have hspan {s : Select} {l : List Ready} (hs : s.Spans) (n : ℕ)
      (hn : ((s.event l n).filter fun ie => ie.ud = u).isSome) : n < (s.maxfd + 1).toNat := by
    obtain ⟨ie, hie⟩ := Option.isSome_iff_exists.mp hn
    have := (hs.entry n ie.ud (event_iff.mp (Option.filter_eq_some_iff.mp hie).1).1).2.1
    omega
  simp only [hevent]
  exact filterMap_range (fun n hn => hspan h.left n (by rwa [hevent])) (hspan h.right)

end Select

/-- The pointers of the poller on select. -/
def selectPointers : Pointers select where
  toPointing := Select.pointing
  init := Select.Spans.npInit
  closed _ h := h
  request r old u := by
    unfold Request.issue
    split
    · exact Select.keeps_npDel
    · next hm => exact .ite (Select.keeps_npAdd hm) (Select.keeps_npMod (n := r.ud))
  frame_closed _ hok _ := .refl hok
  frame_request r old u hu := by
    unfold Request.issue
    split
    · exact Select.frames_npDel
    · next hm => exact .ite (Select.frames_npAdd hm hu) (Select.frames_npMod (n := r.ud))
  poll {max timeout _ _ _} h := (Select.npPoll_ok max timeout h).1
  reported := by
    intro u max max' timeout timeout' s t ies ies' s' t' h hreports hs ht
    obtain ⟨-, rfl⟩ := Select.npPoll_ok max timeout hs
    obtain ⟨-, rfl⟩ := Select.npPoll_ok max' timeout' ht
    refine Select.reported h fun fd get hfd => ?_
    have hin : fd ∈ Select.pointing.watched s.1 u := ⟨.read, hfd⟩
    calc Select.isSet (readyOf s.2.replies) get fd
        = Select.isSet (reportsOn (Select.pointing.watched s.1 u) s.2.replies) get fd :=
          (Select.isSet_filter _ get hin).symm
      _ = Select.isSet (reportsOn (Select.pointing.watched s.1 u) t.2.replies) get fd := by rw [hreports]
      _ = Select.isSet (readyOf t.2.replies) get fd := Select.isSet_filter _ get hin

end Lsocket
