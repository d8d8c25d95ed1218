import Lsocket.Net.Types
import Mathlib.Logic.Function.Basic

/-!
# The poller on epoll

`np_epoll.h`. The state is the interest list of the kernel: which descriptors are registered, with
which mask and which slot as user data. The kernel drops a registration when its descriptor is
closed.
-/

namespace Lsocket

/-- The interest list. -/
abbrev Epoll : Type := ℤ → Option (Mask × ℕ)

namespace Epoll

/-- `_op` with a change of the interest list that the kernel makes if `ok`. -/
def ctl (ok : Epoll → Prop) [DecidablePred ok] (f : Epoll → Epoll) : Prog Fault (Epoll × Os) ℤ := do
  let tbl ← Prog.read Prod.fst
  let r ← Prog.zoom Prod.snd (fun o s => (s.1, o)) (sys fun r => r.Failed ∨ (r.ret = 0 ∧ ok tbl))
  if r.ret = 0 then Prog.write fun s => (f s.1, s.2)
  pure r.ret

/-- `np_add`: `EPOLL_CTL_ADD` of a descriptor that is not registered. -/
def npAdd (fd : ℤ) (mask : Mask) (ud : ℕ) : Prog Fault (Epoll × Os) ℤ :=
  ctl (fun tbl => tbl fd = none) fun tbl => Function.update tbl fd (some (mask, ud))

/-- `np_mod`: `EPOLL_CTL_MOD` of a descriptor that is registered. -/
def npMod (fd : ℤ) (mask : Mask) (ud : ℕ) : Prog Fault (Epoll × Os) ℤ :=
  ctl (fun tbl => (tbl fd).isSome) fun tbl => Function.update tbl fd (some (mask, ud))

/-- `np_del`: `EPOLL_CTL_DEL`. -/
def npDel (fd : ℤ) : Prog Fault (Epoll × Os) ℤ :=
  ctl (fun tbl => (tbl fd).isSome) fun tbl => Function.update tbl fd none

/-- Whether `epoll_wait` can report this: the descriptor is registered, and for what is reported. -/
def reports (tbl : Epoll) (x : Ready) : Bool :=
  match tbl x.fd with
  | some (mask, _) => (!x.read || mask.rable) && (!x.write || mask.wable) && (x.read || x.write || x.hup)
  | none => false

/-- What `epoll_wait` can answer: an error, or reports about different descriptors. -/
def Waits (tbl : Epoll) (max : ℕ) (r : Reply) : Prop :=
  r.Failed ∨ (r.ret = r.ready.length ∧ r.ready.length ≤ max ∧ (r.ready.map Ready.fd).Nodup ∧
    ∀ x ∈ r.ready, reports tbl x)

instance (tbl : Epoll) (max : ℕ) : DecidablePred (Waits tbl max) :=
  fun _ => inferInstanceAs (Decidable (_ ∨ _))

/-- The event that `np_poll` makes from a report: an error or a hangup counts as writable. -/
def event (tbl : Epoll) (x : Ready) : Option NpEvent :=
  (tbl x.fd).map fun reg => { ud := reg.2, read := x.read, write := x.write || x.hup }

/-- `np_poll`. -/
def npPoll (max : ℕ) (_timeout : ℤ) : Prog Fault (Epoll × Os) (List NpEvent) := do
  let tbl ← Prog.read Prod.fst
  let r ← Prog.zoom Prod.snd (fun o s => (s.1, o)) (sys (Waits tbl max))
  pure (if r.ret < 0 then [] else r.ready.filterMap (event tbl))

/-- The slots that are user data of a registration. -/
def known (tbl : Epoll) (u : ℕ) : Prop := ∃ fd mask, tbl fd = some (mask, u)

/-! ## The backend -/

variable {s : Epoll × Os}

/-- The interest list changes if the kernel reports success. -/
theorem wp_ctl {ok : Epoll → Prop} [DecidablePred ok] {f : Epoll → Epoll} {Q : ℤ → Epoll × Os → Prop}
    (hfail : ∀ o, Q (-1) (s.1, o)) (hdone : ok s.1 → ∀ o, Q 0 (f s.1, o)) :
    Prog.wp (ctl ok f) Q (fun e _ => e.OfPoller) s := by
  simp only [ctl, Prog.wp_bind, Prog.wp_read]
  refine (Prog.wp_zoom ..).mpr (wp_sys (fun r o hr => ?_) (.inl rfl))
  rcases hr with hr | hr
  · rw [if_neg (by rw [hr.1]; decide), hr.1]
    exact hfail o
  · rw [if_pos hr.1, hr.1]
    exact hdone hr.2 o

/-- A registration that is added or changed is known, and no other new one. -/
theorem known_update {tbl : Epoll} {fd : ℤ} {mask : Mask} {ud u : ℕ}
    (h : known (Function.update tbl fd (some (mask, ud))) u) : known tbl u ∨ u = ud := by
  obtain ⟨fd', mask', h⟩ := h
  by_cases hfd : fd' = fd
  · subst hfd
    rw [Function.update_self] at h
    exact .inr (Prod.mk.inj (Option.some.inj h)).2.symm
  · rw [Function.update_of_ne hfd] at h
    exact .inl ⟨fd', mask', h⟩

/-- A registration that is removed leaves no new one. -/
theorem known_remove {tbl : Epoll} {fd : ℤ} {u : ℕ} (h : known (Function.update tbl fd none) u) :
    known tbl u := by
  obtain ⟨fd', mask', h⟩ := h
  by_cases hfd : fd' = fd
  · subst hfd
    rw [Function.update_self] at h
    cases h
  · rw [Function.update_of_ne hfd] at h
    exact ⟨fd', mask', h⟩

/-- `np_poll` reports what is registered, at most `max` events. -/
theorem wp_npPoll (max : ℕ) (timeout : ℤ) (s : Epoll × Os) :
    Prog.wp (npPoll max timeout) (fun evs t => t.1 = s.1 ∧ evs.length ≤ max ∧
      ∀ e ∈ evs, known s.1 e.ud) (fun e _ => e.OfPoller) s := by
  simp only [npPoll, Prog.wp_bind, Prog.wp_read]
  refine (Prog.wp_zoom ..).mpr (wp_sys (fun r o hr => ?_) (.inl rfl))
  simp only [Prog.wp_pure]
  split
  · exact ⟨trivial, by simp, by simp⟩
  · next hret =>
    have hr := hr.resolve_left fun h => hret (by rw [h.1]; decide)
    refine ⟨trivial, (List.length_filterMap_le ..).trans hr.2.1, fun e he => ?_⟩
    obtain ⟨x, -, hx⟩ := List.mem_filterMap.mp he
    obtain ⟨reg, hreg, rfl⟩ := Option.map_eq_some_iff.mp hx
    exact ⟨x.fd, reg.1, hreg⟩

theorem decided_ctl {ok : Epoll → Prop} [DecidablePred ok] {f : Epoll → Epoll} :
    Decided (ctl ok f) :=
  .ask (fun tbl r => r.Failed ∨ (r.ret = 0 ∧ ok tbl)) f

end Epoll

/-- The poller on epoll. -/
def epoll : Backend Epoll where
  npInit _ := fun _ => none
  npAdd := Epoll.npAdd
  npMod := Epoll.npMod
  npDel := Epoll.npDel
  npPoll := Epoll.npPoll
  closed fd tbl := Function.update tbl fd none
  known := Epoll.known
  known_init := by
    rintro max u ⟨fd, mask, h⟩
    cases h
  known_add fd mask ud s :=
    Epoll.wp_ctl (fun _ _ h => .inl h) fun _ _ _ h => Epoll.known_update h
  known_mod fd mask ud s :=
    Epoll.wp_ctl (fun _ _ h => .inl h) fun _ _ _ h => Epoll.known_update h
  known_del fd s := Epoll.wp_ctl (fun _ _ h => h) fun _ _ _ h => Epoll.known_remove h
  known_poll max timeout s :=
    Prog.wp_mono (Epoll.wp_npPoll max timeout s) fun evs t h => ⟨fun u hu => h.1 ▸ hu, h.2.2⟩
  known_closed fd s u h := Epoll.known_remove h
  decided_add _ _ _ := Epoll.decided_ctl
  decided_mod _ _ _ := Epoll.decided_ctl
  decided_del _ := Epoll.decided_ctl

end Lsocket
