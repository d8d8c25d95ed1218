import Lsocket.Net.Epoll
import Lsocket.Lib.System

/-!
# The poller on kqueue

`np_kqueue.h`. The kernel keeps two filters for a descriptor, for reading and for writing, each of
them absent, enabled or disabled. `np_add` makes both and disables what the mask does not have;
`np_mod` only ever disables one. So a mask can shrink from both directions to one, and every other
change fails or leaves both filters disabled (`implements_iff`).
-/

namespace Lsocket

/-- `EVFILT_READ` and `EVFILT_WRITE`. -/
inductive Filter
  | read
  | write
deriving DecidableEq, Repr

/-- A filter that the kernel keeps for a descriptor; `ud` is the slot in its `udata`. -/
structure Knote where
  enabled : Bool
  ud : ℕ
deriving DecidableEq, Repr

/-- The filters of all descriptors. -/
abbrev Kqueue : Type := ℤ → Filter → Option Knote

namespace Kqueue

/-- `EV_ADD`, `EV_DELETE` and `EV_DISABLE`. -/
inductive Action
  | add
  | delete
  | disable
deriving DecidableEq, Repr

/-- What a change does to a filter. Adding one that is there changes it, and enables it again. -/
def Action.apply (ud : ℕ) : Action → Option Knote → Option Knote
  | .add, _ => some { enabled := true, ud }
  | .delete, _ => none
  | .disable, k => k.map fun _ => { enabled := false, ud }

/-- Replace a filter. -/
def put (s : Kqueue) (fd : ℤ) (f : Filter) (k : Option Knote) : Kqueue :=
  Function.update s fd (Function.update (s fd) f k)

/-- `kevent` with one change. Only `EV_ADD` succeeds on a filter that is absent. -/
def kevent (fd : ℤ) (f : Filter) (act : Action) (ud : ℕ) : Prog Fault (Kqueue × Os) ℤ := do
  let s ← Prog.read Prod.fst
  let r ← Prog.zoom Prod.snd (fun o s => (s.1, o))
    (sys fun r => r.Failed ∨ (r.ret = 0 ∧ (act = .add ∨ (s fd f).isSome)))
  if r.ret = 0 then Prog.write fun s => (s.1.put fd f (act.apply ud (s.1 fd f)), s.2)
  pure r.ret

/-- `np_del`. -/
def npDel (fd : ℤ) : Prog Fault (Kqueue × Os) ℤ := do
  let _ ← kevent fd .read .delete 0
  let _ ← kevent fd .write .delete 0
  pure 0

/-- The steps of `np_add` that disable a filter which the mask does not have. -/
def disableUnless (has : Bool) (fd : ℤ) (f : Filter) (ud : ℕ) : Prog Fault (Kqueue × Os) ℤ :=
  if has then pure 0 else kevent fd f .disable ud

/-- `np_add`. -/
def npAdd (fd : ℤ) (mask : Mask) (ud : ℕ) : Prog Fault (Kqueue × Os) ℤ := do
  if (← kevent fd .read .add ud) = -1 then pure (-1)
  else if (← kevent fd .write .add ud) = -1 then
    let _ ← kevent fd .read .delete 0
    pure (-1)
  else
    if (← disableUnless mask.wable fd .write ud) = -1 then
      let _ ← npDel fd
      pure (-1)
    else if (← disableUnless mask.rable fd .read ud) = -1 then
      let _ ← npDel fd
      pure (-1)
    else pure 0

/-- `np_mod`. -/
def npMod (fd : ℤ) (mask : Mask) (ud : ℕ) : Prog Fault (Kqueue × Os) ℤ :=
  if !mask.wable then kevent fd .write .disable ud
  else if !mask.rable then kevent fd .read .disable ud
  else pure (-1)

/-- Whether the kernel can report this: one filter of a descriptor, and that one is enabled. -/
def reports (s : Kqueue) (x : Ready) : Bool :=
  match x.read, x.write with
  | true, false => (s x.fd .read).any Knote.enabled
  | false, true => (s x.fd .write).any Knote.enabled
  | _, _ => false

/-- What `kevent` can answer when it waits: an error, or reports about different filters. -/
def Waits (s : Kqueue) (max : ℕ) (r : Reply) : Prop :=
  r.Failed ∨ (r.ret = r.ready.length ∧ r.ready.length ≤ max ∧
    (r.ready.map fun x => (x.fd, x.read)).Nodup ∧ ∀ x ∈ r.ready, reports s x)

instance (s : Kqueue) (max : ℕ) : DecidablePred (Waits s max) :=
  fun _ => inferInstanceAs (Decidable (_ ∨ _))

/-- The event that `np_poll` makes from a report. -/
def event (s : Kqueue) (x : Ready) : Option NpEvent :=
  (s x.fd (if x.read then .read else .write)).map fun k =>
    { ud := k.ud, read := x.read, write := x.write }

/-- `np_poll`. -/
def npPoll (max : ℕ) (_timeout : ℤ) : Prog Fault (Kqueue × Os) (List NpEvent) := do
  let s ← Prog.read Prod.fst
  let r ← Prog.zoom Prod.snd (fun o s => (s.1, o)) (sys (Waits s max))
  pure (if r.ret < 0 then [] else r.ready.filterMap (event s))

/-- The slots that are user data of a filter. -/
def known (s : Kqueue) (u : ℕ) : Prop := ∃ fd f k, s fd f = some k ∧ k.ud = u

/-! ## The backend -/

variable {s : Kqueue × Os} {fd d : ℤ} {f g : Filter} {k : Option Knote} {ud u : ℕ} {mask : Mask}

@[simp] theorem put_self (s : Kqueue) : s.put fd f k fd f = k := by
  simp [put]

@[simp] theorem put_other (s : Kqueue) (h : g ≠ f) : s.put fd f k fd g = s fd g := by
  simp [put, h]

@[simp] theorem put_of_ne (s : Kqueue) (h : d ≠ fd) : s.put fd f k d = s d := by
  simp [put, h]

/-- The filters change if the kernel reports success. -/
theorem wp_kevent {act : Action} {Q : ℤ → Kqueue × Os → Prop} (hfail : ∀ o, Q (-1) (s.1, o))
    (hdone : ∀ o, Q 0 (s.1.put fd f (act.apply ud (s.1 fd f)), o)) :
    Prog.wp (kevent fd f act ud) Q (fun e _ => e.OfPoller) s := by
  simp only [kevent, Prog.wp_bind, Prog.wp_read]
  refine (Prog.wp_zoom ..).mpr (wp_sys (fun r o hr => ?_) (.inl rfl))
  rcases hr with hr | hr
  · rw [if_neg (by rw [hr.1]; decide), hr.1]
    exact hfail o
  · rw [if_pos hr.1, hr.1]
    exact hdone o

/-- A change brings in no slot but the one it is given. -/
theorem known_put {s : Kqueue} {act : Action} (h : known (s.put fd f (act.apply ud (s fd f))) u) :
    known s u ∨ (u = ud ∧ act ≠ .delete) := by
  obtain ⟨d, g, k, hk, rfl⟩ := h
  by_cases hd : d = fd
  · subst hd
    by_cases hg : g = f
    · subst hg
      rw [put_self] at hk
      cases act with
      | add =>
        obtain rfl := Option.some.inj hk
        exact .inr ⟨rfl, nofun⟩
      | delete => cases hk
      | disable =>
        obtain ⟨k', -, rfl⟩ := Option.map_eq_some_iff.mp hk
        exact .inr ⟨rfl, nofun⟩
    · rw [put_other s hg] at hk
      exact .inl ⟨d, g, k, hk, rfl⟩
  · rw [put_of_ne s hd] at hk
    exact .inl ⟨d, g, k, hk, rfl⟩

/-- The slots known stay, up to one. -/
def KnownUpTo (s : Kqueue) (ud : ℕ) (t : Kqueue × Os) : Prop :=
  ∀ u, known t.1 u → known s u ∨ u = ud

/-- A change of a filter adds no slot but the one it names. -/
theorem wp_kevent_known {act : Action} {s₀ : Kqueue} (h : KnownUpTo s₀ ud s) :
    Prog.wp (kevent fd f act ud) (fun _ t => KnownUpTo s₀ ud t) (fun e _ => e.OfPoller) s :=
  wp_kevent (fun _ => h) fun _ u hu => by
    rcases known_put hu with hu | ⟨rfl, -⟩
    · exact h u hu
    · exact .inr rfl

/-- A filter that is deleted adds none. -/
theorem wp_delete_known {s₀ : Kqueue} (h : KnownUpTo s₀ ud s) :
    Prog.wp (kevent fd f .delete 0) (fun _ t => KnownUpTo s₀ ud t) (fun e _ => e.OfPoller) s :=
  wp_kevent (fun _ => h) fun _ u hu => by
    rcases known_put hu with hu | ⟨-, hno⟩
    · exact h u hu
    · exact absurd rfl hno

theorem wp_npDel_known {s₀ : Kqueue} (h : KnownUpTo s₀ ud s) :
    Prog.wp (npDel fd) (fun _ t => KnownUpTo s₀ ud t) (fun e _ => e.OfPoller) s := by
  rw [npDel, Prog.wp_bind]
  refine Prog.wp_mono (wp_delete_known h) fun _ t ht => ?_
  rw [Prog.wp_bind]
  exact Prog.wp_mono (wp_delete_known ht) fun _ _ ht => ht

/-- `np_del` brings in no slot. -/
theorem wp_npDel (fd : ℤ) (s : Kqueue × Os) :
    Prog.wp (npDel fd) (fun _ t => ∀ u, known t.1 u → known s.1 u) (fun e _ => e.OfPoller) s := by
  have hdel : ∀ f (s₀ : Kqueue × Os), (∀ u, known s₀.1 u → known s.1 u) →
      Prog.wp (kevent fd f .delete 0) (fun _ t => ∀ u, known t.1 u → known s.1 u)
        (fun e _ => e.OfPoller) s₀ := by
    refine fun f s₀ h => wp_kevent (fun _ => h) fun _ u hu => ?_
    rcases known_put hu with hu | ⟨-, hno⟩
    · exact h u hu
    · exact absurd rfl hno
  rw [npDel, Prog.wp_bind]
  refine Prog.wp_mono (hdel .read s fun _ h => h) fun _ t ht => ?_
  rw [Prog.wp_bind]
  exact Prog.wp_mono (hdel .write t ht) fun _ _ ht => ht

/-- Nor does `np_mod`. -/
theorem wp_npMod_known (fd : ℤ) (mask : Mask) (ud : ℕ) (s : Kqueue × Os) :
    Prog.wp (npMod fd mask ud) (fun _ t => KnownUpTo s.1 ud t) (fun e _ => e.OfPoller) s := by
  have h : KnownUpTo s.1 ud s := fun _ h => .inl h
  unfold npMod
  split
  · exact wp_kevent_known h
  · split
    · exact wp_kevent_known h
    · exact h

/-- `np_add` makes no slot known but its own, also where it fails half-way and undoes what it did. -/
theorem wp_npAdd_known (fd : ℤ) (mask : Mask) (ud : ℕ) (s : Kqueue × Os) :
    Prog.wp (npAdd fd mask ud) (fun _ t => KnownUpTo s.1 ud t) (fun e _ => e.OfPoller) s := by
  rw [npAdd, Prog.wp_bind]
  refine Prog.wp_mono (wp_kevent_known fun _ h => .inl h) fun r t ht => ?_
  split
  · exact ht
  rw [Prog.wp_bind]
  refine Prog.wp_mono (wp_kevent_known ht) fun r t ht => ?_
  split
  · rw [Prog.wp_bind]
    exact Prog.wp_mono (wp_delete_known ht) fun _ _ ht => ht
  -- each of the two disabling steps keeps what is known, and so does the cleanup after it
  have hdisable : ∀ (b : Bool) f (t : Kqueue × Os), KnownUpTo s.1 ud t →
      Prog.wp (disableUnless b fd f ud) (fun _ t => KnownUpTo s.1 ud t)
        (fun e _ => e.OfPoller) t := by
    intro b f t ht
    unfold disableUnless
    split
    · exact ht
    · exact wp_kevent_known ht
  have hundo : ∀ t : Kqueue × Os, KnownUpTo s.1 ud t →
      Prog.wp (do let _ ← npDel fd; pure (-1)) (fun (_ : ℤ) t => KnownUpTo s.1 ud t)
        (fun e _ => e.OfPoller) t := by
    intro t ht
    rw [Prog.wp_bind]
    exact Prog.wp_mono (wp_npDel_known ht) fun _ _ ht => ht
  rw [Prog.wp_bind]
  refine Prog.wp_mono (hdisable mask.wable .write t ht) fun r t ht => ?_
  split
  · exact hundo t ht
  rw [Prog.wp_bind]
  refine Prog.wp_mono (hdisable mask.rable .read t ht) fun r t ht => ?_
  split
  · exact hundo t ht
  · exact ht

/-- `np_poll` reports slots that are known, at most `max` of them. -/
theorem wp_npPoll (max : ℕ) (timeout : ℤ) (s : Kqueue × Os) :
    Prog.wp (npPoll max timeout) (fun evs t => t.1 = s.1 ∧ evs.length ≤ max ∧
      ∀ e ∈ evs, known s.1 e.ud) (fun e _ => e.OfPoller) s := by
  simp only [npPoll, Prog.wp_bind, Prog.wp_read]
  refine (Prog.wp_zoom ..).mpr (wp_sys (fun r o hr => ?_) (.inl rfl))
  simp only [Prog.wp_pure]
  split
  · exact ⟨trivial, by simp, by simp⟩
  · next hret =>
    have hr := hr.resolve_left fun h => hret (by rw [h.1]; decide)
    refine ⟨trivial, (List.length_filterMap_le ..).trans hr.2.1, fun e he => ?_⟩
    obtain ⟨x, -, hx⟩ := List.mem_filterMap.mp he
    obtain ⟨k, hk, rfl⟩ := Option.map_eq_some_iff.mp hx
    exact ⟨x.fd, _, k, hk, rfl⟩

theorem decided_kevent {act : Action} : Decided (kevent fd f act ud) :=
  .ask (fun (s : Kqueue) r => r.Failed ∨ (r.ret = 0 ∧ (act = .add ∨ (s fd f).isSome)))
    fun s => s.put fd f (act.apply ud (s fd f))

theorem decided_npDel : Decided (npDel fd) :=
  .bind decided_kevent fun _ => .bind decided_kevent fun _ => .pure _

/-- The answers decide what `np_add` returns, whatever is registered. -/
theorem decided_npAdd : Decided (npAdd fd mask ud) := by
  have hdisable (has : Bool) (f : Filter) : Decided (disableUnless has fd f ud) :=
    .ite (.pure _) decided_kevent
  have hundo : Decided (npDel fd >>= fun _ => pure (-1)) := .bind decided_npDel fun _ => .pure _
  refine .bind decided_kevent fun _ => .ite (.pure _) (.bind decided_kevent fun _ => .ite ?_ ?_)
  · exact .bind decided_kevent fun _ => .pure _
  · exact .bind (hdisable _ _) fun _ => .ite hundo (.bind (hdisable _ _) fun _ => .ite hundo (.pure _))

theorem decided_npMod : Decided (npMod fd mask ud) :=
  .ite decided_kevent (.ite decided_kevent (.pure _))

end Kqueue

/-- The poller on kqueue. -/
def kqueue : Backend Kqueue where
  npInit _ := fun _ _ => none
  npAdd := Kqueue.npAdd
  npMod := Kqueue.npMod
  npDel := Kqueue.npDel
  npPoll := Kqueue.npPoll
  closed fd s := Function.update s fd fun _ => none
  known := Kqueue.known
  known_init := by
    rintro max u ⟨fd, f, k, h, -⟩
    cases h
  known_add := Kqueue.wp_npAdd_known
  known_mod := Kqueue.wp_npMod_known
  known_del := Kqueue.wp_npDel
  known_poll max timeout s :=
    Prog.wp_mono (Kqueue.wp_npPoll max timeout s) fun evs t h => ⟨fun u hu => h.1 ▸ hu, h.2.2⟩
  known_closed := by
    rintro fd s u ⟨d, f, k, hk, rfl⟩
    by_cases hd : d = fd
    · subst hd
      rw [Function.update_self] at hk
      cases hk
    · rw [Function.update_of_ne hd] at hk
      exact ⟨d, f, k, hk, rfl⟩
  decided_add _ _ _ := Kqueue.decided_npAdd
  decided_mod _ _ _ := Kqueue.decided_npMod
  decided_del _ := Kqueue.decided_npDel

/-! ## Requests for a mask -/

variable {σ : Type} {B : Backend σ} {np np' : σ} {v : ℤ}

/-- Whether a mask has the direction of a filter. -/
def Mask.has (m : Mask) : Filter → Bool
  | .read => m.rable
  | .write => m.wable

/-- What `_subscribe` asks the poller for: a mask for a descriptor of the slot `ud`. -/
structure Request where
  fd : ℤ
  mask : Mask
  ud : ℕ

/-- The call of the poller that `_subscribe` makes for a descriptor with mask `old`. -/
def Request.issue (r : Request) (B : Backend σ) (old : Mask) : Prog Fault (σ × Os) ℤ :=
  if r.mask = .none then B.npDel r.fd
  else if old = .none then B.npAdd r.fd r.mask r.ud
  else B.npMod r.fd r.mask r.ud

/-- All calls to the kernel succeed that are made from here on. -/
def Os.Succeeds (o : Os) : Prop := ∀ r ∈ o.replies, r.ret = 0

instance (o : Os) : Decidable o.Succeeds := inferInstanceAs (Decidable (∀ r ∈ o.replies, _))

/-- The call for a request returns `v`, and the kernel agrees to all it is asked for. -/
def Request.Gives (r : Request) (B : Backend σ) (old : Mask) (np : σ) (v : ℤ) (np' : σ) : Prop :=
  ∃ o o' : Os, o.Succeeds ∧ r.issue B old (np, o) = (.ok v, (np', o'))

/-- The mask that a descriptor has in the interest list. -/
def Epoll.mask (tbl : Epoll) (fd : ℤ) : Mask := ((tbl fd).map Prod.fst).getD .none

/-- The slot that is told of readiness in a direction. -/
def Epoll.active (tbl : Epoll) (fd : ℤ) (f : Filter) : Option ℕ :=
  (tbl fd).bind fun reg => if reg.1.has f then some reg.2 else none

/-- The slot in an enabled filter. -/
def Kqueue.active (s : Kqueue) (fd : ℤ) (f : Filter) : Option ℕ :=
  (s fd f).bind fun k => if k.enabled then some k.ud else none

/-- `_subscribe` makes a request only for a mask that is not the old one, and for the slot that the
descriptor is registered with. -/
def Request.Issued (r : Request) (tbl : Epoll) : Prop :=
  r.mask ≠ tbl.mask r.fd ∧ ∀ reg ∈ tbl r.fd, reg.2 = r.ud

/-- The two pollers, asked for the same. -/
def sideBySide : System (Kqueue × Epoll) Request where
  init s := s = (fun _ _ => none, fun _ => none)
  step s r s' := r.Issued s.2 ∧ (∃ v, r.Gives kqueue (s.2.mask r.fd) s.1 v s'.1) ∧
    ∃ v, r.Gives epoll (s.2.mask r.fd) s.2 v s'.2

/-- The kqueue poller does what is asked for: the calls return 0, the enabled filters of the
descriptor are those of the mask, and all filters are as in the interest list of the epoll poller. -/
def Implements (s : Kqueue × Epoll) (r : Request) : Prop :=
  ∀ v s' v' tbl', r.Gives kqueue (s.2.mask r.fd) s.1 v s' →
    r.Gives epoll (s.2.mask r.fd) s.2 v' tbl' →
      v = 0 ∧ v' = 0 ∧ (∀ f, s'.active r.fd f = if r.mask.has f then some r.ud else none) ∧
        s'.active = tbl'.active

/-- A request that changes a mask, but not to or from zero, takes one direction away. -/
def Request.Narrows (r : Request) (tbl : Epoll) : Prop :=
  r.mask ≠ .none → tbl.mask r.fd ≠ .none → tbl.mask r.fd = ⟨true, true⟩

/-! ## Calls that succeed -/

/-- A call to a kernel in which all calls succeed. -/
theorem wp_sys_succeeds {ok : Reply → Prop} [DecidablePred ok] {o : Os} (h : o.Succeeds) :
    Prog.wp (sys ok) (fun r o' => r.ret = 0 ∧ ok r ∧ o'.Succeeds) (fun _ _ => True) o := by
  unfold Prog.wp sys
  rcases hr : o.replies with _ | ⟨r, rs⟩
  · trivial
  · have hrs : ∀ x ∈ r :: rs, x.ret = 0 := hr ▸ h
    by_cases hok : ok r
    · simp only [if_pos hok]
      exact ⟨hrs r List.mem_cons_self, hok, fun x hx => hrs x (List.mem_cons_of_mem _ hx)⟩
    · simp only [if_neg hok]

/-- `kevent` does the change it is given. -/
theorem wp_kevent_succeeds {s : Kqueue × Os} {fd : ℤ} {f : Filter} {act : Kqueue.Action} {ud : ℕ}
    (h : s.2.Succeeds) :
    Prog.wp (Kqueue.kevent fd f act ud) (fun v t => v = 0 ∧
      t.1 = s.1.put fd f (act.apply ud (s.1 fd f)) ∧ t.2.Succeeds) (fun _ _ => True) s := by
  simp only [Kqueue.kevent, Prog.wp_bind, Prog.wp_read]
  refine (Prog.wp_zoom ..).mpr (Prog.wp_mono (wp_sys_succeeds h) fun r o hr => ?_)
  rw [if_pos hr.1]
  exact ⟨hr.1, rfl, hr.2.2⟩

/-- So does `epoll_ctl`. -/
theorem wp_ctl_succeeds {s : Epoll × Os} {ok : Epoll → Prop} [DecidablePred ok] {f : Epoll → Epoll}
    (h : s.2.Succeeds) :
    Prog.wp (Epoll.ctl ok f) (fun v t => v = 0 ∧ t.1 = f s.1) (fun _ _ => True) s := by
  simp only [Epoll.ctl, Prog.wp_bind, Prog.wp_read]
  refine (Prog.wp_zoom ..).mpr (Prog.wp_mono (wp_sys_succeeds h) fun r o hr => ?_)
  rw [if_pos hr.1]
  exact ⟨hr.1, rfl⟩

variable {r : Request} {s : Kqueue} {tbl tbl' : Epoll} {old : Mask}

/-- On epoll the interest list has what was asked for. -/
theorem Request.Gives.epoll_eq (h : r.Gives epoll old tbl v tbl') :
    v = 0 ∧ tbl' = Function.update tbl r.fd (if r.mask = .none then none else some (r.mask, r.ud)) := by
  obtain ⟨o, o', hgood, hrun⟩ := h
  have hwp : Prog.wp (r.issue epoll old) (fun v t => v = 0 ∧
      t.1 = Function.update tbl r.fd (if r.mask = .none then none else some (r.mask, r.ud)))
      (fun _ _ => True) (tbl, o) := by
    unfold Request.issue
    split
    · show Prog.wp (Epoll.npDel r.fd) _ _ _
      exact wp_ctl_succeeds hgood
    · split
      · show Prog.wp (Epoll.npAdd r.fd r.mask r.ud) _ _ _
        exact wp_ctl_succeeds hgood
      · show Prog.wp (Epoll.npMod r.fd r.mask r.ud) _ _ _
        exact wp_ctl_succeeds hgood
  have hout := Prog.wp_ok hwp hrun
  exact hout

/-- Both filters of a descriptor, as `np_add` makes them for a mask. -/
def Mask.knotes (m : Mask) (ud : ℕ) (f : Filter) : Option Knote := some { enabled := m.has f, ud }

/-- The filters are those that belong to the interest list. -/
def Kqueue.Twin (s : Kqueue) (tbl : Epoll) : Prop :=
  ∀ fd, match tbl fd with
    | none => s fd = fun _ => none
    | some (m, ud) => m ≠ .none ∧ s fd = m.knotes ud

/-- The two filters of a descriptor, one after the other. -/
theorem Kqueue.put_put (s : Kqueue) {fd : ℤ} {k₁ k₂ : Option Knote} {F : Filter → Option Knote}
    {f g : Filter} (hfg : f ≠ g) (h₁ : F f = k₁) (h₂ : F g = k₂) :
    (s.put fd f k₁).put fd g k₂ = Function.update s fd F := by
  funext d e
  by_cases hd : d = fd
  · subst hd
    rw [Function.update_self]
    by_cases he : e = g
    · rw [he, put_self, h₂]
    · have hef : e = f := by cases e <;> cases f <;> cases g <;> simp_all
      rw [put_other _ he, hef, put_self, h₁]
  · rw [put_of_ne _ hd, put_of_ne _ hd, Function.update_of_ne hd]

/-- `np_del` takes both filters off. -/
theorem wp_npDel_succeeds {s : Kqueue × Os} {fd : ℤ} (h : s.2.Succeeds) :
    Prog.wp (Kqueue.npDel fd) (fun v t => v = 0 ∧ t.1 = Function.update s.1 fd fun _ => none)
      (fun _ _ => True) s := by
  rw [Kqueue.npDel, Prog.wp_bind]
  refine Prog.wp_mono (wp_kevent_succeeds h) ?_
  rintro _ t ⟨-, ht, hgood⟩
  rw [Prog.wp_bind]
  refine Prog.wp_mono (wp_kevent_succeeds hgood) ?_
  rintro _ t' ⟨-, ht', -⟩
  refine ⟨rfl, ?_⟩
  rw [ht', ht]
  exact Kqueue.put_put _ (by decide) rfl rfl

/-- Disabling, or not, leaves the filter as it belongs to the mask. -/
theorem wp_disableUnless_succeeds {s : Kqueue × Os} {has : Bool} {fd : ℤ} {f : Filter} {ud : ℕ}
    (h : s.2.Succeeds) (hf : s.1 fd f = some { enabled := true, ud }) :
    Prog.wp (Kqueue.disableUnless has fd f ud) (fun v t => v = 0 ∧
      t.1 = s.1.put fd f (some { enabled := has, ud }) ∧ t.2.Succeeds) (fun _ _ => True) s := by
  unfold Kqueue.disableUnless
  cases has with
  | true =>
    refine ⟨rfl, ?_, h⟩
    rw [← hf, Kqueue.put, Function.update_eq_self, Function.update_eq_self]
  | false =>
    refine Prog.wp_mono (wp_kevent_succeeds h) ?_
    rintro v t ⟨hv, ht, hgood⟩
    rw [hf] at ht
    exact ⟨hv, ht, hgood⟩

/-- `np_add` leaves both filters registered, and disables those that are not asked for. -/
theorem wp_npAdd_succeeds {s : Kqueue × Os} {fd : ℤ} {mask : Mask} {ud : ℕ} (h : s.2.Succeeds) :
    Prog.wp (Kqueue.npAdd fd mask ud) (fun v t => v = 0 ∧
      t.1 = Function.update s.1 fd (mask.knotes ud)) (fun _ _ => True) s := by
  rw [Kqueue.npAdd, Prog.wp_bind]
  refine Prog.wp_mono (wp_kevent_succeeds h) ?_
  rintro _ t₁ ⟨rfl, h₁, hgood₁⟩
  rw [if_neg (by decide), Prog.wp_bind]
  refine Prog.wp_mono (wp_kevent_succeeds hgood₁) ?_
  rintro _ t₂ ⟨rfl, h₂, hgood₂⟩
  rw [if_neg (by decide), Prog.wp_bind]
  -- both filters are added enabled, then the one that is not asked for is disabled
  have hw : t₂.1 fd .write = some { enabled := true, ud } := by
    rw [h₂, Kqueue.put_self]
    rfl
  refine Prog.wp_mono (wp_disableUnless_succeeds hgood₂ hw) ?_
  rintro _ t₃ ⟨rfl, h₃, hgood₃⟩
  rw [if_neg (by decide), Prog.wp_bind]
  have hr : t₃.1 fd .read = some { enabled := true, ud } := by
    rw [h₃, Kqueue.put_other _ (by decide), h₂, Kqueue.put_other _ (by decide), h₁, Kqueue.put_self]
    rfl
  refine Prog.wp_mono (wp_disableUnless_succeeds hgood₃ hr) ?_
  rintro _ t₄ ⟨rfl, h₄, -⟩
  rw [if_neg (by decide)]
  have hlast : t₄.1 = Function.update t₂.1 fd (mask.knotes ud) := by
    rw [h₄, h₃]
    exact Kqueue.put_put _ (by decide) rfl rfl
  refine ⟨rfl, ?_⟩
  rw [hlast, h₂, h₁]
  funext d
  by_cases hd : d = fd
  · subst hd
    rw [Function.update_self, Function.update_self]
  · rw [Function.update_of_ne hd, Function.update_of_ne hd, Kqueue.put_of_ne _ hd,
      Kqueue.put_of_ne _ hd]

/-- Both directions become one. -/
theorem wp_npMod_succeeds {s : Kqueue × Os} {fd : ℤ} {mask : Mask} {ud : ℕ} (h : s.2.Succeeds)
    (hs : s.1 fd = Mask.knotes ⟨true, true⟩ ud) (hm : mask ≠ .none) (hne : mask ≠ ⟨true, true⟩) :
    Prog.wp (Kqueue.npMod fd mask ud) (fun v t => v = 0 ∧
      t.1 = Function.update s.1 fd (mask.knotes ud)) (fun _ _ => True) s := by
  have hput : ∀ f, mask.has f = false → (∀ g ≠ f, mask.has g = true) →
      s.1.put fd f (Kqueue.Action.disable.apply ud (s.1 fd f))
        = Function.update s.1 fd (mask.knotes ud) := by
    intro f hf hg
    rw [Kqueue.put, hs]
    congr 1
    funext g
    by_cases hgf : g = f
    · subst hgf
      rw [Function.update_self]
      show some (Knote.mk false ud) = some (Knote.mk (mask.has g) ud)
      rw [hf]
    · rw [Function.update_of_ne hgf, Mask.knotes, Mask.knotes, hg g hgf]
      cases g <;> rfl
  obtain ⟨rable, wable⟩ := mask
  unfold Kqueue.npMod
  cases wable with
  | false =>
    have hr : rable = true := by
      cases rable with
      | false => exact absurd rfl hm
      | true => rfl
    refine Prog.wp_mono (wp_kevent_succeeds h) fun v t ht => ⟨ht.1, ?_⟩
    rw [ht.2.1]
    refine hput .write rfl fun g hg => ?_
    cases g with
    | read => exact hr
    | write => exact absurd rfl hg
  | true =>
    have hr : rable = false := by
      cases rable with
      | false => rfl
      | true => exact absurd rfl hne
    subst hr
    refine Prog.wp_mono (wp_kevent_succeeds h) fun v t ht => ⟨ht.1, ?_⟩
    rw [ht.2.1]
    refine hput .read rfl fun g hg => ?_
    cases g with
    | read => exact absurd rfl hg
    | write => rfl

/-! ## Runs of requests -/

/-- The filters that a request asks for. -/
def Request.knotes (r : Request) : Filter → Option Knote :=
  if r.mask = .none then fun _ => none else r.mask.knotes r.ud

/-- A request that does not turn one direction into another, or add one, is done. -/
theorem Request.Gives.kqueue_eq {s' : Kqueue} (h : r.Gives kqueue (tbl.mask r.fd) s v s') (ht : s.Twin tbl)
    (hi : r.Issued tbl) (hn : r.Narrows tbl) : v = 0 ∧ s' = Function.update s r.fd r.knotes := by
  obtain ⟨o, o', hgood, hrun⟩ := h
  have hwp : Prog.wp (r.issue kqueue (tbl.mask r.fd)) (fun v t => v = 0 ∧
      t.1 = Function.update s r.fd r.knotes) (fun _ _ => True) (s, o) := by
    have htwin := ht r.fd
    unfold Request.issue Request.knotes
    split
    · show Prog.wp (Kqueue.npDel r.fd) _ _ _
      exact wp_npDel_succeeds hgood
    · next hm =>
      split
      · show Prog.wp (Kqueue.npAdd r.fd r.mask r.ud) _ _ _
        exact wp_npAdd_succeeds hgood
      · next hold =>
        -- a narrowing request starts from both interests
        have hboth := hn hm hold
        rcases hreg : tbl r.fd with _ | ⟨m, ud⟩
        · simp [Epoll.mask, hreg] at hold
        · rw [hreg] at htwin
          have hud : ud = r.ud := hi.2 _ hreg
          have hmm : m = ⟨true, true⟩ := by simpa [Epoll.mask, hreg] using hboth
          show Prog.wp (Kqueue.npMod r.fd r.mask r.ud) _ _ _
          refine wp_npMod_succeeds hgood ?_ hm fun heq => ?_
          · rw [← hud, ← hmm]
            exact htwin.2
          · exact hi.1 (heq.trans hboth.symm)
  have hout := Prog.wp_ok hwp hrun
  exact hout

/-- The filters still belong to the interest list after a request that both pollers do. -/
theorem Kqueue.Twin.update (h : s.Twin tbl) :
    Kqueue.Twin (Function.update s r.fd r.knotes) (Function.update tbl r.fd
      (if r.mask = .none then none else some (r.mask, r.ud))) := by
  intro fd
  by_cases hfd : fd = r.fd
  · subst hfd
    rw [Function.update_self, Function.update_self, Request.knotes]
    by_cases hm : r.mask = .none
    · rw [if_pos hm, if_pos hm]
    · rw [if_neg hm, if_neg hm]
      exact ⟨hm, rfl⟩
  · rw [Function.update_of_ne hfd, Function.update_of_ne hfd]
    exact h fd

/-- Filters that belong to an interest list are enabled as it says. -/
theorem Kqueue.Twin.active_eq (h : s.Twin tbl) : s.active = tbl.active := by
  funext fd f
  have htwin := h fd
  rw [Kqueue.active, Epoll.active]
  rcases hreg : tbl fd with _ | ⟨m, ud⟩ <;> rw [hreg] at htwin
  · rw [htwin]
    rfl
  · rw [htwin.2]
    rfl

/-- The filters belong to the interest list in runs of requests that take a direction away. -/
theorem twin_of_reach {x : Kqueue × Epoll}
    (h : (sideBySide.restrict fun s r _ => r.Narrows s.2).Reach x) : x.1.Twin x.2 := by
  refine h.invariant (I := fun x => x.1.Twin x.2) ?_ ?_
  · rintro _ rfl fd
    rfl
  · rintro x r x' - ht ⟨⟨hi, ⟨v, hk⟩, w, he⟩, hn⟩
    rw [(hk.kqueue_eq ht hi hn).2, he.epoll_eq.2]
    exact ht.update

/-- A mask that is asked for in place of another one: what the kqueue poller does if the kernel agrees
has the new directions enabled only if the old mask had both. -/
theorem both_of_gives {m : Mask} (ht : s r.fd = m.knotes r.ud) (hm : r.mask ≠ .none) (hold : m ≠ .none)
    (hne : r.mask ≠ m) (himp : ∀ v s', r.Gives kqueue m s v s' →
      v = 0 ∧ ∀ f, s'.active r.fd f = if r.mask.has f then some r.ud else none) :
    m = ⟨true, true⟩ := by
  let o : Os := { replies := [{ ret := 0 }], errno := 0 }
  have hgood : o.Succeeds := by simp [o, Os.Succeeds]
  have hissue : r.issue kqueue m = Kqueue.npMod r.fd r.mask r.ud := by
    rw [Request.issue, if_neg hm, if_neg hold]
    rfl
  -- the filter that is not disabled has the state that it had
  have hkeep : ∀ f g, g ≠ f → r.mask.has g = true →
      Kqueue.npMod r.fd r.mask r.ud = Kqueue.kevent r.fd f .disable r.ud → m.has g = true := by
    intro f g hgf hg hmod
    have hrun : Kqueue.kevent r.fd f .disable r.ud (s, o) = (.ok 0,
        (s.put r.fd f (some { enabled := false, ud := r.ud }), { replies := [], errno := 0 })) := by
      simp [Kqueue.kevent, Prog.zoom, sys, o, ht, Mask.knotes, Kqueue.Action.apply]
    obtain ⟨-, hact⟩ := himp 0 _ ⟨o, _, hgood, by rw [hissue, hmod]; exact hrun⟩
    have hon := hact g
    rw [if_pos hg, Kqueue.active, Kqueue.put_other _ hgf, ht] at hon
    by_contra hno
    simp [Mask.knotes, hno] at hon
  obtain ⟨fd, ⟨rable, wable⟩, ud⟩ := r
  obtain ⟨rable', wable'⟩ := m
  cases wable with
  | false =>
    have hr : rable = true := by
      cases rable with
      | false => exact absurd rfl hm
      | true => rfl
    subst hr
    have hr' : rable' = true := hkeep .write .read (by decide) rfl rfl
    subst hr'
    cases wable' with
    | false => exact absurd rfl hne
    | true => rfl
  | true =>
    cases rable with
    | false =>
      have hw' : wable' = true := hkeep .read .write (by decide) rfl rfl
      subst hw'
      cases rable' with
      | false => exact absurd rfl hne
      | true => rfl
    | true =>
      have hfail : (-1 : ℤ) = 0 := (himp (-1) s ⟨o, o, hgood, by rw [hissue]; rfl⟩).1
      cases hfail

/-- After runs of requests that take a direction away, the kqueue poller does what is asked for next
exactly if that takes a direction away as well. -/
theorem implements_iff {x : Kqueue × Epoll}
    (h : (sideBySide.restrict fun s r _ => r.Narrows s.2).Reach x) (hi : r.Issued x.2) :
    Implements x r ↔ r.Narrows x.2 := by
  have ht := twin_of_reach h
  constructor
  · intro himp hm hold
    have htwin := ht r.fd
    rcases hreg : x.2 r.fd with _ | ⟨m, ud⟩
    · simp [Epoll.mask, hreg] at hold
    rw [hreg] at htwin
    obtain rfl : ud = r.ud := hi.2 _ hreg
    have hmask : x.2.mask r.fd = m := by simp [Epoll.mask, hreg]
    rw [hmask] at hold ⊢
    refine both_of_gives htwin.2 hm hold (fun heq => hi.1 (heq.trans hmask.symm)) fun v s' hk => ?_
    -- the epoll poller does what it is asked for
    let o : Os := { replies := [{ ret := 0 }], errno := 0 }
    have he : r.Gives epoll (x.2.mask r.fd) x.2 0
        (Function.update x.2 r.fd (some (r.mask, r.ud))) := by
      refine ⟨o, { replies := [], errno := 0 }, by simp [o, Os.Succeeds], ?_⟩
      rw [hmask, Request.issue, if_neg hm, if_neg hold]
      show Epoll.npMod r.fd r.mask r.ud (x.2, o) = _
      simp [Epoll.npMod, Epoll.ctl, Prog.zoom, sys, o, hreg]
    obtain ⟨hv, -, hact, -⟩ := himp v s' 0 _ (by rwa [hmask]) he
    exact ⟨hv, hact⟩
  · intro hn v s' v' tbl' hk he
    obtain ⟨hv, hs'⟩ := hk.kqueue_eq ht hi hn
    obtain ⟨hv', htbl'⟩ := he.epoll_eq
    refine ⟨hv, hv', fun f => ?_, ?_⟩
    · rw [hs', Kqueue.active, Function.update_self, Request.knotes]
      split
      · next hm =>
        rw [hm]
        cases f <;> rfl
      · rfl
    · rw [hs', htbl']
      exact ht.update.active_eq

/-- A kernel that agrees to the next calls. -/
def lucky : Os := { replies := List.replicate 3 { ret := 0 }, errno := 0 }

theorem lucky_succeeds : lucky.Succeeds := by decide

/-- Descriptor 5, registered with a mask. -/
def added (mask : Mask) : Kqueue × Epoll :=
  ((Kqueue.npAdd 5 mask 0 (fun _ _ => none, lucky)).2.1,
    (Epoll.npAdd 5 mask 0 (fun _ => none, lucky)).2.1)

/-- `np_mod` takes writing away from both. -/
theorem implements_iff_mod : Implements (added ⟨true, true⟩) ⟨5, ⟨true, false⟩, 0⟩ := by
  have hadd : (sideBySide.restrict fun s r _ => r.Narrows s.2).Reach (added ⟨true, true⟩) := by
    refine .step (l := ⟨5, ⟨true, true⟩, 0⟩) (.init rfl) ⟨⟨⟨by decide, nofun⟩, ?_, ?_⟩, ?_⟩
    · exact ⟨0, lucky, _, lucky_succeeds, rfl⟩
    · exact ⟨0, lucky, _, lucky_succeeds, rfl⟩
    · exact fun _ hold => absurd rfl hold
  exact (implements_iff (r := ⟨5, ⟨true, false⟩, 0⟩) hadd ⟨by decide, by decide⟩).mpr fun _ _ => rfl

/-- Writing is not added to reading. -/
theorem not_implements_readable :
    sideBySide.Reach (added ⟨true, false⟩) ∧
      Request.Issued ⟨5, ⟨true, true⟩, 0⟩ (added ⟨true, false⟩).2 ∧
        ¬ Implements (added ⟨true, false⟩) ⟨5, ⟨true, true⟩, 0⟩ := by
  refine ⟨.step (l := ⟨5, ⟨true, false⟩, 0⟩) (.init rfl) ⟨⟨by decide, nofun⟩, ?_, ?_⟩,
    ⟨by decide, by decide⟩, fun himp => ?_⟩
  · exact ⟨0, lucky, _, lucky_succeeds, rfl⟩
  · exact ⟨0, lucky, _, lucky_succeeds, rfl⟩
  · have hv := (himp (-1) _ 0 _ ⟨lucky, _, lucky_succeeds, rfl⟩ ⟨lucky, _, lucky_succeeds, rfl⟩).1
    cases hv

end Lsocket
