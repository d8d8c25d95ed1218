import Lsocket.Net.Fate
import Lsocket.Net.Epoll
import Lsocket.Net.Select

/-!
# Registrations

A `Registry` says what a poller has registered for a descriptor, and how its functions change it. The
registrations agree with the slots as long as every slot is closed without a registration, or by
closing a descriptor that the kernel forgets. `_close_socket` does not see to this: it never
deregisters, and does not close a standard stream.
-/

namespace Lsocket

variable {σ : Type} {B : Backend σ} {w : World σ} {a a' : Abs σ} {i j : ℕ} {c c' : Conn} {op : Op}
variable {np np' : σ} {evs log : List Ev} {v fd : ℤ}

/-! ## Requests of a step -/

/-- A write event asks the poller for one mask at most. -/
theorem Flush.subscribes (h : Flush B i c np c' np' evs) :
    c'.fd = c.fd ∧ ∃ new r evs', Subscribe B i c.fd c.mask new np r c'.mask np' evs' := by
  cases h with
  | idle => exact ⟨rfl, c.mask, 0, [], .same rfl⟩
  | rest h => exact ⟨h.fd, c.mask, 0, [], by rw [h.mask]; exact .same rfl⟩
  | done _ h _ hs => exact ⟨h.fd, _, _, _, hs⟩

/-- So does a step of a connection, -/
theorem ConnStep.subscribes (h : ConnStep B op v i c np c' np' evs) :
    c'.fd = c.fd ∧ ∃ new r evs', Subscribe B i c.fd c.mask new np r c'.mask np' evs' := by
  cases h with
  | tune | received | half | whole | behind => exact ⟨rfl, c.mask, 0, [], .same rfl⟩
  | enable _ h => exact ⟨rfl, _, _, _, h⟩
  | start _ _ _ _ hs => exact ⟨rfl, _, _, _, hs⟩
  | flushed _ h => exact h.subscribes
  | completed _ _ h => exact ⟨rfl, _, _, _, h⟩

/-- what comes before a close, -/
theorem Closing.subscribes (h : Closing B op v i c np c' np' evs) :
    c'.fd = c.fd ∧ ∃ new r evs', Subscribe B i c.fd c.mask new np r c'.mask np' evs' := by
  cases h with
  | forced | idle | destroyed | unread | unsent | unconnected =>
    exact ⟨rfl, c.mask, 0, [], .same rfl⟩
  | broken _ _ _ h => exact ⟨h.fd, c.mask, 0, [], by rw [h.mask]; exact .same rfl⟩
  | finished _ _ _ h => exact h.subscribes

/-- and the opening of a connection. -/
theorem Opening.Makes.subscribes (h : Opening.Makes B op i c np c' np' evs) (hm : c.mask = .none) :
    c'.fd = c.fd ∧ ∃ new r evs', Subscribe B i c.fd .none new np r c'.mask np' evs' := by
  cases h with
  | listening _ h => exact ⟨rfl, _, _, _, h⟩
  | connecting _ h => exact ⟨rfl, _, _, _, h⟩
  | connected | accepted | bound => exact ⟨rfl, .none, 0, [], by rw [hm]; exact .same rfl⟩

/-! ## What a poller has registered -/

/-- A poller whose registrations are known. -/
structure Registry (B : Backend σ) where
  /-- The mask and the slot that a descriptor is registered with. -/
  reg : σ → ℤ → Option (Mask × ℕ)
  /-- The state is in order. -/
  ok : σ → Prop
  /-- Whether closing a descriptor ends its registration. -/
  drops : Bool
  init : ∀ max, ok (B.npInit max) ∧ ∀ fd, reg (B.npInit max) fd = none
  add : ∀ fd mask ud s, ok s.1 → reg s.1 fd = none → mask ≠ .none → Prog.wp (B.npAdd fd mask ud)
    (fun r t => ok t.1 ∧ reg t.1 =
      if r = 0 then Function.update (reg s.1) fd (some (mask, ud)) else reg s.1)
    (fun e _ => e.OfPoller) s
  mod : ∀ fd old mask ud s, ok s.1 → reg s.1 fd = some (old, ud) → mask ≠ .none →
    Prog.wp (B.npMod fd mask ud)
      (fun r t => ok t.1 ∧ reg t.1 =
        if r = 0 then Function.update (reg s.1) fd (some (mask, ud)) else reg s.1)
      (fun e _ => e.OfPoller) s
  del : ∀ fd s, ok s.1 → Prog.wp (B.npDel fd)
    (fun r t => ok t.1 ∧ reg t.1 = if r = 0 then Function.update (reg s.1) fd none else reg s.1)
    (fun e _ => e.OfPoller) s
  poll : ∀ max timeout s, ok s.1 → Prog.wp (B.npPoll max timeout)
    (fun _ t => ok t.1 ∧ reg t.1 = reg s.1) (fun e _ => e.OfPoller) s
  closed : ∀ fd s, ok s → ok (B.closed fd s) ∧
    reg (B.closed fd s) = if drops then Function.update (reg s) fd none else reg s

/-- What a slot with this mask is registered with. -/
def entry (mask : Mask) (i : ℕ) : Option (Mask × ℕ) := if mask = .none then none else some (mask, i)

variable (R : Registry B)

/-- `_subscribe` keeps the registration of a descriptor equal to the mask. -/
theorem Subscribe.registers {r : ℤ} {old new mask : Mask}
    (h : Subscribe B i fd old new np r mask np' evs) (hok : R.ok np)
    (hreg : R.reg np fd = entry old i) :
    R.ok np' ∧ R.reg np' = Function.update (R.reg np) fd (entry mask i) := by
  -- which of the three poller calls is made depends on the two masks
  have hcalls : ∀ {r : ℤ} {np' : σ}, new ≠ old → B.Calls i fd old new np r np' →
      R.ok np' ∧ R.reg np' =
        if r = 0 then Function.update (R.reg np) fd (entry new i) else R.reg np := by
    rintro r np' hne ⟨o, o', hcall⟩
    split at hcall
    · next hnew =>
      have := Prog.wp_ok (R.del fd (np, o) hok) hcall
      rwa [entry, if_pos hnew]
    · next hnew =>
      rw [entry, if_neg hnew]
      split at hcall
      · next hold =>
        rw [entry, if_pos hold] at hreg
        have := Prog.wp_ok (R.add fd new i (np, o) hok hreg hnew) hcall
        exact this
      · next hold =>
        rw [entry, if_neg hold] at hreg
        have := Prog.wp_ok (R.mod fd old new i (np, o) hok hreg hnew) hcall
        exact this
  cases h with
  | same => exact ⟨hok, by rw [← hreg, Function.update_eq_self]⟩
  | done h hc => exact hcalls h hc
  | failed h hr hc =>
    obtain ⟨hok', hreg'⟩ := hcalls h hc
    rw [if_neg hr] at hreg'
    exact ⟨hok', by rw [hreg', ← hreg, Function.update_eq_self]⟩

/-- A step keeps the registration of a connection equal to its mask. -/
theorem ConnStep.registers (h : ConnStep B op v i c np c' np' evs) (hok : R.ok np)
    (hreg : R.reg np c.fd = entry c.mask i) :
    c'.fd = c.fd ∧ R.ok np' ∧ R.reg np' = Function.update (R.reg np) c.fd (entry c'.mask i) := by
  obtain ⟨hfd, _, _, _, hs⟩ := h.subscribes
  exact ⟨hfd, hs.registers R hok hreg⟩

/-- What comes before the end of a connection leaves the registration to its mask. -/
theorem Closing.registers (h : Closing B op v i c np c' np' evs) (hok : R.ok np)
    (hreg : R.reg np c.fd = entry c.mask i) :
    c'.fd = c.fd ∧ R.ok np' ∧ R.reg np' = Function.update (R.reg np) c.fd (entry c'.mask i) := by
  obtain ⟨hfd, _, _, _, hs⟩ := h.subscribes
  exact ⟨hfd, hs.registers R hok hreg⟩

/-- So does what comes after a connection is opened. -/
theorem Opening.Makes.registers (h : Opening.Makes B op i c np c' np' evs) (hok : R.ok np)
    (hm : c.mask = .none) (hreg : R.reg np c.fd = none) :
    c'.fd = c.fd ∧ R.ok np' ∧ R.reg np' = Function.update (R.reg np) c.fd (entry c'.mask i) := by
  obtain ⟨hfd, _, _, _, hs⟩ := h.subscribes hm
  exact ⟨hfd, hs.registers R hok (hreg.trans (if_pos rfl : entry .none i = none).symm)⟩

/-! ## Descriptors -/

/-- Whether a slot has the descriptor. -/
def inUse (fd : ℤ) : List Ev → Bool
  | [] => false
  | .opened _ d _ :: log => d = fd || inUse fd log
  | .closed _ d _ :: log => d ≠ fd && inUse fd log
  | _ :: log => inUse fd log

/-- Only opening and closing decide whether a descriptor is in use. -/
theorem inUse_ignores (fd : ℤ) : Ignores (inUse fd) Ev.Steady := by
  intro e log he
  cases e <;> first | rfl | exact he.elim

/-- A descriptor that is opened, or given to a slot, is none that a slot has. -/
def Ev.Distinct : Ev → List Ev → Prop
  | .opened _ fd _, past => inUse fd past = false
  | .acquired fd, past => inUse fd past = false
  | _, _ => True

instance (e : Ev) (past : List Ev) : Decidable (e.Distinct past) := by
  cases e <;> unfold Ev.Distinct <;> infer_instance

/-- A slot is closed without a registration, or by closing a descriptor that is then forgotten. -/
def Ev.Forgotten (drops : Bool) : Ev → Prop
  | .closed _ fd mask => mask = .none ∨ (drops = true ∧ STDERR_FILENO < fd)
  | _ => True

instance (drops : Bool) : DecidablePred (Ev.Forgotten drops) := fun e => by
  cases e <;> unfold Ev.Forgotten <;> infer_instance

/-- The poller has registered the slots in use, with their masks. -/
structure Coherent (a : Abs σ) : Prop where
  ok : R.ok a.np
  distinct : ∀ i j c d, a.slot i = some c → a.slot j = some d → c.fd = d.fd → i = j
  used : ∀ fd, inUse fd a.log = true ↔ ∃ i c, a.slot i = some c ∧ c.fd = fd
  live : ∀ i c, a.slot i = some c → R.reg a.np c.fd = entry c.mask i
  dead : ∀ fd, (∀ i c, a.slot i = some c → c.fd ≠ fd) → R.reg a.np fd = none

namespace Coherent

variable {R}

/-- What leaves the slots and the poller alone. -/
theorem keep (h : Coherent R a) (evs : List Ev) (hslot : a'.slot = a.slot)
    (hlog : a'.log = evs ++ a.log) (hevs : ∀ e ∈ evs, e.Steady ∨ e = .refused)
    (hok : R.ok a'.np) (hreg : R.reg a'.np = R.reg a.np) : Coherent R a' where
  ok := hok
  distinct := hslot ▸ h.distinct
  used fd := by
    have hused : inUse fd (evs ++ a.log) = inUse fd a.log := by
      refine Ignores.append (p := fun e => e.Steady ∨ e = .refused) (fun e log he => ?_) hevs
      rcases he with he | rfl
      · exact inUse_ignores fd e log he
      · rfl
    rw [hslot, hlog, hused]
    exact h.used fd
  live := by
    rw [hslot, hreg]
    exact h.live
  dead := by
    rw [hslot, hreg]
    exact h.dead

/-- A free descriptor is not registered. -/
theorem reg_none (h : Coherent R a) (hfd : inUse fd a.log = false) : R.reg a.np fd = none := by
  refine h.dead fd fun i c hc hcfd => ?_
  rw [(h.used fd).mpr ⟨i, c, hc, hcfd⟩] at hfd
  cases hfd

/-- A connection that changes its interest, and its registration with it. -/
theorem put (h : Coherent R a) (hc : a.slot i = some c) (hfd : c'.fd = c.fd)
    (hevs : ∀ e ∈ evs, e.Steady) (hok : R.ok np')
    (hreg : R.reg np' = Function.update (R.reg a.np) c.fd (entry c'.mask i)) :
    Coherent R (a.put i c' np' evs) := by
  -- each slot keeps its descriptor, and only slot `i` may get another mask
  have hslot : ∀ j d, (a.put i c' np' evs).slot j = some d →
      ∃ d', a.slot j = some d' ∧ d'.fd = d.fd ∧ (j = i ∧ d = c' ∨ j ≠ i ∧ d = d') := by
    intro j d hd
    by_cases hj : j = i
    · subst hj
      obtain rfl := Option.some.inj ((Abs.put_slot_self ..).symm.trans hd)
      exact ⟨c, hc, hfd.symm, .inl ⟨rfl, rfl⟩⟩
    · exact ⟨d, (Function.update_of_ne hj ..).symm.trans hd, rfl, .inr ⟨hj, rfl⟩⟩
  refine ⟨hok, fun j k d e hd he hde => ?_, fun fd => ?_, fun j d hd => ?_, fun fd hno => ?_⟩
  · obtain ⟨d', hd', hdfd, -⟩ := hslot j d hd
    obtain ⟨e', he', hefd, -⟩ := hslot k e he
    exact h.distinct j k d' e' hd' he' (hdfd.trans (hde.trans hefd.symm))
  · show inUse fd (evs ++ a.log) = true ↔ _
    rw [(inUse_ignores fd).append hevs, h.used fd]
    constructor
    · rintro ⟨j, d, hd, hdfd⟩
      by_cases hj : j = i
      · subst hj
        obtain rfl := Option.some.inj (hc.symm.trans hd)
        exact ⟨j, c', Abs.put_slot_self .., hfd.trans hdfd⟩
      · exact ⟨j, d, (Function.update_of_ne hj ..).trans hd, hdfd⟩
    · rintro ⟨j, d, hd, hdfd⟩
      obtain ⟨d', hd', hdfd', -⟩ := hslot j d hd
      exact ⟨j, d', hd', hdfd'.trans hdfd⟩
  · show R.reg np' d.fd = _
    obtain ⟨d', hd', hdfd, ⟨rfl, rfl⟩ | ⟨hj, rfl⟩⟩ := hslot j d hd
    · rw [hreg, hfd, Function.update_self]
    · have hne : d.fd ≠ c.fd := fun hfd' => hj (h.distinct j i d c hd' hc hfd')
      rw [hreg, Function.update_of_ne hne]
      exact h.live j d hd'
  · show R.reg np' fd = none
    have hne : fd ≠ c.fd := fun heq => hno i c' (Abs.put_slot_self ..) (hfd.trans heq.symm)
    rw [hreg, Function.update_of_ne hne]
    refine h.dead fd fun j d hd => ?_
    by_cases hj : j = i
    · subst hj
      obtain rfl := Option.some.inj (hc.symm.trans hd)
      exact hne.symm
    · exact hno j d ((Function.update_of_ne hj ..).trans hd)

/-- What a close leaves registered. -/
theorem close_reg (h : Coherent R a) (hc : a.slot i = some c)
    (hforget : c.mask = .none ∨ (R.drops = true ∧ STDERR_FILENO < c.fd)) :
    R.ok (a.close i B c).np ∧
      R.reg (a.close i B c).np = Function.update (R.reg a.np) c.fd none := by
  have hsame : c.mask = .none → Function.update (R.reg a.np) c.fd none = R.reg a.np := by
    intro hm
    have := h.live i c hc
    rw [hm, entry, if_pos rfl] at this
    rw [← this, Function.update_eq_self]
  unfold Abs.close
  split
  · obtain ⟨hok, hreg⟩ := R.closed c.fd a.np h.ok
    refine ⟨hok, hreg.trans ?_⟩
    split
    · rfl
    · next hdrops => exact (hsame (hforget.resolve_right fun h => hdrops h.1)).symm
  · next hstd => exact ⟨h.ok, (hsame (hforget.resolve_right fun h => hstd h.2)).symm⟩

/-- A connection is closed whose registration is gone, or goes with its descriptor. -/
theorem close (h : Coherent R a) (hc : a.slot i = some c)
    (hforget : c.mask = .none ∨ (R.drops = true ∧ STDERR_FILENO < c.fd)) :
    Coherent R (a.close i B c) := by
  obtain ⟨hok, hreg⟩ := h.close_reg hc hforget
  have hslot : ∀ j d, (a.close i B c).slot j = some d → j ≠ i ∧ a.slot j = some d := by
    intro j d hd
    rw [Abs.close_slot] at hd
    by_cases hj : j = i
    · subst hj
      cases (Function.update_self ..).symm.trans hd
    · exact ⟨hj, (Function.update_of_ne hj ..).symm.trans hd⟩
  -- the descriptor that is forgotten is no other slot's
  have hne : ∀ j d, (a.close i B c).slot j = some d → d.fd ≠ c.fd := by
    intro j d hd hfd
    obtain ⟨hj, hd'⟩ := hslot j d hd
    exact hj (h.distinct j i d c hd' hc hfd)
  refine ⟨hok, fun j k d e hd he => ?_, fun fd => ?_, fun j d hd => ?_, fun fd hno => ?_⟩
  · exact h.distinct j k d e (hslot j d hd).2 (hslot k e he).2
  · rw [Abs.close_log, (inUse_ignores fd).append closeEvs_steady]
    show (decide (c.fd ≠ fd) && inUse fd a.log) = true ↔ _
    rw [Bool.and_eq_true, decide_eq_true_iff, h.used fd]
    constructor
    · rintro ⟨hcfd, j, d, hd, rfl⟩
      have hj : j ≠ i := by
        rintro rfl
        exact hcfd (congrArg Conn.fd (Option.some.inj (hc.symm.trans hd)))
      exact ⟨j, d, by rw [Abs.close_slot, Function.update_of_ne hj, hd], rfl⟩
    · rintro ⟨j, d, hd, rfl⟩
      exact ⟨(hne j d hd).symm, j, d, (hslot j d hd).2, rfl⟩
  · rw [hreg, Function.update_of_ne (hne j d hd)]
    exact h.live j d (hslot j d hd).2
  · rw [hreg]
    by_cases hfd : fd = c.fd
    · rw [hfd, Function.update_self]
    · rw [Function.update_of_ne hfd]
      refine h.dead fd fun j d hd => ?_
      by_cases hj : j = i
      · subst hj
        obtain rfl := Option.some.inj (hc.symm.trans hd)
        exact fun h' => hfd h'.symm
      · exact hno j d (by rw [Abs.close_slot, Function.update_of_ne hj, hd])

/-- A connection for a descriptor that is in use nowhere else. -/
theorem create (h : Coherent R a) {rest : List ℕ} (hn : a.slot i = none) (hm : c.mask = .none)
    (hfd : inUse c.fd a.log = false) : Coherent R (a.create i rest c) := by
  have hslot : ∀ j d, (a.create i rest c).slot j = some d →
      j = i ∧ d = c ∨ j ≠ i ∧ a.slot j = some d := by
    intro j d hd
    by_cases hj : j = i
    · subst hj
      exact .inl ⟨rfl, Option.some.inj (hd.symm.trans (Function.update_self ..))⟩
    · exact .inr ⟨hj, (Function.update_of_ne hj ..).symm.trans hd⟩
  have hfree : ∀ j d, a.slot j = some d → d.fd ≠ c.fd := by
    intro j d hd hdfd
    rw [(h.used c.fd).mpr ⟨j, d, hd, hdfd⟩] at hfd
    cases hfd
  refine ⟨h.ok, fun j k d e hd he hde => ?_, fun fd => ?_, fun j d hd => ?_, fun fd hno => ?_⟩
  · rcases hslot j d hd with ⟨hj, rfl⟩ | ⟨-, hd'⟩ <;> rcases hslot k e he with ⟨hk, rfl⟩ | ⟨-, he'⟩
    · exact hj.trans hk.symm
    · exact absurd hde.symm (hfree k e he')
    · exact absurd hde (hfree j d hd')
    · exact h.distinct j k d e hd' he' hde
  · show (decide (c.fd = fd) || inUse fd a.log) = true ↔ _
    rw [Bool.or_eq_true, decide_eq_true_iff, h.used fd]
    constructor
    · rintro (rfl | ⟨j, d, hd, rfl⟩)
      · exact ⟨i, c, Function.update_self .., rfl⟩
      · have hj : j ≠ i := (Abs.ne_of_slot hn hd).symm
        exact ⟨j, d, (Function.update_of_ne hj ..).trans hd, rfl⟩
    · rintro ⟨j, d, hd, rfl⟩
      rcases hslot j d hd with ⟨-, rfl⟩ | ⟨-, hd⟩
      · exact .inl rfl
      · exact .inr ⟨j, d, hd, rfl⟩
  · rcases hslot j d hd with ⟨rfl, rfl⟩ | ⟨-, hd⟩
    · rw [hm, entry, if_pos rfl]
      exact h.reg_none hfd
    · exact h.live j d hd
  · refine h.dead fd fun j d hd => ?_
    have hj : j ≠ i := (Abs.ne_of_slot hn hd).symm
    exact hno j d ((Function.update_of_ne hj ..).trans hd)

/-- A descriptor that is closed before it was given to a slot is not registered. -/
theorem drop (h : Coherent R a) (hloose : Loose fd a.log) (hlog : History Ev.Distinct a.log) :
    Coherent R (a.closeFd B fd) := by
  obtain ⟨evs, past, heq, hevs⟩ := hloose
  have hused : inUse fd a.log = inUse fd past := by
    rw [heq]
    refine (Ignores.append (p := fun e => e.Note ∨ e = .refused) (fun e log he => ?_) hevs).trans rfl
    rcases he with he | rfl
    · exact inUse_ignores fd e log he.steady
    · rfl
  rw [heq] at hlog
  have hreg := h.reg_none (hused.trans hlog.at_event)
  obtain ⟨hok, hclosed⟩ := R.closed fd a.np h.ok
  refine h.keep [.released fd] rfl rfl (by simp [Ev.Steady]) hok (hclosed.trans ?_)
  split
  · rw [← hreg, Function.update_eq_self]
  · rfl

/-- The hypothesis about a change is about the events that it adds. -/
theorem change (h : Coherent R a) (hch : Change B op v a a') (hlog : History Ev.Distinct a'.log)
    (hforget : ∀ e ∈ a'.log, e.Forgotten R.drops) : Coherent R a' := by
  cases hch with
  | err => exact h.keep [] rfl rfl (by simp) h.ok rfl
  | @note e he _ => exact h.keep [e] rfl rfl (by simpa using .inl he.steady) h.ok rfl
  | raised => exact h.keep [_] rfl rfl (by simp [Ev.Steady]) h.ok rfl
  | refused => exact h.keep [_] rfl rfl (by simp) h.ok rfl
  | destroyed => exact h.keep [_] rfl rfl (by simp [Ev.Steady]) h.ok rfl
  | polled _ hp =>
    have := Prog.wp_ok (R.poll a.max _ (a.np, _) h.ok) hp
    exact h.keep [] rfl rfl (by simp) this.1 this.2
  | drop hloose => exact h.drop hloose hlog.2
  | conn hc hs =>
    obtain ⟨hfd, hok, hreg⟩ := hs.registers R h.ok (h.live _ _ hc)
    exact h.put hc hfd (fun e he => (hs.about e he).steady) hok hreg
  | close hc hs =>
    obtain ⟨hfd, hok, hreg⟩ := hs.registers R h.ok (h.live _ _ hc)
    refine (h.put hc hfd (fun e he => (hs.about e he).steady) hok hreg).close (Abs.put_slot_self ..) ?_
    -- the condition on the log is asked of this very close
    rw [Abs.close_log] at hforget
    exact hforget _ (List.mem_append_right _ List.mem_cons_self)
  | @opened i rest fd slimit udata protocol rlimit c np evs _ _ _ hn hm =>
    have hfd : inUse fd a.log = false := (History.of_append hlog).1
    have hopen : Coherent R (a.create i rest (newConn fd slimit udata protocol rlimit)) :=
      h.create hn rfl hfd
    have hslot := Function.update_self i (some (newConn fd slimit udata protocol rlimit)) a.slot
    obtain ⟨hcfd, hok, hreg⟩ := hm.registers R h.ok rfl (h.reg_none hfd)
    exact hopen.put hslot hcfd (fun e he => (hm.events_local e he).steady) hok hreg
  | @bounced i rest fd slimit udata protocol rlimit r mask new np evs _ _ _ hn hs hr =>
    rw [Abs.close_log] at hlog
    have hfd : inUse fd a.log = false := (History.of_append (History.of_append hlog).2).1
    have hopen : Coherent R (a.create i rest (newConn fd slimit udata protocol rlimit)) :=
      h.create hn rfl hfd
    have hslot := Function.update_self i (some (newConn fd slimit udata protocol rlimit)) a.slot
    have hnone : entry .none i = none := if_pos rfl
    -- the registration was not made, so closing has nothing to take back
    have hmask : mask = .none := by
      cases hs with
      | same => rfl
      | done hne =>
        rcases hr with hr | hr
        · exact absurd hr hne
        · exact absurd rfl hr
      | failed => rfl
    obtain ⟨hok, hreg⟩ := hs.registers R h.ok ((h.reg_none hfd).trans hnone.symm)
    rw [hmask] at hreg
    exact (hopen.put hslot rfl (fun e he => (hs.events_local e he).steady) hok hreg).close
      (Abs.put_slot_self ..) (.inl rfl)

end Coherent

/-- In every such run, the poller holds the masks of the slots and nothing else. -/
theorem reach_coherent (h : (changes B).Reach a) (hlog : History Ev.Distinct a.log)
    (hforget : ∀ e ∈ a.log, e.Forgotten R.drops) : Coherent R a := by
  refine h.invariant (I := fun a => History Ev.Distinct a.log →
    (∀ e ∈ a.log, e.Forgotten R.drops) → Coherent R a) ?_ (fun a l a' _ ih hs hlog hforget => ?_)
    hlog hforget
  · rintro _ ⟨max, -, rfl⟩ - -
    have hnone : ∀ {P : Prop} {i c}, (Abs.initial B max).slot i = some c → P := fun hc =>
      absurd hc.symm (Option.some_ne_none _)
    refine ⟨(R.init max).1, fun _ _ _ _ hc => hnone hc, fun fd => ?_, fun _ _ hc => hnone hc,
      fun fd _ => (R.init max).2 fd⟩
    exact iff_of_false (by simp [Abs.initial, inUse]) fun ⟨_, _, hc, _⟩ => hnone hc
  · obtain ⟨evs, hevs⟩ := hs.log_suffix
    rw [← hevs] at hlog
    exact (ih hlog.of_append fun e he => hforget e (hs.log_suffix.mem he)).change hs (hevs ▸ hlog) hforget

/-! ## The two pollers -/

/-- The interest list of the kernel. -/
def epollRegistry : Registry epoll where
  reg tbl := tbl
  ok _ := True
  drops := true
  init _ := ⟨trivial, fun _ => rfl⟩
  add fd mask ud s _ _ _ := by
    show Prog.wp (Epoll.npAdd fd mask ud) _ _ s
    exact Epoll.wp_ctl (fun _ => ⟨trivial, rfl⟩) fun _ _ => ⟨trivial, rfl⟩
  mod fd old mask ud s _ _ _ := by
    show Prog.wp (Epoll.npMod fd mask ud) _ _ s
    exact Epoll.wp_ctl (fun _ => ⟨trivial, rfl⟩) fun _ _ => ⟨trivial, rfl⟩
  del fd s _ := by
    show Prog.wp (Epoll.npDel fd) _ _ s
    exact Epoll.wp_ctl (fun _ => ⟨trivial, rfl⟩) fun _ _ => ⟨trivial, rfl⟩
  poll max timeout s _ :=
    Prog.wp_mono (Epoll.wp_npPoll max timeout s) fun _ _ h => ⟨trivial, h.1⟩
  closed _ _ _ := ⟨trivial, rfl⟩

/-- The sets of descriptors, and the array. -/
def selectRegistry : Registry select where
  reg := Select.reg
  ok := Select.Tidy
  drops := false
  init max := ⟨.npInit max, fun _ => rfl⟩
  add fd mask ud s hok hreg hm := by
    show Prog.wp (Select.npAdd fd mask ud) _ _ s
    exact Select.wp_change ⟨hok, rfl⟩ fun _ => hok.add hreg hm
  mod fd old mask ud s hok hreg hm := by
    show Prog.wp (Select.npMod fd mask ud) _ _ s
    exact Select.wp_change ⟨hok, rfl⟩ fun _ => hok.modify hreg hm
  del fd s hok := Select.wp_npDel ⟨hok, rfl⟩ fun _ => hok.remove
  poll max timeout s hok :=
    Prog.wp_mono (Select.wp_npPoll max timeout) fun _ _ h => ⟨h.1 ▸ hok, congrArg Select.reg h.1⟩
  closed _ _ hok := ⟨hok, rfl⟩

/-! ## Runs -/

/-- The poller has registered a descriptor with a mask and a slot exactly if the slot is in use, and
these are its descriptor and its mask, which is not zero. -/
def Registered (R : Registry B) (w : World σ) : Prop :=
  ∀ fd mask i, R.reg w.np fd = some (mask, i) ↔
    w.Live i ∧ (w.net.sockets i).fd = fd ∧ (w.net.sockets i).mask = mask ∧ mask ≠ .none

/-- The same in the terms of the world. -/
theorem registered_of_forgotten (h : (net B).Reach w) (hlog : History Ev.Distinct w.log)
    (hforget : ∀ e ∈ w.log, e.Forgotten R.drops) : Registered R w := by
  have h : Coherent R w.abs := reach_coherent R (reach_abs h).2 hlog hforget
  intro fd mask i
  constructor
  · intro hreg
    by_cases hno : ∀ j c, w.abs.slot j = some c → c.fd ≠ fd
    · exact absurd ((h.dead fd hno).symm.trans hreg) (by simp)
    · simp only [not_forall, not_not] at hno
      obtain ⟨j, c, hc, rfl⟩ := hno
      have hentry := (h.live j c hc).symm.trans hreg
      unfold entry at hentry
      split at hentry
      · cases hentry
      · next hm =>
        obtain ⟨rfl, rfl⟩ := Prod.mk.inj (Option.some.inj hentry)
        by_cases hl : w.Live j
        · obtain rfl := Option.some.inj ((if_pos hl).symm.trans hc)
          exact ⟨hl, rfl, rfl, hm⟩
        · cases (if_neg hl).symm.trans hc
  · rintro ⟨hl, rfl, rfl, hm⟩
    exact (h.live i _ (if_pos hl)).trans (if_neg hm)

/-- In a run in which no descriptor is bound twice and every slot is closed without a registration,
or on epoll with a descriptor that is not a standard stream, the registrations are those of the
slots. -/
theorem registered_epoll_select (w : World Epoll) (w' : World Select) :
    ((net epoll).Reach w → History Ev.Distinct w.log → (∀ e ∈ w.log, e.Forgotten true) →
      Registered epollRegistry w) ∧
    ((net select).Reach w' → History Ev.Distinct w'.log → (∀ e ∈ w'.log, e.Forgotten false) →
      Registered selectRegistry w') :=
  ⟨fun h hlog hforget => registered_of_forgotten epollRegistry h hlog hforget,
    fun h hlog hforget => registered_of_forgotten selectRegistry h hlog hforget⟩

/-- A descriptor is registered for reading, and its slot is closed. -/
def forgetEpoll : List (Op × List Reply) :=
  [(.bind 5 0 0, [{}, {}]), (.enableread 0 true, [{ ret := 0 }]), (.close 0 true, [])]

/-- The same, deregistered before. -/
def forgetSelect : List (Op × List Reply) :=
  [(.bind 5 0 0, [{}, {}]), (.enableread 0 true, []), (.enableread 0 false, []), (.close 0 true, [])]

theorem registered_epoll_select_forget :
    Registered epollRegistry ((fresh epoll 1).after epoll forgetEpoll) ∧
      Registered selectRegistry ((fresh select 1).after select forgetSelect) :=
  ⟨(registered_epoll_select _ (fresh select 1)).1 (reach_fresh (by decide +kernel)) (by decide +kernel)
      (by decide +kernel),
    (registered_epoll_select (fresh epoll 1) _).2 (reach_fresh (by decide +kernel)) (by decide +kernel)
      (by decide +kernel)⟩

/-- A slot on the standard input is closed. -/
def stdinCalls : List (Op × List Reply) :=
  [(.bind 0 0 0, [{}, {}]), (.enableread 0 true, [{ ret := 0 }]), (.close 0 true, [])]

/-- On epoll the standard input, on select any descriptor stays registered with a slot that is
free. -/
theorem registered_stale :
    (∃ w, (net epoll).Reach w ∧ History Ev.Distinct w.log ∧ ¬ Registered epollRegistry w) ∧
      ∃ w, (net select).Reach w ∧ History Ev.Distinct w.log ∧ ¬ Registered selectRegistry w := by
  refine ⟨⟨(fresh epoll 1).after epoll stdinCalls, reach_fresh (by decide), by decide, fun h => ?_⟩,
    ⟨(fresh select 1).after select forgetEpoll, reach_fresh (by decide), by decide, fun h => ?_⟩⟩
  · have hreg : epollRegistry.reg ((fresh epoll 1).after epoll stdinCalls).np 0
        = some (⟨true, false⟩, 0) := by decide
    exact absurd ((h _ _ _).mp hreg).1 (by decide)
  · have hreg : selectRegistry.reg ((fresh select 1).after select forgetEpoll).np 5
        = some (⟨true, false⟩, 0) := by decide
    exact absurd ((h _ _ _).mp hreg).1 (by decide)

end Lsocket
