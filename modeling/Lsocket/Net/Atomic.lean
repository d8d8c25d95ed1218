import Lsocket.Net.Epoll
import Lsocket.Net.Expect
import Lsocket.Net.Run

/-!
# Opening is all or nothing

A call that opens a connection should leave everything as it was if it fails, and add one slot with one
descriptor if not. It does so on most paths. Some leave the function without freeing the address list,
one of them without closing the descriptor either; a descriptor that happens to be one of the standard
streams is not closed with its slot; and a `socket_bind` that fails closes the descriptor of its caller.
`Leaks` names these cases, and `atomic_iff` shows that there are no others.
-/

namespace Lsocket

variable {σ : Type} {B : Backend σ} {w w' : World σ} {a a₀ a' : Abs σ} {i : ℕ} {c c₀ : Conn}
variable {rs : List Reply} {log log' : List Ev} {fd : ℤ} {n got freed : ℕ} {held : Option ℤ}

/-! ## Calls that open -/

/-- The calls that open a connection. -/
inductive Opener
  | listen (udata : ℤ)
  | connect (block : Bool) (udata : ℤ)
  | bind (fd udata protocol : ℤ)
  | accept (lis : ℕ)

/-- The slot that a call returns, if it does not fail. -/
def idOf (v : ℤ) : Option ℕ := if v = -1 then none else some v.toNat

namespace Opener

/-- The function called. -/
def call (B : Backend σ) : Opener → NetM σ (Option ℕ)
  | .listen udata => idOf <$> socketListen B udata
  | .connect block udata => idOf <$> socketConnect B block udata
  | .bind fd udata protocol => idOf <$> socketBind B fd udata protocol
  | .accept lis => Lsocket.accept B lis

/-- What the caller owes. -/
def Allowed (a : Abs σ) : Opener → Prop
  | .bind fd _ _ => 0 ≤ fd
  | .accept lis => ∃ c, a.slot lis = some c ∧ c.status = .listening
  | _ => True

/-- The descriptor that the caller supplies. -/
def given : Opener → Option ℤ
  | .bind fd _ _ => some fd
  | _ => none

end Opener

/-- How often the descriptor was opened, less how often it was closed. -/
def openCount (fd : ℤ) (log : List Ev) : ℤ := log.count (.acquired fd) - log.count (.released fd)

/-- The slots in use. -/
def Abs.live (a : Abs σ) : Set ℕ := {i | a.slot i ≠ none}

/-- The connection holds the descriptor of the caller and no other was opened, or it holds the only
one that was. -/
def Opener.Holds (o : Opener) (c : Conn) (log log' : List Ev) : Prop :=
  match o.given with
  | some fd => c.fd = fd ∧ ∀ d, openCount d log' = openCount d log
  | none => ∀ d, openCount d log' = openCount d log + if d = c.fd then 1 else 0

/-- A call that opens a connection does all of it or nothing, and it frees the address list that it
gets, once. -/
structure Atomic (o : Opener) (a : Abs σ) (r : Option ℕ) (a' : Abs σ) : Prop where
  failed : r = none → a'.live = a.live ∧ ∀ d, openCount d a'.log = openCount d a.log
  opened : ∀ i, r = some i → i ∉ a.live ∧ a'.live = insert i a.live ∧
    ∃ c, a'.slot i = some c ∧ o.Holds c a.log a'.log
  lists : ∃ n ≤ 1, a'.log.count .gotAddrinfo = a.log.count .gotAddrinfo + n ∧
    a'.log.count .freedAddrinfo = a.log.count .freedAddrinfo + n

/-- The answers with which a call loses a descriptor or an address list, or closes what is not its
own. -/
inductive Leaks (B : Backend σ) (a : Abs σ) : Opener → List Reply → Prop
  /-- The loop over the addresses returns from the function. -/
  | listenAbandoned {udata : ℤ} {r : Reply} {rs rs' : List Reply} (hr : r.ret = 0)
      (h : Expect.listen r.count rs = some (.abandoned, rs')) : Leaks B a (.listen udata) (r :: rs)
  | connectAbandoned {block : Bool} {udata : ℤ} {r : Reply} {rs rs' : List Reply} (hr : r.ret = 0)
      (h : Expect.connect block r.count rs = some (.abandoned, rs')) :
      Leaks B a (.connect block udata) (r :: rs)
  /-- A standard stream is opened, and the poller refuses it. -/
  | listenStd {udata fd : ℤ} {status : Status} {r x : Reply} {rs rs' : List Reply} {i : ℕ}
      {rest : List ℕ} (hr : r.ret = 0)
      (h : Expect.listen r.count rs = some (.opened fd status, x :: rs')) (hx : x.ret ≠ -1)
      (hfd : fd ≤ STDERR_FILENO) (hf : a.free = i :: rest) (hB : Refuses B fd ⟨true, false⟩ i rs') :
      Leaks B a (.listen udata) (r :: rs)
  | connectStd {block : Bool} {udata fd : ℤ} {r : Reply} {rs rs' : List Reply} {i : ℕ}
      {rest : List ℕ} (hr : r.ret = 0)
      (h : Expect.connect block r.count rs = some (.opened fd .connecting, rs'))
      (hfd : fd ≤ STDERR_FILENO) (hf : a.free = i :: rest) (hB : Refuses B fd ⟨true, true⟩ i rs') :
      Leaks B a (.connect block udata) (r :: rs)
  /-- The flags of a standard stream cannot be set. -/
  | accept {lis : ℕ} {r x : Reply} {rs rs' : List Reply} (hr : 0 ≤ r.ret)
      (hfd : r.ret ≤ STDERR_FILENO) (hf : a.free ≠ []) (h : Expect.flags rs = some (-1, rs')) :
      Leaks B a (.accept lis) (r :: x :: rs)
  /-- The flags of the descriptor of the caller cannot be set. -/
  | bind {fd udata protocol : ℤ} {rs rs' : List Reply} (hfd : STDERR_FILENO < fd) (hf : a.free ≠ [])
      (h : Expect.flags rs = some (-1, rs')) : Leaks B a (.bind fd udata protocol) rs

/-! ## Accounts -/

/-- From one log to the next, the descriptors opened are closed again, but for `held`; address lists
are obtained and freed. -/
structure Tally (log log' : List Ev) (held : Option ℤ) (got freed : ℕ) : Prop where
  fds : ∀ d, openCount d log' = openCount d log + if held = some d then 1 else 0
  got : log'.count .gotAddrinfo = log.count .gotAddrinfo + got
  freed : log'.count .freedAddrinfo = log.count .freedAddrinfo + freed

/-- An event that counts in none of the accounts. -/
def Ev.Idle : Ev → Prop
  | .acquired _ | .released _ | .gotAddrinfo | .freedAddrinfo => False
  | _ => True

namespace Tally

theorem refl (log : List Ev) : Tally log log none 0 0 :=
  ⟨fun _ => (Int.add_zero _).symm, rfl, rfl⟩

/-- A descriptor is opened, and held. -/
theorem acquired (h : Tally log log' none got freed) (fd : ℤ) :
    Tally log (.acquired fd :: log') (some fd) got freed := by
  refine ⟨fun d => ?_, by simpa using h.got, by simpa using h.freed⟩
  have hd := h.fds d
  simp only [openCount, List.count_cons, beq_iff_eq, Ev.acquired.injEq, reduceCtorEq, if_false,
    Option.some.injEq] at hd ⊢
  split <;> omega

/-- The one that was held is closed. -/
theorem released (h : Tally log log' (some fd) got freed) :
    Tally log (.released fd :: log') none got freed := by
  refine ⟨fun d => ?_, by simpa using h.got, by simpa using h.freed⟩
  have hd := h.fds d
  simp only [openCount, List.count_cons, beq_iff_eq, Ev.released.injEq, reduceCtorEq, if_false,
    Option.some.injEq] at hd ⊢
  split at hd <;> simp_all
  omega

/-- An address list is obtained. -/
theorem gotList (h : Tally log log' held got freed) :
    Tally log (.gotAddrinfo :: log') held (got + 1) freed :=
  ⟨by simpa [openCount] using h.fds, by simp [h.got, Nat.add_assoc], by simpa using h.freed⟩

/-- One is freed. -/
theorem freedList (h : Tally log log' held got freed) :
    Tally log (.freedAddrinfo :: log') held got (freed + 1) :=
  ⟨by simpa [openCount] using h.fds, by simpa using h.got, by simp [h.freed, Nat.add_assoc]⟩

/-- An event that does not count changes none of the accounts. -/
theorem idle {e : Ev} (h : Tally log log' held got freed) (he : e.Idle) :
    Tally log (e :: log') held got freed := by
  have hne : ∀ e', ¬ e'.Idle → e ≠ e' := fun e' he' heq => he' (heq ▸ he)
  have hcount : ∀ e', ¬ e'.Idle → (e :: log').count e' = log'.count e' := fun e' he' =>
    List.count_cons_of_ne (hne e' he')
  refine ⟨fun d => ?_, (hcount _ id).trans h.got, (hcount _ id).trans h.freed⟩
  rw [openCount, hcount _ id, hcount _ id]
  exact h.fds d

/-- So do any number of them. -/
theorem idles {evs : List Ev} (h : Tally log log' held got freed) (hevs : ∀ e ∈ evs, e.Idle) :
    Tally log (evs ++ log') held got freed := by
  induction evs with
  | nil => exact h
  | cons e evs ih =>
    exact (ih fun e he => hevs e (List.mem_cons_of_mem _ he)).idle (hevs e List.mem_cons_self)

end Tally

/-- No slot has changed since `a₀`, and this is how the accounts stand. -/
structure Trying (a₀ a : Abs σ) (held : Option ℤ) (got freed : ℕ) : Prop where
  slot : a.slot = a₀.slot
  free : a.free = a₀.free
  tally : Tally a₀.log a.log held got freed

namespace Trying

theorem refl (a : Abs σ) : Trying a a none 0 0 := ⟨rfl, rfl, .refl _⟩

theorem setErr (h : Trying a₀ a held got freed) (err : ℤ) : Trying a₀ (a.setErr err) held got freed :=
  ⟨h.slot, h.free, h.tally⟩

theorem acquired (h : Trying a₀ a none got freed) (fd : ℤ) :
    Trying a₀ (a.emit (.acquired fd)) (some fd) got freed :=
  ⟨h.slot, h.free, h.tally.acquired fd⟩

theorem closeFd (h : Trying a₀ a (some fd) got freed) : Trying a₀ (a.closeFd B fd) none got freed :=
  ⟨h.slot, h.free, h.tally.released⟩

theorem refused (h : Trying a₀ a held got freed) : Trying a₀ (a.emit .refused) held got freed :=
  ⟨h.slot, h.free, h.tally.idle trivial⟩

theorem gotList (h : Trying a₀ a held got freed) : Trying a₀ (a.emit .gotAddrinfo) held (got + 1) freed :=
  ⟨h.slot, h.free, h.tally.gotList⟩

theorem freedList (h : Trying a₀ a held got freed) :
    Trying a₀ (a.emit .freedAddrinfo) held got (freed + 1) :=
  ⟨h.slot, h.free, h.tally.freedList⟩

end Trying

/-! ## The loops over addresses -/

/-- How things stand when a loop over the addresses ends. -/
def Opening.Leaves (a₀ a : Abs σ) : Opening → Prop
  | .abandoned => ∃ held, Trying a₀ a held 1 0
  | .exhausted => Trying a₀ a none 1 0
  | .opened fd status => 0 ≤ fd ∧ status ≠ .invalid ∧ Trying a₀ a (some fd) 1 0

/-- The end of an attempt: the error is kept, the descriptor closed. -/
theorem follows_giveUp {α : Type} {p : NetM σ α} {q : Expect α} {err : ℤ} {Q : α → Abs σ → Prop}
    (h : Trying a₀ a (some fd) got freed)
    (hp : ∀ a', Trying a₀ a' none got freed → Follows B p q a' Q) :
    Follows B (do
        setErr err
        socketCloseFd B fd
        p) q a Q := by
  apply Follows.bind_quiet (does_setErr err) (.setErr err)
  rintro _ _ rfl
  apply Follows.bind_quiet (does_socketCloseFd fd) fun _ => rfl
  rintro _ _ rfl
  exact hp _ (h.setErr err).closeFd

/-- The loop of `socket_listen`. -/
theorem follows_listenLoop (k : ℕ) (h : Trying a₀ a none 1 0) :
    Follows B (listenLoop B k) (Expect.listen k) a fun r a' => r.Leaves a₀ a' := by
  induction k generalizing a with
  | zero => exact .pure h
  | succ k ih =>
    apply Follows.bind follows_descriptorCall
    rintro r _ (⟨hr, rfl⟩ | ⟨hr, rfl⟩)
    · rw [if_pos hr, if_pos hr]
      exact ih h
    have hne : ¬ r.ret = -1 := by omega
    rw [if_neg hne, if_neg hne]
    have hopen := h.acquired r.ret
    have hret : Follows B (Reply.ret <$> simpleCall) (Reply.ret <$> Expect.next)
        (a.emit (.acquired r.ret)) fun _ a' => a' = a.emit (.acquired r.ret) :=
      .bind follows_simpleCall fun _ _ h => .pure h
    apply Follows.bind (follows_anyFails_cons follows_setFlags
      (follows_anyFails_cons follows_setFlags (follows_anyFails_cons hret follows_anyFails_nil)))
    rintro failed _ rfl
    -- an option that cannot be set ends the loop, a `bind` that fails goes on with it
    refine .ite (fun _ => ?_) fun _ => ?_
    · apply Follows.bind_quiet does_socketErrno (.read _)
      rintro e _ rfl
      exact follows_giveUp hopen fun _ h' => .pure ⟨none, h'⟩
    apply Follows.bind follows_simpleCall
    rintro b _ rfl
    refine .ite (fun _ => ?_) fun _ => .pure ⟨hr, nofun, hopen⟩
    apply Follows.bind_quiet does_socketErrno (.read _)
    rintro e _ rfl
    exact follows_giveUp hopen fun _ h' => ih h'

/-- The loop of `socket_connect`. -/
theorem follows_connectLoop (block : Bool) (k : ℕ) (h : Trying a₀ a none 1 0) :
    Follows B (connectLoop B block k) (Expect.connect block k) a fun r a' => r.Leaves a₀ a' := by
  induction k generalizing a with
  | zero => exact .pure h
  | succ k ih =>
    apply Follows.bind follows_descriptorCall
    rintro r _ (⟨hr, rfl⟩ | ⟨hr, rfl⟩)
    · rw [if_pos hr, if_pos hr]
      exact ih h
    have hne : ¬ r.ret = -1 := by omega
    rw [if_neg hne, if_neg hne]
    have hopen := h.acquired r.ret
    have hflags (b : Bool) (a : Abs σ) : Follows B (if b then pure false else anyFails [setFlags])
        (if b then pure false else Expect.anyFails [Expect.flags]) a fun _ a' => a' = a :=
      .ite (fun _ => .pure rfl) fun _ => follows_anyFails_flags
    have hflags' (b : Bool) (a : Abs σ) : Follows B (if b then anyFails [setFlags] else pure false)
        (if b then Expect.anyFails [Expect.flags] else pure false) a fun _ a' => a' = a :=
      .ite (fun _ => follows_anyFails_flags) fun _ => .pure rfl
    apply Follows.bind follows_simpleCall
    rintro alive _ rfl
    refine .ite (fun _ => ?_) fun _ => ?_
    · apply Follows.bind_quiet does_socketErrno (.read _)
      rintro e _ rfl
      exact follows_giveUp hopen fun _ h' => .pure ⟨none, h'⟩
    apply Follows.bind (hflags block _)
    rintro failed _ rfl
    refine .ite (fun _ => ?_) fun _ => ?_
    · apply Follows.bind_quiet does_socketErrno (.read _)
      rintro e _ rfl
      exact follows_giveUp hopen fun _ h' => .pure ⟨none, h'⟩
    apply Follows.bind follows_simpleCall
    rintro c _ rfl
    refine .ite (fun _ => follows_giveUp hopen fun _ h' => ih h') fun _ => ?_
    apply Follows.bind (hflags' block _)
    rintro failed' _ rfl
    refine .ite (fun _ => ?_) fun _ => .pure ⟨hr, by split <;> nofun, hopen⟩
    -- here the descriptor stays open
    apply Follows.bind_quiet does_socketErrno (.read _)
    rintro e _ rfl
    apply Follows.bind_quiet (does_setErr e) (.setErr e)
    rintro _ _ rfl
    exact .pure ⟨some r.ret, hopen.setErr e⟩

/-! ## Ends -/

/-- A change of interest counts in none of the accounts. -/
theorem Subscribe.idle {r : ℤ} {old new mask : Mask} {np np' : σ} {evs : List Ev}
    (h : Subscribe B i fd old new np r mask np' evs) : ∀ e ∈ evs, e.Idle := by
  cases h <;> simp [Ev.Idle]

/-- The events of closing a connection that has nothing queued. -/
theorem close_log_nil (hq : c.queue = []) :
    (a.close i B c).log =
      (if c.fd > STDERR_FILENO then [.released c.fd] else []) ++ .closed i c.fd c.mask :: a.log := by
  rw [Abs.close_log, closeEvs, hq]
  rfl

namespace Tally

/-- Closing a connection closes its descriptor. -/
theorem close (h : Tally log a.log (some c.fd) got freed) (hq : c.queue = [])
    (hfd : STDERR_FILENO < c.fd) : Tally log (a.close i B c).log none got freed := by
  rw [close_log_nil hq, if_pos hfd]
  exact (h.idle (e := .closed i c.fd c.mask) trivial).released

/-- A standard stream stays open. -/
theorem close_std (h : Tally log a.log held got freed) (hq : c.queue = [])
    (hfd : c.fd ≤ STDERR_FILENO) : Tally log (a.close i B c).log held got freed := by
  rw [close_log_nil hq, if_neg (not_lt.mpr hfd)]
  exact h.idle (e := .closed i c.fd c.mask) trivial

variable {o : Opener}

/-- A call that fails and leaves nothing behind. -/
theorem atomic_failed (h : Tally a.log a'.log none n n) (hn : n ≤ 1) (hslot : a'.slot = a.slot) :
    Atomic o a none a' where
  failed _ := ⟨by rw [Abs.live, hslot, Abs.live], fun d => (h.fds d).trans (Int.add_zero _)⟩
  opened := nofun
  lists := ⟨n, hn, h.got, h.freed⟩

/-- A call that fails and leaves a descriptor behind. -/
theorem not_atomic_of_held (h : Tally a.log a'.log (some fd) got freed) : ¬ Atomic o a none a' := by
  intro ha
  have hopen := h.fds fd
  rw [if_pos rfl, (ha.failed rfl).2 fd] at hopen
  omega

/-- A call that does not free a list as often as it obtains one. -/
theorem not_atomic_of_lists {r : Option ℕ} (h : Tally a.log a'.log held got freed)
    (hne : got ≠ freed) : ¬ Atomic o a r a' := by
  intro ha
  obtain ⟨n, -, hgot, hfreed⟩ := ha.lists
  have hgot' := h.got
  have hfreed' := h.freed
  omega

/-- A call that succeeds. -/
theorem atomic_opened (h : Tally a.log a'.log held n n) (hn : n ≤ 1) (hnone : a.slot i = none)
    (hslot : a'.slot = Function.update a.slot i (some c))
    (ho : (o.given = none ∧ held = some c.fd) ∨ (o.given = some c.fd ∧ held = none)) :
    Atomic o a (some i) a' where
  failed := nofun
  opened := by
    rintro _ ⟨rfl⟩
    refine ⟨fun hi => hi hnone, ?_, c, by rw [hslot, Function.update_self], ?_⟩
    · ext j
      simp only [Abs.live, Set.mem_ofPred_eq, Set.mem_insert_iff, hslot]
      by_cases hj : j = i
      · simp [hj]
      · simp [hj]
    · unfold Opener.Holds
      rcases ho with ⟨ho, rfl⟩ | ⟨ho, rfl⟩ <;> rw [ho]
      · intro d
        simpa [eq_comm] using h.fds d
      · exact ⟨rfl, fun d => by simpa using h.fds d⟩
  lists := ⟨n, hn, h.got, h.freed⟩

end Tally

/-- A slot that was given to a connection and is free again. -/
theorem bounced_slot {b : Abs σ} (hnone : a.slot i = none)
    (h : b.slot = Function.update a.slot i (some c₀)) : (b.close i B c).slot = a.slot := by
  rw [Abs.close_slot, h, Function.update_idem, ← hnone, Function.update_eq_self]

/-- Since `a₀`, the slot `i` was given to the connection `c`, which holds the one descriptor that is open
in addition. -/
structure Placed (a₀ a : Abs σ) (i : ℕ) (c : Conn) (n : ℕ) : Prop where
  none : a₀.slot i = none
  slot : a.slot = Function.update a₀.slot i (some c)
  tally : Tally a₀.log a.log (some c.fd) n n

/-- A slot for a descriptor that is at hand. -/
theorem Trying.placed {m : List ℕ} (h : Trying a₀ a (some c.fd) n n) (hn : a.slot i = none) :
    Placed a₀ (a.create i m c) i c n where
  none := h.slot ▸ hn
  slot := by simp only [Abs.create, h.slot]
  tally := h.tally.idle (e := .opened i c.fd c.protocol) trivial

namespace Placed

variable {o : Opener}

theorem slot_self (h : Placed a₀ a i c n) : a.slot i = some c := by
  rw [h.slot, Function.update_self]

theorem setErr (h : Placed a₀ a i c n) (err : ℤ) : Placed a₀ (a.setErr err) i c n :=
  ⟨h.none, h.slot, h.tally⟩

theorem put {c' : Conn} {p : σ} {evs : List Ev} (h : Placed a₀ a i c n) (hfd : c'.fd = c.fd)
    (hevs : ∀ e ∈ evs, e.Idle) : Placed a₀ (a.put i c' p evs) i c' n where
  none := h.none
  slot := by simp only [Abs.put, h.slot, Function.update_idem]
  tally := hfd ▸ h.tally.idles hevs

theorem set (h : Placed a₀ a i c n) (c' : Conn) (hfd : c'.fd = c.fd) :
    Placed a₀ (a.set i c') i c' n :=
  h.put (p := a.np) hfd fun _ he => absurd he List.not_mem_nil

/-- A call that has placed its connection, and freed its list, is atomic. -/
theorem atomic (h : Placed a₀ a i c n) (hn : n ≤ 1) (ho : o.given = Option.none) :
    Atomic o a₀ (some i) a :=
  h.tally.atomic_opened hn h.none h.slot (.inl ⟨ho, rfl⟩)

/-- Closing it again leaves nothing behind, unless its descriptor is a standard stream. -/
theorem close_iff (h : Placed a₀ a i c n) (hn : n ≤ 1) (hq : c.queue = []) :
    Atomic o a₀ Option.none (a.close i B c) ↔ STDERR_FILENO < c.fd := by
  by_cases hstd : STDERR_FILENO < c.fd
  · exact iff_of_true ((h.tally.close hq hstd).atomic_failed hn (bounced_slot h.none h.slot)) hstd
  · exact iff_of_false (h.tally.close_std hq (not_lt.mp hstd)).not_atomic_of_held hstd

end Placed

/-! ## Bind and accept -/

@[simp] theorem idOf_natCast (i : ℕ) : idOf i = some i := by
  rw [idOf, if_neg (by omega), Int.toNat_natCast]

/-- `socket_bind` closes the descriptor of its caller if its flags cannot be set. -/
theorem leaks_bind_iff {udata protocol : ℤ} : Leaks B a (.bind fd udata protocol) rs ↔
    STDERR_FILENO < fd ∧ a.free ≠ [] ∧ ∃ rs', Expect.flags rs = some (-1, rs') := by
  constructor
  · rintro (_ | _ | _ | _ | _ | ⟨hfd, hf, h⟩)
    exact ⟨hfd, hf, _, h⟩
  · rintro ⟨hfd, hf, rs', h⟩
    exact .bind hfd hf h

/-- A call that fails and closes a descriptor that was open before. -/
theorem not_atomic_of_closed {o : Opener} {b : Abs σ} (h : Tally a.log b.log none got freed)
    (hq : c.queue = []) (hfd : STDERR_FILENO < c.fd) : ¬ Atomic o a none (b.close i B c) := by
  intro ha
  have hopen := (ha.failed rfl).2 c.fd
  have hbefore := h.fds c.fd
  rw [close_log_nil hq, if_pos hfd] at hopen
  simp [openCount] at hopen hbefore
  omega

/-- The call is all or nothing, just if the answers are none of those with which it leaks. -/
def Settles (B : Backend σ) (o : Opener) (a : Abs σ) (rs : List Reply) (r : Option ℕ) (a' : Abs σ) :
    Prop :=
  Atomic o a r a' ↔ ¬ Leaks B a o rs

/-- A call that fails without a trace, where the answers are none with which it leaks. -/
theorem Trying.settles {o : Opener} (h : Trying a a' none n n) (hn : n ≤ 1) (hl : ¬ Leaks B a o rs) :
    Settles B o a rs none a' :=
  iff_of_true (h.tally.atomic_failed hn h.slot) hl

/-- What is left of a call that has failed: the rest of its answers does not matter. -/
theorem doesWith_fail {o : Opener} {p : NetM σ ℤ} {a₁ : Abs σ} {rs₁ : List Reply}
    (h : Does B p a₁ fun v a' => v = -1 ∧ Settles B o a rs none a') :
    DoesWith B p (a₁, rs₁) fun v x => Settles B o a rs (idOf v) x.1 :=
  (doesWith_any h).mono fun v x hx => by
    obtain ⟨rfl, hx⟩ := hx
    exact hx

/-- `socket_bind` is all or nothing, unless it fails and closes the descriptor of its caller. -/
theorem bind_settles (udata protocol : ℤ) (hfd : 0 ≤ fd) :
    DoesWith B (socketBind B fd udata protocol) (a, rs) fun v x =>
      Settles B (.bind fd udata protocol) a rs (idOf v) x.1 := by
  apply doesWith_bind (does_createSocket 0 udata protocol hfd) (.createSocket _ _ _ _)
  rintro r _ (⟨rfl, hf, rfl⟩ | ⟨i, rest, rlimit, rfl, hf, hn, hi, rfl⟩)
  · apply doesWith_fail
    apply Prog.Refines.bind (does_setErr _)
    rintro _ _ rfl
    refine .pure ⟨rfl, iff_of_true ?_ fun h => (leaks_bind_iff.mp h).2.1 hf⟩
    exact ((Tally.refl a.log).idle (e := .refused) trivial).atomic_failed (Nat.zero_le 1) rfl
  have hfree : a.free ≠ [] := by simp [hf]
  -- the descriptor is the caller's, so that nothing is held
  have htally : Tally a.log (a.create i rest (newConn fd 0 udata protocol rlimit)).log none 0 0 :=
    (Tally.refl a.log).idle (e := .opened i fd (protocolOf protocol)) trivial
  apply Prog.Refines.bind (follows_setFlags rs)
  rintro v ⟨_, rs'⟩ ⟨hflags, rfl⟩
  refine .ite (fun hv => ?_) fun hv => ?_
  · apply doesWith_fail
    apply Prog.Refines.bind does_socketErrno
    rintro e _ rfl
    apply Prog.Refines.bind (does_setErr e)
    rintro _ _ rfl
    apply Prog.Refines.bind (does_closeSocket (c := newConn fd 0 udata protocol rlimit)
      (Function.update_self ..))
    rintro _ _ rfl
    refine .pure ⟨rfl, ?_⟩
    have hleaks : Leaks B a (.bind fd udata protocol) rs ↔ STDERR_FILENO < fd :=
      leaks_bind_iff.trans (and_iff_left ⟨hfree, rs', hv ▸ hflags⟩)
    rw [Settles, hleaks]
    by_cases hstd : STDERR_FILENO < fd
    · refine iff_of_false ?_ (not_not.mpr hstd)
      exact not_atomic_of_closed (b := Abs.setErr _ e) htally rfl hstd
    · refine iff_of_true ?_ hstd
      exact (Tally.close_std (a := Abs.setErr _ e) htally rfl (not_lt.mp hstd)).atomic_failed
        (Nat.zero_le 1) (bounced_slot (b := Abs.setErr _ e) hn rfl)
  · refine doesWith_bind (does_setSlot (fun c => { c with status := .bind })
      (c := newConn fd 0 udata protocol rlimit) (Function.update_self ..) (fun _ _ => rfl)
      (fun _ => ⟨rfl, rfl⟩) (fun _ => by simp) rfl) (.setSlot _ _) ?_
    rintro _ _ rfl
    refine .pure (iff_of_true ?_ fun h => ?_)
    · rw [idOf_natCast]
      refine Tally.atomic_opened (i := i) (c := { newConn fd 0 udata protocol rlimit with
        status := .bind }) htally (Nat.zero_le 1) hn (Function.update_idem ..) (.inr ⟨rfl, rfl⟩)
    · obtain ⟨-, -, rs'', h⟩ := leaks_bind_iff.mp h
      exact hv (congrArg Prod.fst (Option.some.inj (hflags.symm.trans h)))

/-- `_accept` loses the descriptor of a standard stream if its flags cannot be set. -/
theorem leaks_accept_iff {lis : ℕ} {r x : Reply} : Leaks B a (.accept lis) (r :: x :: rs) ↔
    0 ≤ r.ret ∧ r.ret ≤ STDERR_FILENO ∧ a.free ≠ [] ∧ ∃ rs', Expect.flags rs = some (-1, rs') := by
  constructor
  · rintro (_ | _ | _ | _ | ⟨hr, hfd, hf, h⟩ | _)
    exact ⟨hr, hfd, hf, _, h⟩
  · rintro ⟨hr, hfd, hf, rs', h⟩
    exact .accept hr hfd hf h

/-- `_accept` is all or nothing, unless the descriptor is a standard stream and it fails. -/
theorem accept_settles {lis : ℕ} (hlis : a.slot lis = some c) :
    DoesWith B (accept B lis) (a, rs) fun r x => Settles B (.accept lis) a rs r x.1 := by
  apply Prog.Refines.bind (follows_descriptorCall rs)
  rintro r ⟨a₁, rs₁⟩ ⟨hnext, hr⟩
  obtain rfl : rs = r :: rs₁ := Expect.next_eq hnext
  rcases hr with ⟨hr, rfl⟩ | ⟨hr, rfl⟩
  · rw [if_pos (by omega)]
    refine .pure (iff_of_true ((Tally.refl _).atomic_failed (Nat.zero_le 1) rfl) ?_)
    rintro (_ | _ | _ | _ | ⟨hr', -, -, -⟩ | _)
    omega
  rw [if_neg (by omega)]
  apply Prog.Refines.bind (follows_simpleCall rs₁)
  rintro x ⟨_, rs₂⟩ ⟨hnext', rfl⟩
  obtain rfl : rs₁ = x :: rs₂ := Expect.next_eq hnext'
  apply doesWith_bind (does_slotAt (a := a.emit (.acquired r.ret)) (c := c) hlis) (.slotAt lis)
  rintro l _ ⟨rfl, -⟩
  have htry := (Trying.refl a).acquired r.ret
  apply doesWith_bind (does_createSocket l.slimit l.udata 0 hr) (.createSocket _ _ _ _)
  rintro _ _ (⟨rfl, hf, rfl⟩ | ⟨i, rest, rlimit, rfl, hf, hn, hi, rfl⟩)
  · refine doesWith_any (Q := Settles B (.accept lis) a (r :: x :: rs₂)) ?_
    apply Prog.Refines.bind (does_socketCloseFd r.ret)
    rintro _ _ rfl
    exact .pure (htry.refused.closeFd.settles (Nat.zero_le 1) fun h => (leaks_accept_iff.mp h).2.2.1 hf)
  have hfree : a.free ≠ [] := fun hf' => by cases hf.symm.trans hf'
  have hplaced := htry.placed (c := newConn r.ret l.slimit l.udata 0 rlimit) (m := rest) hn
  generalize Abs.create _ i rest _ = a₂ at hplaced ⊢
  apply Prog.Refines.bind (follows_setFlags rs₂)
  rintro v ⟨a₂, rs₃⟩ ⟨hflags, rfl⟩
  -- the answers that refuse the options are the ones the list of leaks names
  refine .ite (fun hv => ?_) fun hv => ?_
  · refine doesWith_any (Q := Settles B (.accept lis) a (r :: x :: rs₂)) ?_
    apply Prog.Refines.bind (does_closeSocket hplaced.slot_self)
    rintro _ _ rfl
    refine .pure ((hplaced.close_iff (Nat.zero_le 1) rfl).trans (not_le.symm.trans (not_congr ?_)))
    exact ⟨fun h => leaks_accept_iff.mpr ⟨hr, h, hfree, rs₃, hv ▸ hflags⟩,
      fun h => (leaks_accept_iff.mp h).2.1⟩
  · refine doesWith_any (Q := Settles B (.accept lis) a (r :: x :: rs₂)) ?_
    refine .bind (does_setSlot (fun c => { c with status := .connected }) hplaced.slot_self
      (fun _ _ => rfl) (fun _ => ⟨rfl, rfl⟩) (fun _ => by simp) rfl) ?_
    rintro _ _ rfl
    have hset := hplaced.set { newConn r.ret l.slimit l.udata 0 rlimit with status := .connected } rfl
    refine .pure (iff_of_true (hset.atomic (Nat.zero_le 1) rfl) fun h => ?_)
    · obtain ⟨-, -, -, rs', h⟩ := leaks_accept_iff.mp h
      exact hv (congrArg Prod.fst (Option.some.inj (hflags.symm.trans h)))

/-! ## Listen and connect -/

/-- A list of addresses, or none. -/
theorem doesWith_getaddrinfo :
    DoesWith B getaddrinfo (a, rs) fun o x => ∃ r, rs = r :: x.2 ∧
      ((r.ret ≠ 0 ∧ o = none ∧ x.1 = a) ∨
        (r.ret = 0 ∧ o = some r.count ∧ x.1 = a.emit .gotAddrinfo)) := by
  apply Prog.Refines.bind (follows_call _ rs)
  rintro r ⟨_, rs'⟩ ⟨hnext, -, rfl⟩
  have hrs : rs = r :: rs' := Expect.next_eq hnext
  refine .ite (fun hr => .pure ⟨r, hrs, .inl ⟨hr, rfl, rfl⟩⟩) fun hr => ?_
  apply doesWith_bind (does_emit _) (.emit _)
  rintro _ _ rfl
  exact .pure ⟨r, hrs, .inr ⟨not_not.mp hr, rfl, rfl⟩⟩

/-- No address is left: the list is freed. -/
theorem does_freeList {err : ℤ} (h : Trying a₀ a none 1 0) :
    Does B (noAddress err) a fun v a' => v = -1 ∧ Trying a₀ a' none 1 1 := by
  apply Prog.Refines.bind does_net
  rintro n _ ⟨rfl, -, -⟩
  refine .ite (fun _ => .bind (does_setErr err) ?_) fun _ => .bind (does_emit _) ?_
  · rintro _ _ rfl
    apply Prog.Refines.bind (does_emit _)
    rintro _ _ rfl
    exact .pure ⟨rfl, (h.setErr err).freedList⟩
  · rintro _ _ rfl
    exact .pure ⟨rfl, h.freedList⟩

/-- A descriptor that is at hand is closed. -/
theorem does_quit {err : ℤ} (h : Trying a₀ a (some fd) got freed) :
    Does B (do
        setErr err
        socketCloseFd B fd
        pure (-1)) a fun v a' => v = -1 ∧ Trying a₀ a' none got freed := by
  apply Prog.Refines.bind (does_setErr err)
  rintro _ _ rfl
  apply Prog.Refines.bind (does_socketCloseFd fd)
  rintro _ _ rfl
  exact .pure ⟨rfl, (h.setErr err).closeFd⟩

/-- The subscription of a new connection, which is closed if it cannot be subscribed. -/
theorem doesWith_subscribed {o : Opener} {p : NetM σ ℤ} {mask : Mask} {rs₁ : List Reply}
    (h : Placed a₀ a i c n) (hn : n ≤ 1) (hold : c.mask = .none) (hq : c.queue = []) (hm : mask ≠ .none)
    (hleaks : Leaks B a₀ o rs ↔ c.fd ≤ STDERR_FILENO ∧ Refuses B c.fd mask i rs₁)
    (hp : ∀ a' m, Placed a₀ a' i { c with mask := m } n →
      Does B p a' fun v a'' => Atomic o a₀ (idOf v) a'') :
    DoesWith B (do
        if (← subscribe B i mask) ≠ 0 then do
          setErr (← socketErrno)
          closeSocket B i
          pure (-1)
        else p) (a, rs₁) fun v x => Settles B o a₀ rs (idOf v) x.1 := by
  apply Prog.Refines.bind (doesWith_subscribe h.slot_self hold hm)
  rintro v ⟨_, rs₂⟩ ⟨hrefuses, m, np, evs, hsub, rfl⟩
  have hput : Placed a₀ (a.put i { c with mask := m } np evs) i { c with mask := m } n :=
    h.put rfl hsub.idle
  refine .ite (fun hv => ?_) fun hv => ?_
  · apply doesWith_fail
    apply Prog.Refines.bind does_socketErrno
    rintro e _ rfl
    apply Prog.Refines.bind (does_setErr e)
    rintro _ _ rfl
    apply Prog.Refines.bind (does_closeSocket (hput.setErr e).slot_self)
    rintro _ _ rfl
    refine .pure ⟨rfl, ((hput.setErr e).close_iff hn hq).trans (not_le.symm.trans (not_congr ?_))⟩
    exact (hleaks.trans (and_iff_left (hrefuses.mpr hv))).symm
  · refine doesWith_any (Q := fun v => Settles B o a₀ rs (idOf v)) ((hp _ m hput).mono ?_)
    exact fun v a' hv' => iff_of_true hv' fun hl => hv (hrefuses.mp (hleaks.mp hl).2)

/-- When `socket_listen` leaks, after its loop over the addresses has ended in this way. -/
theorem leaks_listen_iff {u : ℤ} {r : Reply} {rs' : List Reply} {e : Opening} (hr : r.ret = 0)
    (h : Expect.listen r.count rs = some (e, rs')) :
    Leaks B a (.listen u) (r :: rs) ↔ e = .abandoned ∨
      ∃ fd status x rs'' i rest, e = .opened fd status ∧ rs' = x :: rs'' ∧ x.ret ≠ -1 ∧
        fd ≤ STDERR_FILENO ∧ a.free = i :: rest ∧ Refuses B fd ⟨true, false⟩ i rs'' := by
  constructor
  · rintro (⟨-, h'⟩ | _ | ⟨-, h', hx, hfd, hf, hB⟩ | _ | _ | _)
    · exact .inl (congrArg Prod.fst (Option.some.inj (h.symm.trans h')))
    · obtain ⟨rfl, rfl⟩ := Prod.mk.inj (Option.some.inj (h.symm.trans h'))
      exact .inr ⟨_, _, _, _, _, _, rfl, rfl, hx, hfd, hf, hB⟩
  · rintro (rfl | ⟨fd, status, x, rs'', i, rest, rfl, rfl, hx, hfd, hf, hB⟩)
    · exact .listenAbandoned hr h
    · exact .listenStd hr h hx hfd hf hB

/-- The same for `socket_connect`. -/
theorem leaks_connect_iff {block : Bool} {u : ℤ} {r : Reply} {rs' : List Reply} {e : Opening}
    (hr : r.ret = 0) (h : Expect.connect block r.count rs = some (e, rs')) :
    Leaks B a (.connect block u) (r :: rs) ↔ e = .abandoned ∨
      ∃ fd i rest, e = .opened fd .connecting ∧ fd ≤ STDERR_FILENO ∧ a.free = i :: rest ∧
        Refuses B fd ⟨true, true⟩ i rs' := by
  constructor
  · rintro (_ | ⟨-, h'⟩ | _ | ⟨-, h', hfd, hf, hB⟩ | _ | _)
    · exact .inl (congrArg Prod.fst (Option.some.inj (h.symm.trans h')))
    · obtain ⟨rfl, rfl⟩ := Prod.mk.inj (Option.some.inj (h.symm.trans h'))
      exact .inr ⟨_, _, _, rfl, hfd, hf, hB⟩
  · rintro (rfl | ⟨fd, i, rest, rfl, hfd, hf, hB⟩)
    · exact .connectAbandoned hr h
    · exact .connectStd hr h hfd hf hB

/-- `socket_listen` is all or nothing, unless its loop returns from the function, or a standard stream is
refused by the poller. -/
theorem listen_settles (udata : ℤ) :
    DoesWith B (socketListen B udata) (a, rs) fun v x =>
      Settles B (.listen udata) a rs (idOf v) x.1 := by
  apply Prog.Refines.bind doesWith_getaddrinfo
  rintro o ⟨a₁, rs₁⟩ ⟨r, hrs, hr⟩
  obtain rfl : rs = r :: rs₁ := hrs
  rcases hr with ⟨hr, rfl, ha⟩ | ⟨hr, rfl, ha⟩
  · obtain rfl : a₁ = a := ha
    apply doesWith_fail
    apply Prog.Refines.bind (does_setErr _)
    rintro _ _ rfl
    refine .pure ⟨rfl, ((Trying.refl _).setErr _).settles (Nat.zero_le 1) ?_⟩
    rintro (⟨hr', -⟩ | _ | ⟨hr', -⟩ | _ | _ | _)
    · exact hr hr'
    · exact hr hr'
  obtain rfl : a₁ = a.emit .gotAddrinfo := ha
  apply doesWith_bind (does_setErr 0) (.setErr 0)
  rintro _ _ rfl
  apply Prog.Refines.bind (follows_listenLoop r.count ((Trying.refl a).gotList.setErr 0) rs₁)
  rintro e ⟨a₁, rs₂⟩ ⟨hread, hleaves⟩
  have hiff := leaks_listen_iff (B := B) (a := a) (u := udata) hr hread
  -- the loop leaves the function, gives up, or has a descriptor
  rcases e with _ | _ | ⟨fd, status⟩
  · obtain ⟨held, htry⟩ := hleaves
    refine .pure (iff_of_false ?_ (not_not.mpr (hiff.mpr (.inl rfl))))
    exact htry.tally.not_atomic_of_lists (by decide)
  · apply doesWith_fail
    refine (does_freeList hleaves).mono fun v a' hv => ⟨hv.1, hv.2.settles le_rfl fun hl => ?_⟩
    rcases hiff.mp hl with h | ⟨_, _, _, _, _, _, h, -⟩ <;> cases h
  obtain ⟨hfd, hst, htry⟩ := hleaves
  apply doesWith_bind (does_setErr 0) (.setErr 0)
  rintro _ _ rfl
  apply doesWith_bind (does_emit _) (.emit _)
  rintro _ _ rfl
  have hopen := (htry.setErr 0).freedList
  generalize Abs.emit _ .freedAddrinfo = a₂ at hopen ⊢
  apply Prog.Refines.bind (follows_simpleCall rs₂)
  rintro x ⟨a₂, rs₃⟩ ⟨hnext, rfl⟩
  obtain rfl : rs₂ = x :: rs₃ := Expect.next_eq hnext
  -- from here on, the call leaks just if the poller refuses a standard stream
  have hiff : Leaks B a (.listen udata) (r :: rs₁) ↔ x.ret ≠ -1 ∧ fd ≤ STDERR_FILENO ∧
      ∃ i rest, a.free = i :: rest ∧ Refuses B fd ⟨true, false⟩ i rs₃ := by
    rw [hiff]
    constructor
    · rintro (h | ⟨_, _, _, _, i, rest, ⟨rfl, rfl⟩, ⟨rfl, rfl⟩, hx, hfd, hf, hB⟩)
      · cases h
      · exact ⟨hx, hfd, i, rest, hf, hB⟩
    · rintro ⟨hx, hfd, i, rest, hf, hB⟩
      exact .inr ⟨_, _, _, _, i, rest, rfl, rfl, hx, hfd, hf, hB⟩
  refine .ite (fun hx => ?_) fun hx => ?_
  · apply doesWith_fail
    apply Prog.Refines.bind does_socketErrno
    rintro e _ rfl
    exact (does_quit hopen).mono fun v a' hv => ⟨hv.1, hv.2.settles le_rfl fun hl => (hiff.mp hl).1 hx⟩
  apply doesWith_bind (does_createSocket 0 udata 0 hfd) (.createSocket _ _ _ _)
  rintro _ _ (⟨rfl, hf, rfl⟩ | ⟨i, rest, rlimit, rfl, hf, hn, hi, rfl⟩)
  · apply doesWith_fail
    apply (does_quit hopen.refused).mono
    refine fun v a' hv => ⟨hv.1, hv.2.settles le_rfl fun hl => ?_⟩
    obtain ⟨-, -, i, rest, hf', -⟩ := hiff.mp hl
    cases (hopen.free.symm.trans hf).symm.trans hf'
  -- the slot is taken; what is left is to subscribe it
  have hplaced := hopen.placed (c := newConn fd 0 udata 0 rlimit) (m := rest) hn
  refine doesWith_subscribed hplaced le_rfl rfl rfl (by decide) ?_ ?_
  · rw [hiff, ← hopen.free, hf]
    constructor
    · rintro ⟨-, hfd, j, rest', ⟨rfl, rfl⟩, hB⟩
      exact ⟨hfd, hB⟩
    · rintro ⟨hfd, hB⟩
      exact ⟨hx, hfd, i, rest, rfl, hB⟩
  · intro a' m h
    refine .bind (does_setSlot (fun c => { c with status := .listening }) h.slot_self
      (fun _ _ => rfl) (fun _ => ⟨rfl, rfl⟩) (fun _ => by simp) rfl) ?_
    rintro _ _ rfl
    refine .pure ?_
    rw [idOf_natCast]
    have hset := h.set { newConn fd 0 udata 0 rlimit with status := .listening, mask := m } rfl
    exact hset.atomic le_rfl rfl

/-- `socket_connect` is all or nothing, with the same exceptions. -/
theorem connect_settles (block : Bool) (udata : ℤ) :
    DoesWith B (socketConnect B block udata) (a, rs) fun v x =>
      Settles B (.connect block udata) a rs (idOf v) x.1 := by
  apply doesWith_bind (does_setErr 0) (.setErr 0)
  rintro _ _ rfl
  apply Prog.Refines.bind doesWith_getaddrinfo
  rintro o ⟨a₁, rs₁⟩ ⟨r, hrs, hr⟩
  obtain rfl : rs = r :: rs₁ := hrs
  rcases hr with ⟨hr, rfl, ha⟩ | ⟨hr, rfl, ha⟩
  · obtain rfl : a₁ = a.setErr 0 := ha
    apply doesWith_fail
    apply Prog.Refines.bind (does_setErr _)
    rintro _ _ rfl
    refine .pure ⟨rfl, (((Trying.refl a).setErr 0).setErr _).settles (Nat.zero_le 1) ?_⟩
    rintro (_ | ⟨hr', -⟩ | _ | ⟨hr', -⟩ | _ | _)
    · exact hr hr'
    · exact hr hr'
  obtain rfl : a₁ = (a.setErr 0).emit .gotAddrinfo := ha
  apply doesWith_bind (does_setErr 0) (.setErr 0)
  rintro _ _ rfl
  apply Prog.Refines.bind
    (follows_connectLoop block r.count (((Trying.refl a).setErr 0).gotList.setErr 0) rs₁)
  rintro e ⟨a₁, rs₂⟩ ⟨hread, hleaves⟩
  have hiff := leaks_connect_iff (B := B) (a := a) (u := udata) hr hread
  rcases e with _ | _ | ⟨fd, status⟩
  · obtain ⟨held, htry⟩ := hleaves
    refine .pure (iff_of_false ?_ (not_not.mpr (hiff.mpr (.inl rfl))))
    exact htry.tally.not_atomic_of_lists (by decide)
  · apply doesWith_fail
    refine (does_freeList hleaves).mono fun v a' hv => ⟨hv.1, hv.2.settles le_rfl fun hl => ?_⟩
    rcases hiff.mp hl with h | ⟨_, _, _, h, -⟩ <;> cases h
  obtain ⟨hfd, hst, htry⟩ := hleaves
  apply doesWith_bind (does_setErr 0) (.setErr 0)
  rintro _ _ rfl
  apply doesWith_bind (does_emit _) (.emit _)
  rintro _ _ rfl
  have hopen := (htry.setErr 0).freedList
  generalize Abs.emit _ .freedAddrinfo = a₂ at hopen ⊢
  -- a connection that is made at once is not subscribed, so the poller cannot refuse it
  have hiff : Leaks B a (.connect block udata) (r :: rs₁) ↔ status = .connecting ∧
      fd ≤ STDERR_FILENO ∧ ∃ i rest, a.free = i :: rest ∧ Refuses B fd ⟨true, true⟩ i rs₂ := by
    rw [hiff]
    constructor
    · rintro (h | ⟨_, i, rest, ⟨rfl, rfl⟩, hfd, hf, hB⟩)
      · cases h
      · exact ⟨rfl, hfd, i, rest, hf, hB⟩
    · rintro ⟨rfl, hfd, i, rest, hf, hB⟩
      exact .inr ⟨_, i, rest, rfl, hfd, hf, hB⟩
  apply doesWith_bind (does_createSocket 0 udata 0 hfd) (.createSocket _ _ _ _)
  rintro _ _ (⟨rfl, hf, rfl⟩ | ⟨i, rest, rlimit, rfl, hf, hn, hi, rfl⟩)
  · apply doesWith_fail
    apply (does_quit hopen.refused).mono
    refine fun v a' hv => ⟨hv.1, hv.2.settles le_rfl fun hl => ?_⟩
    obtain ⟨-, -, i, rest, hf', -⟩ := hiff.mp hl
    cases (hopen.free.symm.trans hf).symm.trans hf'
  have hplaced := hopen.placed (c := newConn fd 0 udata 0 rlimit) (m := rest) hn
  refine doesWith_bind (does_setSlot (fun c => { c with status }) hplaced.slot_self
    (fun _ _ => rfl) (fun _ => ⟨rfl, rfl⟩) (fun _ => hst) rfl) (.setSlot _ _) ?_
  rintro _ _ rfl
  have hplaced := hplaced.set { newConn fd 0 udata 0 rlimit with status } rfl
  refine .ite (fun hcon => ?_) fun hcon => ?_
  · refine doesWith_subscribed hplaced le_rfl rfl rfl (by decide) ?_ ?_
    · rw [hiff, ← hopen.free, hf]
      constructor
      · rintro ⟨-, hfd, j, rest', ⟨rfl, rfl⟩, hB⟩
        exact ⟨hfd, hB⟩
      · rintro ⟨hfd, hB⟩
        exact ⟨hcon, hfd, i, rest, rfl, hB⟩
    · intro a' m h
      apply Prog.Refines.bind (does_setErr _)
      rintro _ _ rfl
      refine .pure ?_
      rw [idOf_natCast]
      exact (h.setErr _).atomic (o := .connect block udata) le_rfl rfl
  · refine .pure ?_
    rw [idOf_natCast]
    exact iff_of_true (hplaced.atomic le_rfl rfl) fun hl => hcon (hiff.mp hl).1

/-! ## The calls -/

/-- A world that a run goes through: between two calls, or between two events of a `socket_poll`. -/
inductive Visited (B : Backend σ) : World σ → Prop
  | reached {w : World σ} (h : (net B).Reach w) : Visited B w
  | polled {w w' : World σ} {rs : List Reply} {timeout : ℤ} {ies : List NpEvent} (h : Visited B w)
      (hrun : poller (B.npPoll w.net.max timeout) (w.answer rs) = (.ok ies, w')) : Visited B w'
  | event {w w' : World σ} {rs : List Reply} {ie : NpEvent} {es : List SocketEvent} (h : Visited B w)
      (hi : ie.ud < w.net.max) (hrun : pollEvent B ie (w.answer rs) = (.ok es, w')) : Visited B w'

/-- A world that a run goes through represents a net. -/
theorem Visited.rep (h : Visited B w) : Rep B w w.abs := by
  induction h with
  | reached h => exact (reach_abs h).1
  | polled _ hrun ih =>
    obtain ⟨_, ⟨hinv, rfl⟩, -⟩ := (does_npPoll _).ok (ih.answer _) hrun
    exact ⟨hinv, rfl⟩
  | event _ hi hrun ih =>
    obtain ⟨_, ⟨hinv, rfl⟩, -⟩ := (does_pollEvent _ hi (show Op.poll 0 = .poll 0 from rfl)).ok (ih.answer _) hrun
    exact ⟨hinv, rfl⟩

/-- Every call that opens a connection settles. -/
theorem doesWith_opener (o : Opener) (ho : o.Allowed a) :
    DoesWith B (o.call B) (a, rs) fun r x => Settles B o a rs r x.1 := by
  rcases o with udata | ⟨block, udata⟩ | ⟨fd, udata, protocol⟩ | lis
  · exact .bind (listen_settles udata) fun _ _ h => .pure h
  · exact .bind (connect_settles block udata) fun _ _ h => .pure h
  · exact .bind (bind_settles udata protocol ho) fun _ _ h => .pure h
  · obtain ⟨c, hc, -⟩ := ho
    exact accept_settles hc

/-- In every run, a call that opens a connection is all or nothing, exactly when it does not leak. -/
theorem atomic_iff {o : Opener} {r : Option ℕ} (h : Visited B w) (ho : o.Allowed w.abs)
    (hrun : o.call B (w.answer rs) = (.ok r, w')) :
    Atomic o w.abs r w'.abs ↔ ¬ Leaks B w.abs o rs := by
  obtain ⟨⟨_, _⟩, ⟨⟨-, rfl⟩, -⟩, hsettles⟩ := (doesWith_opener o ho).ok ⟨h.rep.answer rs, rfl⟩ hrun
  exact hsettles

/-- One address, which works. -/
def listens : List Reply :=
  [{ count := 1 }, { ret := 3 }, {}, {}, {}, {}, {}, {}, {}, {}]

/-- The first of the calls that prepare the socket fails. -/
def unprepared : List Reply := [{ count := 1 }, { ret := 3 }, { ret := -1, errno := 1 }]

theorem atomic_iff_listen :
    Atomic (.listen 0) (fresh epoll 1).abs (some 0)
        (((Opener.listen 0).call epoll ((fresh epoll 1).answer listens)).2).abs ↔
      ¬ Leaks epoll (fresh epoll 1).abs (.listen 0) listens :=
  atomic_iff (.reached (.init ⟨1, zeroed, rfl⟩)) trivial (Prod.ext (by decide) rfl)

/-- The address list is not freed. -/
theorem not_atomic_unprepared : ∃ w w' : World Epoll, ∃ o r rs, Visited epoll w ∧ o.Allowed w.abs ∧
    o.call epoll (w.answer rs) = (.ok r, w') ∧ ¬ Atomic o w.abs r w'.abs := by
  refine ⟨fresh epoll 1, ((Opener.listen 0).call epoll ((fresh epoll 1).answer unprepared)).2,
    .listen 0, none, unprepared, .reached (.init ⟨1, zeroed, rfl⟩), trivial,
    Prod.ext (by decide) rfl, fun h => ?_⟩
  obtain ⟨n, -, hgot, hfreed⟩ := h.lists
  have hgot' : 1 = 0 + n := hgot
  have hfreed' : 0 = 0 + n := hfreed
  omega

end Lsocket
