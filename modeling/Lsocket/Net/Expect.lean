import Lsocket.Net.Opens

/-!
# What the answers decide

The loops of `socket_listen` and `socket_connect` look at nothing but the answers of the system, so
that the answers alone tell how they end. `Expect` reads a list of answers; `Follows` says of a program
that it returns what such a reading says, and uses up the same answers. The result of a registration
is decided by the answers too, but how they decide it is up to the poller (`Refuses`).
-/

namespace Lsocket

variable {σ α β : Type} {B : Backend σ} {a a' : Abs σ} {i : ℕ} {c : Conn}

/-! ## Readings -/

/-- A reading of the answers to come. -/
abbrev Expect : Type → Type := StateT (List Reply) Option

namespace Expect

/-- The next answer. -/
def next : Expect Reply := fun
  | [] => none
  | r :: rs => some (r, rs)

/-- The next answer is the first one. -/
theorem next_eq {r : Reply} {rs rs' : List Reply} (h : next rs = some (r, rs')) : rs = r :: rs' := by
  rcases rs with _ | ⟨r₀, rs₀⟩
  · cases h
  · obtain ⟨rfl, rfl⟩ := Prod.mk.inj (Option.some.inj h)
    rfl

/-- What `setFlags` returns. -/
def flags : Expect ℤ := do
  let r ← next
  if r.ret = -1 then pure (-1)
  else
    let r' ← next
    pure r'.ret

/-- What `anyFails` returns. -/
def anyFails : List (Expect ℤ) → Expect Bool
  | [] => pure false
  | f :: fs => do
    if (← f) = -1 then pure true else anyFails fs

/-- How the loop of `socket_listen` ends. -/
def listen : ℕ → Expect Opening
  | 0 => pure .exhausted
  | k + 1 => do
    let r ← next
    if r.ret = -1 then listen k
    else if ← anyFails [flags, flags, Reply.ret <$> next] then pure .abandoned
    else
      let b ← next
      if b.ret = -1 then listen k else pure (.opened r.ret .listening)

/-- How the loop of `socket_connect` ends. -/
def connect (block : Bool) : ℕ → Expect Opening
  | 0 => pure .exhausted
  | k + 1 => do
    let r ← next
    if r.ret = -1 then connect block k
    else
      let alive ← next
      if alive.ret ≠ 0 then pure .abandoned
      else if ← (if block then pure false else anyFails [flags]) then pure .abandoned
      else
        let c ← next
        if c.ret = -1 ∧ (block ∨ c.errno ≠ EINPROGRESS) then connect block k
        else if ← (if block then anyFails [flags] else pure false) then pure .abandoned
        else pure (.opened r.ret (if c.ret = -1 then .connecting else .connected))

end Expect

/-! ## Programs that follow a reading -/

/-- The program does `Q` to the net `a`; it returns what the reading says, and takes the answers that
the reading takes. -/
def Follows (B : Backend σ) (p : NetM σ α) (q : Expect α) (a : Abs σ) (Q : α → Abs σ → Prop) : Prop :=
  ∀ rs, DoesWith B p (a, rs) fun v x => q rs = some (v, x.2) ∧ Q v x.1

namespace Follows

variable {p : NetM σ α} {q : Expect α} {f : α → NetM σ β} {g : α → Expect β}
variable {Q Q' : α → Abs σ → Prop} {T : β → Abs σ → Prop}

protected theorem pure {v : α} (h : Q v a) : Follows B (Pure.pure v) (Pure.pure v) a Q :=
  fun _ => Prog.Refines.pure ⟨rfl, h⟩

/-- The rule for sequences. -/
protected theorem bind (hp : Follows B p q a Q) (hf : ∀ v a', Q v a' → Follows B (f v) (g v) a' T) :
    Follows B (p >>= f) (q >>= g) a T := by
  intro rs
  apply Prog.Refines.bind (hp rs)
  rintro v ⟨a', rs'⟩ ⟨hq, hv⟩
  apply (hf v a' hv rs').mono
  rintro w x ⟨hg, hw⟩
  refine ⟨?_, hw⟩
  have hseq : (q >>= g) rs = (q rs).bind fun y => g y.1 y.2 := rfl
  rw [hseq, hq]
  exact hg

/-- Where the reading is as good as another. -/
theorem bind_quiet {q' : Expect β} (hp : Does B p a Q) (hs : Silent p)
    (hf : ∀ v a', Q v a' → Follows B (f v) q' a' T) : Follows B (p >>= f) q' a T :=
  fun rs => doesWith_bind hp hs fun v a' hv => hf v a' hv rs

theorem mono (h : Follows B p q a Q) (hQ : ∀ v a', Q v a' → Q' v a') : Follows B p q a Q' :=
  fun rs => (h rs).mono fun v x hv => ⟨hv.1, hQ v x.1 hv.2⟩

/-- The rule for choices. -/
theorem ite {P : Prop} [Decidable P] {p' : NetM σ α} {q' : Expect α} (hp : P → Follows B p q a Q)
    (hq : ¬ P → Follows B p' q' a Q) :
    Follows B (if P then p else p') (if P then q else q') a Q := by
  split
  · exact hp ‹_›
  · exact hq ‹_›

end Follows

/-! ## Calls -/

/-- A call takes the answer that is read next. -/
theorem follows_call (ok : Reply → Prop) [DecidablePred ok] :
    Follows B (call ok) Expect.next a fun r a' => ok r ∧ a' = a := by
  intro rs
  apply (doesWith_call ok).mono
  rintro r ⟨a', rs'⟩ ⟨hr, rfl, rfl⟩
  exact ⟨rfl, hr, rfl⟩

theorem follows_simpleCall : Follows B simpleCall Expect.next a fun _ a' => a' = a :=
  (follows_call _).mono fun _ _ h => h.2

/-- A call that fails, or opens a descriptor. -/
theorem follows_descriptorCall :
    Follows B descriptorCall Expect.next a fun r a' =>
      (r.ret = -1 ∧ a' = a) ∨ (0 ≤ r.ret ∧ a' = a.emit (.acquired r.ret)) := by
  have hnext : (Expect.next >>= pure) = Expect.next := bind_pure _
  rw [← hnext]
  apply Follows.bind (follows_call _)
  rintro r _ ⟨hr, rfl⟩
  by_cases h : 0 ≤ r.ret
  · rw [if_pos h]
    apply Follows.bind_quiet (does_emit _) (.emit _)
    rintro _ _ rfl
    exact .pure (.inr ⟨h, rfl⟩)
  · rw [if_neg h]
    refine .pure (.inl ⟨?_, rfl⟩)
    rcases hr with hr | hr
    · exact hr.1
    · exact absurd hr.1 h

/-- The flags are got and set with two answers, or with one that fails. -/
theorem follows_setFlags : Follows B setFlags Expect.flags a fun _ a' => a' = a := by
  apply Follows.bind (follows_call _)
  rintro r _ ⟨-, rfl⟩
  refine .ite (fun _ => .pure rfl) fun _ => ?_
  apply Follows.bind follows_simpleCall
  rintro _ _ rfl
  exact .pure rfl

theorem follows_anyFails_nil : Follows B (anyFails []) (Expect.anyFails []) a fun _ a' => a' = a :=
  .pure rfl

/-- One more call in front of the others. -/
theorem follows_anyFails_cons {f : NetM σ ℤ} {fs : List (NetM σ ℤ)} {q : Expect ℤ}
    {qs : List (Expect ℤ)} (hf : Follows B f q a fun _ a' => a' = a)
    (hfs : Follows B (anyFails fs) (Expect.anyFails qs) a fun _ a' => a' = a) :
    Follows B (anyFails (f :: fs)) (Expect.anyFails (q :: qs)) a fun _ a' => a' = a := by
  apply Follows.bind hf
  rintro r _ rfl
  exact .ite (fun _ => .pure rfl) fun _ => hfs

theorem follows_anyFails_flags :
    Follows B (anyFails [setFlags]) (Expect.anyFails [Expect.flags]) a fun _ a' => a' = a :=
  follows_anyFails_cons follows_setFlags follows_anyFails_nil

/-! ## Registrations -/

/-- The registration of a descriptor fails with these answers, in some state of the poller. It is
the same in every other state (`refuses_iff`). -/
def Refuses (B : Backend σ) (fd : ℤ) (mask : Mask) (ud : ℕ) (rs : List Reply) : Prop :=
  ∃ np errno r t, B.npAdd fd mask ud (np, ⟨rs, errno⟩) = (.ok r, t) ∧ r ≠ 0

/-- The poller refuses a descriptor exactly when `np_add` returns an error. -/
theorem refuses_iff {fd r errno : ℤ} {mask : Mask} {ud : ℕ} {rs : List Reply} {np : σ} {t : σ × Os}
    (h : B.npAdd fd mask ud (np, ⟨rs, errno⟩) = (.ok r, t)) : Refuses B fd mask ud rs ↔ r ≠ 0 := by
  refine ⟨?_, fun hr => ⟨np, errno, r, t, h, hr⟩⟩
  rintro ⟨np', errno', r', t', h', hr'⟩
  have halike : Os.Alike ⟨rs, errno'⟩ ⟨rs, errno⟩ := .of_eq rfl
  obtain ⟨rfl, -⟩ := B.decided_add fd mask ud _ _ halike _ _ _ _ h' h
  exact hr'

/-- The first subscription of a connection. -/
theorem doesWith_subscribe {mask : Mask} {rs : List Reply} (hc : a.slot i = some c)
    (hold : c.mask = .none) (hm : mask ≠ .none) :
    DoesWith B (subscribe B i mask) (a, rs) fun r x => (Refuses B c.fd mask i rs ↔ r ≠ 0) ∧
      ∃ m np evs, Subscribe B i c.fd .none mask a.np r m np evs ∧
        x.1 = a.put i { c with mask := m } np evs := by
  unfold subscribe
  apply doesWith_bind (does_slotAt hc) (.slotAt i)
  rintro s a ⟨rfl, hs⟩
  have hfd : s.fd = c.fd := congrArg Conn.fd hs.conn_eq
  have hmask : s.mask = c.mask := congrArg Conn.mask hs.conn_eq
  rw [hfd, hmask, hold, if_neg hm, if_neg hm, if_pos rfl]
  -- the slots that the poller knows stay within the array
  have hpoll : DoesWith B (poller (B.npAdd c.fd mask i)) (a, rs) fun r x => ∃ errno o' np,
      B.npAdd c.fd mask i (a.np, ⟨rs, errno⟩) = (.ok r, (np, o')) ∧
        x = ({ a with np }, o'.replies) := by
    intro w hw
    have hi : i < a.max := hw.1.max_eq ▸ hw.1.lt_max hc
    apply doesWith_poller _ w hw
    intro s hs
    apply Prog.wp_mono (B.known_add c.fd mask i s)
    intro _ t ht u hu
    rcases ht u hu with hu | rfl
    · exact hs u hu
    · exact hi
  apply Prog.Refines.bind hpoll
  rintro r _ ⟨errno, o', np, hadd, rfl⟩
  have hcalls : B.Calls i c.fd .none mask a.np r np := by
    refine ⟨⟨rs, errno⟩, o', ?_⟩
    rw [if_neg hm, if_pos rfl]
    exact hadd
  apply doesWith_bind (does_emit _) (.emit _)
  rintro _ _ rfl
  by_cases hr : r = 0
  · subst hr
    rw [if_pos rfl]
    refine doesWith_bind (does_setSlot (fun c => { c with mask }) (c := c) hc (fun _ _ => rfl)
      (fun _ => ⟨rfl, rfl⟩) id rfl) (.setSlot i _) ?_
    rintro _ _ rfl
    exact .pure ⟨refuses_iff hadd, _, _, _, .done hm hcalls, rfl⟩
  · rw [if_neg hr]
    refine .pure ⟨refuses_iff hadd, .none, _, _, .failed hm hr hcalls, ?_⟩
    rw [← hold]
    exact (Abs.put_emit_self hc np _).symm

end Lsocket
