import Lsocket.Net.Pointing

/-!
# Two nets side by side

The same calls on two nets that agree on one slot and may differ everywhere else. `View` is what the
two agree on: what the slot holds, or that it is the next one to be given away. As long as it is of use,
they also agree on what the pollers have pointing at it. `Twins` compares the runs of two programs from
such nets, with the same answers; it has the rules of `Does`, and facts of the form `Does` about programs
that call nothing carry over (`twins_of_does`).
-/

namespace Lsocket

open CInt

variable {σ α β : Type} {B : Backend σ} {P : Pointers B} {w w' : World σ} {i : ℕ} {c c' : Conn} {o : Option Conn}

/-! ## Views -/

/-- What two nets agree on about the slot `i`. -/
inductive View
  /-- The slot is the first of the free ones. Its read limit is what the last connection left there. -/
  | next (rlimit : ℤ)
  /-- The slot holds this connection, or none. -/
  | holds (o : Option Conn)

namespace View

/-- The net looks like this. -/
def Of (B : Backend σ) (i : ℕ) (w : World σ) : View → Prop
  | .next rlimit => Inv B w ∧ w.net.freeSocket = some i ∧ (w.net.sockets i).rlimit = rlimit
  | .holds o => Inv B w ∧ w.abs.slot i = o

/-- The pollers have the same pointing at the slot. What points at a slot that is free, and not the next
one, is of no use. -/
def Link (P : Pointers B) (i : ℕ) : View → σ → σ → Prop
  | .holds none, _, _ => True
  | _, s, t => P.Same i s t

/-- Two nets look like this, and the answers to come are the same. -/
def Both (P : Pointers B) (i : ℕ) (x : View) (w w' : World σ) : Prop :=
  x.Of B i w ∧ x.Of B i w' ∧ w.os.Alike w'.os ∧ x.Link P i w.np w'.np

variable {x : View} {s t : σ}

theorem Of.inv (h : x.Of B i w) : Inv B w := by
  cases x <;> exact h.1

/-- A descriptor that is closed in both nets. -/
theorem Link.closed (h : x.Link P i s t) (fd : ℤ) : x.Link P i (B.closed fd s) (B.closed fd t) := by
  rcases x with rlimit | _ | c
  · exact P.closed fd h
  · trivial
  · exact P.closed fd h

/-- The poller, the answers, the log and the error number do not show. -/
theorem Of.frame (h : x.Of B i w) (np : σ) (os : Os) (err : ℤ) (log : List Ev)
    (hk : ∀ u, B.known np u → u < w.net.max) :
    x.Of B i { w with net := { w.net with err }, np, os, log } := by
  have hrep : Rep B w w.abs := ⟨h.inv, rfl⟩
  have hframe := hrep.frame np os err log hk
  cases x with
  | next rlimit => exact ⟨hframe.1, h.2⟩
  | holds o => exact ⟨hframe.1, (congrFun (congrArg Abs.slot hframe.2) i).trans h.2⟩

end View

/-! ## Twins -/

/-- From two nets that look like `x`, with the same answers, the two programs return values in `Q` and
leave nets that look the same again. -/
def Twins (P : Pointers B) (i : ℕ) (p q : NetM σ α) (x : View) (Q : α → α → View → Prop) : Prop :=
  Prog.Matches (x.Both P i) p q fun v v' w w' => ∃ y, Q v v' y ∧ y.Both P i w w'

namespace Twins

variable {p p' q q' : NetM σ α} {f g : α → NetM σ β} {x y : View}
variable {Q Q' : α → α → View → Prop} {T : β → β → View → Prop}

protected theorem pure {v v' : α} (h : Q v v' x) : Twins P i (Pure.pure v) (Pure.pure v') x Q :=
  Prog.Matches.pure fun _ _ hw => ⟨x, h, hw⟩

/-- The rule for sequences. -/
protected theorem bind (hp : Twins P i p q x Q)
    (hf : ∀ v v' y, Q v v' y → Twins P i (f v) (g v') y T) : Twins P i (p >>= f) (q >>= g) x T := by
  refine Prog.Matches.bind hp fun v v' w w' h => ?_
  obtain ⟨y, hQ, hw⟩ := h
  exact hf v v' y hQ w w' hw

theorem mono (h : Twins P i p q x Q) (hQ : ∀ v v' y, Q v v' y → Q' v v' y) : Twins P i p q x Q' :=
  Prog.Matches.mono h fun v v' _ _ ⟨y, hv, hw⟩ => ⟨y, hQ v v' y hv, hw⟩

/-- The rule for choices that both programs make in the same way. -/
theorem ite {c d : Prop} [Decidable c] [Decidable d] (hcd : c ↔ d) (hp : c → Twins P i p q x Q)
    (hq : ¬ c → Twins P i p' q' x Q) :
    Twins P i (if c then p else p') (if d then q else q') x Q :=
  Prog.Matches.ite hcd hp hq

theorem fault {e e' : Fault} : Twins P i (Prog.fault e : NetM σ α) (Prog.fault e') x Q :=
  Prog.Matches.fault_left

theorem check {c : Prop} [Decidable c] {e : Fault} {Q : Unit → Unit → View → Prop}
    (h : c → Q () () x) : Twins P i (Prog.check c e) (Prog.check c e) x Q :=
  Prog.Matches.check fun hc _ _ _ hw => ⟨x, h hc, hw⟩

end Twins

/-- The same value, and the view `y`. -/
def Same (y : View) (v v' : α) (z : View) : Prop := v = v' ∧ z = y

/-- The value `v`, and the view `y`. -/
def Gives (v : α) (y : View) (r r' : α) (z : View) : Prop := r = v ∧ r' = v ∧ z = y

/-! ## The outside -/

variable {x : View}

/-- What is recorded does not show. -/
theorem twins_emit (e e' : Ev) : Twins P i (emit e) (emit e') x (Same x) := by
  refine Prog.Matches.write fun w w' ⟨h, h', hboth⟩ => ⟨x, ⟨rfl, rfl⟩, ?_, ?_, hboth⟩
  · exact h.frame w.np w.os w.net.err _ h.inv.known
  · exact h'.frame w'.np w'.os w'.net.err _ h'.inv.known

theorem twins_setErr (err err' : ℤ) : Twins P i (setErr err) (setErr err') x (Same x) := by
  refine Prog.Matches.write fun w w' ⟨h, h', hboth⟩ => ⟨x, ⟨rfl, rfl⟩, ?_, ?_, hboth⟩
  · exact h.frame w.np w.os err w.log h.inv.known
  · exact h'.frame w'.np w'.os err' w'.log h'.inv.known

theorem twins_closeFd (fd : ℤ) : Twins P i (socketCloseFd B fd) (socketCloseFd B fd) x (Same x) := by
  refine Prog.Matches.write fun w w' ⟨h, h', hos, hl⟩ => ⟨x, ⟨rfl, rfl⟩, ?_, ?_, hos, hl.closed fd⟩
  · exact h.frame _ w.os w.net.err _ fun u hu => h.inv.known u (B.known_closed _ _ u hu)
  · exact h'.frame _ w'.os w'.net.err _ fun u hu => h'.inv.known u (B.known_closed _ _ u hu)

/-- What a call returns, up to the address of new memory. -/
theorem twins_call (ok : Reply → Prop) [DecidablePred ok] :
    Twins P i (call ok) (call ok) x fun r r' y => (∃ addr, r' = { r with addr }) ∧ ok r ∧ y = x := by
  refine Prog.Matches.zoom matches_sys (fun w w' h => h.2.2.1) ?_
  rintro w w' r r' os os' ⟨h, h', -, hl⟩ ⟨hr, hok, -, hos, -⟩
  refine ⟨x, ⟨⟨r'.addr, hr.symm⟩, hok, rfl⟩, ?_, ?_, hos, hl⟩
  · exact h.frame w.np os w.net.err w.log h.inv.known
  · exact h'.frame w'.np os' w'.net.err w'.log h'.inv.known

theorem twins_socketErrno : Twins P i socketErrno socketErrno x fun _ _ y => y = x :=
  Prog.Matches.read fun _ _ h => ⟨x, rfl, h⟩

theorem twins_answersLeft : Twins P i answersLeft answersLeft x (Same x) :=
  Prog.Matches.read fun _ _ h => ⟨x, ⟨congrArg (· + 1) h.2.2.1.length_eq, rfl⟩, h⟩

/-- Two programs that make as many calls, where each returns `v` and leaves the slot in the view `y`. -/
theorem twins_of_runs {p q : NetM σ α} {v : α} {y : View} {n : ℕ}
    (hp : ∀ w r w', x.Of B i w → p w = (.ok r, w') → r = v ∧ y.Of B i w')
    (hq : ∀ w r w', x.Of B i w → q w = (.ok r, w') → r = v ∧ y.Of B i w')
    (hl : ∀ w w' r r' w₁ w₁', x.Both P i w w' → p w = (.ok r, w₁) → q w' = (.ok r', w₁') →
      y.Link P i w₁.np w₁'.np)
    (hn : Uses n p) (hn' : Uses n q) : Twins P i p q x (Gives v y) := by
  intro w w' hw r w₁ r' w₁' hr hr'
  obtain ⟨hv, hy⟩ := hp w r w₁ hw.1 hr
  obtain ⟨hv', hy'⟩ := hq w' r' w₁' hw.2.1 hr'
  refine ⟨_, ⟨hv, hv', rfl⟩, hy, hy', ?_, hl w w' r r' w₁ w₁' hw hr hr'⟩
  rw [Os.Alike, hn w r w₁ hr, hn' w' r' w₁' hr']
  exact List.forall₂_drop n hw.2.2.1

/-- Two programs that leave the poller alone as well. -/
theorem twins_of_still {p q : NetM σ α} {v : α} {y : View} {n : ℕ}
    (hp : ∀ w r w', x.Of B i w → p w = (.ok r, w') → r = v ∧ y.Of B i w' ∧ w'.np = w.np)
    (hq : ∀ w r w', x.Of B i w → q w = (.ok r, w') → r = v ∧ y.Of B i w' ∧ w'.np = w.np)
    (hl : ∀ s t, x.Link P i s t → y.Link P i s t) (hn : Uses n p) (hn' : Uses n q) :
    Twins P i p q x (Gives v y) := by
  refine twins_of_runs (fun w r w' h hr => ?_) (fun w r w' h hr => ?_) ?_ hn hn'
  · exact ⟨(hp w r w' h hr).1, (hp w r w' h hr).2.1⟩
  · exact ⟨(hq w r w' h hr).1, (hq w r w' h hr).2.1⟩
  · intro w w' r r' w₁ w₁' hw hr hr'
    rw [(hp w r w₁ hw.1 hr).2.2, (hq w' r' w₁' hw.2.1 hr').2.2]
    exact hl _ _ hw.2.2.2

/-- A program that leaves the poller alone, and whose value and effect on the slot are known. -/
theorem twins_of_does {p : NetM σ α} {v : α} {n : ℕ}
    (hp : ∀ a, a.slot i = some c → Does B p a fun r a' => r = v ∧ a'.slot i = some c' ∧ a'.np = a.np)
    (hn : Uses n p) : Twins P i p p (.holds (some c)) (Gives v (.holds (some c'))) := by
  have hrun : ∀ w r w', (View.holds (some c)).Of B i w → p w = (.ok r, w') →
      r = v ∧ (View.holds (some c')).Of B i w' ∧ w'.np = w.np := by
    rintro w r w' ⟨h, hslot⟩ hr
    obtain ⟨_, ⟨hinv, rfl⟩, hv, ho, hnp⟩ := (hp w.abs hslot).ok ⟨h, rfl⟩ hr
    exact ⟨hv, ⟨hinv, ho⟩, hnp⟩
  exact twins_of_still hrun hrun (fun _ _ h => h) hn hn

/-! ## The slot -/

/-- Two readings of the slot differ in the pointers to its queue alone. -/
theorem Socket.Shows.same {s s' : Socket} (h : s.Shows c) (h' : s'.Shows c) :
    ∃ head tail, s' = { s with head, tail } := by
  have hconn : s.conn c.queue = s'.conn c.queue := h.conn_eq.trans h'.conn_eq.symm
  rcases s with ⟨⟩
  rcases s' with ⟨⟩
  simp only [Socket.conn, Conn.mk.injEq] at hconn
  obtain ⟨rfl, rfl, rfl, rfl, rfl, -, rfl, rfl, rfl, rfl⟩ := hconn
  exact ⟨_, _, rfl⟩

/-- A slot is read, but for the addresses of its queue. -/
theorem twins_slotAt :
    Twins P i (slotAt i) (slotAt i) (.holds (some c)) fun s s' y =>
      (∃ head tail, s' = { s with head, tail }) ∧ s.Shows c ∧ s'.Shows c ∧ y = .holds (some c) := by
  rintro w w' ⟨⟨h, hc⟩, ⟨h', hc'⟩, hos, hl⟩ s w₁ s' w₁' hr hr'
  obtain ⟨_, ⟨hinv, rfl⟩, ha, hs⟩ := (does_slotAt hc).ok ⟨h, rfl⟩ hr
  obtain ⟨_, ⟨hinv', rfl⟩, ha', hs'⟩ := (does_slotAt hc').ok ⟨h', rfl⟩ hr'
  have hw : w₁.os = w.os := by have := Silent.slotAt i w; rwa [hr] at this
  have hw' : w₁'.os = w'.os := by have := Silent.slotAt i w'; rwa [hr'] at this
  have hnp : w₁.np = w.np := congrArg Abs.np ha
  have hnp' : w₁'.np = w'.np := congrArg Abs.np ha'
  refine ⟨_, ⟨hs.same hs', hs, hs', rfl⟩, ⟨hinv, ha ▸ hc⟩, ⟨hinv', ha' ▸ hc'⟩, by rwa [hw, hw'], ?_⟩
  rwa [hnp, hnp']

/-- Writing fields of the slot other than its descriptor and its queue. -/
theorem twins_setSlot {f : Socket → Socket} (g : Conn → Conn)
    (hfg : ∀ s q, (f s).conn q = g (s.conn q)) (hp : ∀ s, (f s).head = s.head ∧ (f s).tail = s.tail)
    (hs : c.status ≠ .invalid → (g c).status ≠ .invalid) (hfd : (g c).fd = c.fd) :
    Twins P i (setSlot i f) (setSlot i f) (.holds (some c)) (Gives () (.holds (some (g c)))) := by
  have hdoes (a : Abs σ) (hc : a.slot i = some c) :
      Does B (setSlot i f) a fun r a' => r = () ∧ a'.slot i = some (g c) ∧ a'.np = a.np := by
    refine (does_setSlot g hc hfg hp hs hfd).mono ?_
    rintro _ _ rfl
    exact ⟨rfl, Abs.set_slot_self .., rfl⟩
  exact twins_of_does hdoes (Silent.setSlot i f).uses

/-- A slot is closed in both nets, and is free. -/
theorem twins_closeSocket :
    Twins P i (closeSocket B i) (closeSocket B i) (.holds (some c)) (Gives () (.holds none)) := by
  have hrun : ∀ (w : World σ) r w', (View.holds (some c)).Of B i w → closeSocket B i w = (.ok r, w') →
      r = () ∧ (View.holds none).Of B i w' := by
    rintro w r w' ⟨h, hc⟩ hr
    obtain ⟨_, ⟨hinv, rfl⟩, ha⟩ := (does_closeSocket hc).ok ⟨h, rfl⟩ hr
    exact ⟨rfl, hinv, by rw [ha, Abs.close_slot, Function.update_self]⟩
  -- from here on it does not matter what points at the slot
  have hl : ∀ (w w' : World σ) r r' w₁ w₁', (View.holds (some c)).Both P i w w' →
      closeSocket B i w = (.ok r, w₁) → closeSocket B i w' = (.ok r', w₁') →
        (View.holds none).Link P i w₁.np w₁'.np := fun _ _ _ _ _ _ _ _ _ => trivial
  exact twins_of_runs hrun hrun hl (Silent.closeSocket B i).uses (Silent.closeSocket B i).uses

theorem twins_freeData (b : Option ℕ) : Twins P i (freeData b) (freeData b) x (Same x) := by
  cases b with
  | none => exact .pure ⟨rfl, rfl⟩
  | some token => exact twins_emit _ _

/-- `_socket`, for the slot. -/
theorem twins_socketOf : Twins P i (socketOf i) (socketOf i) (.holds o)
    (Gives (o.map fun _ => i) (.holds o)) := by
  have hrun : ∀ (w : World σ) r w', (View.holds o).Of B i w → socketOf i w = (.ok r, w') →
      r = o.map (fun _ => i) ∧ (View.holds o).Of B i w' ∧ w'.np = w.np := by
    rintro w r w' ⟨h, rfl⟩ hr
    have hmax : (i : ℤ) < w.net.max := by
      by_contra hge
      have hcheck : ¬ (0 ≤ (i : ℤ) ∧ (i : ℤ) < w.net.max) := fun h => hge h.2
      simp only [socketOf, Prog.bind_apply, Prog.read_apply, Prog.check, if_neg hcheck,
        Prog.fault_apply] at hr
      cases hr
    obtain ⟨_, ⟨hinv, rfl⟩, ⟨rfl, hnone, ha⟩ | ⟨c, rfl, hc, ha⟩⟩ :=
      (does_socketOf (Int.natCast_nonneg i) hmax).ok ⟨h, rfl⟩ hr
    · rw [Int.toNat_natCast] at hnone
      exact ⟨by rw [hnone]; rfl, ⟨hinv, by rw [ha]; rfl⟩, congrArg Abs.np ha⟩
    · rw [Int.toNat_natCast] at hc
      exact ⟨by rw [hc]; rfl, ⟨hinv, by rw [ha]⟩, congrArg Abs.np ha⟩
  exact twins_of_still hrun hrun (fun _ _ h => h) (Silent.socketOf i).uses (Silent.socketOf i).uses

/-! ## The queue of the slot -/

variable {b : Chunk} {q : List Chunk}

/-- The nodes at the head differ in their links alone. -/
theorem twins_headNode :
    Twins P i (headNode i) (headNode i) (.holds (some c)) fun r r' y => y = .holds (some c) ∧
      ((r = none ∧ r' = none ∧ c.queue = []) ∨
        ∃ n next q, r = some n ∧ r' = some { n with next } ∧ c.queue = n.toChunk :: q) := by
  rintro w w' ⟨⟨h, hc⟩, ⟨h', hc'⟩, hos, hl⟩ r w₁ r' w₁' hr hr'
  obtain ⟨_, ⟨hinv, rfl⟩, ha, hn⟩ := (does_headNode hc).ok ⟨h, rfl⟩ hr
  obtain ⟨_, ⟨hinv', rfl⟩, ha', hn'⟩ := (does_headNode hc').ok ⟨h', rfl⟩ hr'
  have hnp : w₁.np = w.np := congrArg Abs.np ha
  have hnp' : w₁'.np = w'.np := congrArg Abs.np ha'
  refine ⟨_, ⟨rfl, ?_⟩, ⟨hinv, ha ▸ hc⟩, ⟨hinv', ha' ▸ hc'⟩, ?_, by rwa [hnp, hnp']⟩
  · rcases hq : c.queue with _ | ⟨b, q⟩ <;> rw [hq] at hn hn'
    · exact .inl ⟨Option.map_eq_none_iff.mp hn, Option.map_eq_none_iff.mp hn', rfl⟩
    · obtain ⟨n, rfl, rfl⟩ := Option.map_eq_some_iff.mp hn
      obtain ⟨n', rfl, hchunk⟩ := Option.map_eq_some_iff.mp hn'
      refine .inr ⟨n, n'.next, q, rfl, ?_, rfl⟩
      rw [← hchunk]
  · rw [Os.Alike, (Silent.headNode i).uses w r w₁ hr, (Silent.headNode i).uses w' r' w₁' hr']
    exact hos

/-- The first chunk of the queue is changed alike. -/
theorem twins_setHead {f : SBuffer → SBuffer} (g : Chunk → Chunk) (hq : c.queue = b :: q)
    (hfg : ∀ n, (f n).toChunk = g n.toChunk) (hnext : ∀ n, (f n).next = n.next) :
    Twins P i (setHead i f) (setHead i f) (.holds (some c))
      (Gives () (.holds (some { c with queue := g b :: q }))) :=
  twins_of_does (fun a hc => (does_setHead g hc hq hfg hnext).mono fun _ _ h =>
    ⟨rfl, by rw [h, Abs.set_slot_self], by rw [h]; rfl⟩) (Silent.setHead i f).uses

/-- It is taken off. -/
theorem twins_popHead (hq : c.queue = b :: q) :
    Twins P i (popHead i) (popHead i) (.holds (some c))
      (Gives () (.holds (some { c with queue := q }))) :=
  twins_of_does (fun a hc => (does_popHead hc hq).mono fun _ _ h =>
    ⟨rfl, by rw [h, Abs.set_slot_self], by rw [h]; rfl⟩) (Silent.popHead i).uses

/-- A first chunk is queued, at any address. -/
theorem twins_startQueue (b : Chunk) :
    Twins P i (startQueue i b) (startQueue i b) (.holds (some c))
      (Gives () (.holds (some { c with queue := [b] }))) :=
  twins_of_does (fun a hc => (does_startQueue b hc).mono fun _ _ h =>
    ⟨rfl, by rw [h, Abs.set_slot_self], by rw [h]; rfl⟩) (Uses.startQueue i b)

/-- A chunk is queued behind the others. -/
theorem twins_appendQueue (b : Chunk) (hq : c.queue ≠ []) :
    Twins P i (appendQueue i b) (appendQueue i b) (.holds (some c))
      (Gives () (.holds (some { c with queue := c.queue ++ [b] }))) :=
  twins_of_does (fun a hc => (does_appendQueue b hc hq).mono fun _ _ h =>
    ⟨rfl, by rw [h, Abs.set_slot_self], by rw [h]; rfl⟩) (Uses.appendQueue i b)

/-! ## The poller -/

/-- A request for the slot returns the same, and leaves the same pointing at the slot. -/
theorem twins_issue (r : Request) (old : Mask) (hr : r.ud = i) :
    Twins P i (poller (r.issue B old)) (poller (r.issue B old)) (.holds (some c))
      (Same (.holds (some c))) := by
  subst hr
  have hknown (s : σ × Os) : Prog.wp (r.issue B old)
      (fun _ t => ∀ u, B.known t.1 u → B.known s.1 u ∨ u = r.ud) (fun e _ => e.OfPoller) s := by
    unfold Request.issue
    split
    · exact Prog.wp_mono (B.known_del _ s) fun _ _ h u hu => .inl (h u hu)
    · split
      · exact B.known_add _ _ _ s
      · exact B.known_mod _ _ _ s
  have hrun : ∀ w v w', (View.holds (some c)).Of B r.ud w → poller (r.issue B old) w = (.ok v, w') →
      (View.holds (some c)).Of B r.ud w' := by
    rintro w v w' ⟨h, hc⟩ hv
    have hi : r.ud < w.net.max := Rep.lt_max ⟨h, rfl⟩ hc
    have hdoes : Does B (poller (r.issue B old)) w.abs fun v a' => ∃ o o' np,
        r.issue B old (w.abs.np, o) = (.ok v, (np, o')) ∧ a' = { w.abs with np } := by
      apply does_poller
      intro s hs
      apply Prog.wp_mono (hknown s)
      intro _ t ht u hu
      rcases ht u hu with hu | rfl
      · exact hs u hu
      · exact hi
    obtain ⟨_, ⟨hinv, rfl⟩, _, _, np, -, ha⟩ := hdoes.ok ⟨h, rfl⟩ hv
    exact ⟨hinv, (congrFun (congrArg Abs.slot ha) r.ud).trans hc⟩
  -- what the two pollers have for the slot stays alike
  have hsame : Prog.Matches ((View.holds (some c)).Both P r.ud) (poller (r.issue B old))
      (poller (r.issue B old)) fun v v' w w' => v = v' ∧ P.Beside r.ud (w.np, w.os) (w'.np, w'.os) :=
    .zoom (P.request r old r.ud) (fun _ _ h => ⟨h.2.2.2, h.2.2.1⟩) fun _ _ _ _ _ _ _ h => h
  intro w w' hw v w₁ v' w₁' hv hv'
  obtain ⟨heq, hnp, hos⟩ := hsame w w' hw v w₁ v' w₁' hv hv'
  exact ⟨_, ⟨heq, rfl⟩, hrun w v w₁ hw.1 hv, hrun w' v' w₁' hw.2.1 hv', hos, hnp⟩

/-- `_subscribe`. -/
theorem twins_subscribe (mask : Mask) :
    Twins P i (subscribe B i mask) (subscribe B i mask) (.holds (some c)) fun r r' y =>
      r = r' ∧ ∃ m, y = .holds (some { c with mask := m }) := by
  apply Twins.bind twins_slotAt
  rintro s _ _ ⟨⟨head, tail, rfl⟩, hs, -, rfl⟩
  refine .ite Iff.rfl (fun _ => .pure ⟨rfl, c.mask, rfl⟩) fun _ => ?_
  have hpoll : Twins P i (poller ((Request.mk s.fd mask i).issue B s.mask))
      (poller ((Request.mk s.fd mask i).issue B s.mask)) (.holds (some c)) (Same (.holds (some c))) :=
    twins_issue _ _ rfl
  apply Twins.bind hpoll
  rintro r _ _ ⟨rfl, rfl⟩
  apply Twins.bind (twins_emit _ _)
  rintro _ _ _ ⟨rfl, rfl⟩
  refine .ite Iff.rfl (fun _ => ?_) fun _ => .pure ⟨rfl, c.mask, rfl⟩
  refine .bind (twins_setSlot (fun c => { c with mask }) (fun _ _ => rfl) (fun _ => ⟨rfl, rfl⟩)
    id rfl) ?_
  rintro _ _ _ ⟨rfl, rfl, rfl⟩
  exact .pure ⟨rfl, mask, rfl⟩

end Lsocket
