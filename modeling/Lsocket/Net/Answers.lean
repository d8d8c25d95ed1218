import Lsocket.Net.Slots

/-!
# Answers in order

A program is specified by what it does to the net that a world represents, whatever the system
answers. Where it matters which answer a call gets, the answers to come are part of what is
represented: `DoesWith` speaks of a net and of a list of answers. Programs that call nothing leave
the list alone (`Silent`).
-/

namespace Lsocket

variable {σ α β : Type} {B : Backend σ} {a : Abs σ} {rs : List Reply} {i : ℕ} {c : Conn}

/-- The world represents the net, and these are the answers to come. -/
def RepWith (B : Backend σ) (w : World σ) (x : Abs σ × List Reply) : Prop :=
  Rep B w x.1 ∧ w.os.replies = x.2

/-- A program does `Q` to a net and to the answers to come. -/
abbrev DoesWith (B : Backend σ) (p : NetM σ α) (x : Abs σ × List Reply)
    (Q : α → Abs σ × List Reply → Prop) : Prop :=
  Prog.Refines (RepWith B) Fault.Outside p x Q

/-- A program that makes no call to the system. -/
def Silent (p : NetM σ α) : Prop := ∀ w, (p w).2.os = w.os

/-! ## From programs on nets -/

/-- Any answers are used. -/
theorem doesWith_any {p : NetM σ α} {Q : α → Abs σ → Prop} (h : Does B p a Q) :
    DoesWith B p (a, rs) fun v x => Q v x.1 := by
  rintro w ⟨hw, -⟩
  refine Prog.wp_mono (h w hw) ?_
  rintro v w' ⟨a', hw', hv⟩
  exact ⟨(a', w'.os.replies), ⟨hw', rfl⟩, hv⟩

/-- No answers are used. -/
theorem doesWith_same {p : NetM σ α} {Q : α → Abs σ → Prop} (h : Does B p a Q)
    (hp : Silent p) : DoesWith B p (a, rs) fun v x => Q v x.1 ∧ x.2 = rs := by
  rintro w ⟨hw, hrs⟩
  have hos := hp w
  have hwp := h w hw
  unfold Prog.wp at hwp ⊢
  rcases hr : p w with ⟨e | v, w'⟩ <;> rw [hr] at hwp hos
  · exact hwp
  · obtain ⟨a', hw', hv⟩ := hwp
    refine ⟨(a', rs), ⟨hw', ?_⟩, hv, rfl⟩
    rw [show w'.os = w.os from hos, hrs]

/-- The rule for sequences, where the first program uses no answers. -/
theorem doesWith_bind {p : NetM σ α} {f : α → NetM σ β} {Q : α → Abs σ → Prop}
    {T : β → Abs σ × List Reply → Prop} (h : Does B p a Q) (hp : Silent p)
    (hf : ∀ v a', Q v a' → DoesWith B (f v) (a', rs) T) : DoesWith B (p >>= f) (a, rs) T := by
  refine .bind (doesWith_same h hp) ?_
  rintro v ⟨a', rs'⟩ ⟨hv, hrs⟩
  obtain rfl : rs' = rs := hrs
  exact hf v a' hv

/-- What is done with these answers, beside what is done with any. -/
theorem doesWith_and {p : NetM σ α} {Q : α → Abs σ × List Reply → Prop} {Q' : α → Abs σ → Prop}
    (h : DoesWith B p (a, rs) Q) (h' : Does B p a Q') :
    DoesWith B p (a, rs) fun v x => Q v x ∧ Q' v x.1 := by
  refine h.and ?_ (doesWith_any h')
  rintro w ⟨a, rs⟩ ⟨a', rs'⟩ ⟨⟨-, rfl⟩, rfl⟩ ⟨⟨-, rfl⟩, rfl⟩
  rfl

/-- What is done with all answers is done. -/
theorem does_of_with {p : NetM σ α} {Q : α → Abs σ → Prop}
    (h : ∀ rs, DoesWith B p (a, rs) fun v x => Q v x.1) : Does B p a Q := by
  intro w hw
  refine Prog.wp_mono (h w.os.replies w ⟨hw, rfl⟩) ?_
  rintro v w' ⟨x, hx, hv⟩
  exact ⟨x.1, hx.1, hv⟩

/-- A call takes the next answer. -/
theorem doesWith_call (ok : Reply → Prop) [DecidablePred ok] :
    DoesWith B (call ok) (a, rs) fun r x => ok r ∧ x.1 = a ∧ rs = r :: x.2 := by
  rintro w ⟨⟨h, rfl⟩, rfl⟩
  refine (Prog.wp_zoom ..).mpr ?_
  unfold Prog.wp sys
  rcases hrs : w.os.replies with _ | ⟨r, rs⟩
  · exact Fault.outside_stuck
  · by_cases hr : ok r
    · simp only [if_pos hr]
      exact ⟨(w.abs, rs), ⟨Rep.frame ⟨h, rfl⟩ w.np _ w.net.err w.log h.known, rfl⟩, hr, rfl, rfl⟩
    · simp only [if_neg hr]
      exact Fault.outside_stuck

/-- A call of the poller, as `does_poller` has it, with the answers that it takes. -/
theorem doesWith_poller {p : Prog Fault (σ × Os) α}
    (hk : ∀ s, (∀ u, B.known s.1 u → u < a.max) →
      Prog.wp p (fun _ t => ∀ u, B.known t.1 u → u < a.max) (fun e _ => e.OfPoller) s) :
    DoesWith B (poller p) (a, rs) fun v x => ∃ errno o' np,
      p (a.np, ⟨rs, errno⟩) = (.ok v, (np, o')) ∧ x = ({ a with np }, o'.replies) := by
  rintro w ⟨⟨h, rfl⟩, rfl⟩
  refine (Prog.wp_zoom ..).mpr ?_
  have hp := hk (w.np, w.os) h.known
  unfold Prog.wp at hp ⊢
  rcases hr : p (w.np, w.os) with ⟨e | v, np, o⟩ <;> rw [hr] at hp
  · exact Fault.OfPoller.outside hp
  · exact ⟨_, ⟨Rep.frame ⟨h, rfl⟩ np o w.net.err w.log hp, rfl⟩, w.os.errno, o, np, hr, rfl⟩

/-! ## Programs that call nothing -/

namespace Silent

theorem pure (v : α) : Silent (σ := σ) (Pure.pure v) := fun _ => rfl

theorem bind {p : NetM σ α} {f : α → NetM σ β} (hp : Silent p) (hf : ∀ v, Silent (f v)) :
    Silent (p >>= f) := by
  intro w
  have hpw := hp w
  rcases hr : p w with ⟨e | v, w'⟩ <;> rw [hr] at hpw <;> simp only [Prog.bind_apply, hr]
  · exact hpw
  · exact (hf v w').trans hpw

theorem ite {P : Prop} [Decidable P] {p q : NetM σ α} (hp : Silent p) (hq : Silent q) :
    Silent (if P then p else q) := by
  split
  · exact hp
  · exact hq

theorem fault (e : Fault) : Silent (σ := σ) (Prog.fault e : NetM σ α) := fun _ => rfl

theorem read (f : World σ → α) : Silent (Prog.read f) := fun _ => rfl

theorem check (P : Prop) [Decidable P] (e : Fault) : Silent (σ := σ) (Prog.check P e) :=
  ite (pure ()) (fault e)

theorem demand (o : Option α) (e : Fault) : Silent (σ := σ) (Prog.demand o e) := by
  cases o with
  | none => exact fault e
  | some v => exact pure v

/-- A change of the world that leaves the answers alone. -/
theorem write (f : World σ → World σ) (hf : ∀ w, (f w).os = w.os) : Silent (Prog.write f) :=
  fun w => hf w

theorem emit (e : Ev) : Silent (σ := σ) (Lsocket.emit e) := write _ fun _ => rfl

theorem setErr (err : ℤ) : Silent (σ := σ) (Lsocket.setErr err) := write _ fun _ => rfl

theorem slotAt (i : ℕ) : Silent (σ := σ) (Lsocket.slotAt i) :=
  bind (read _) fun _ => bind (check _ _) fun _ => pure _

theorem setSlot (i : ℕ) (f : Socket → Socket) : Silent (σ := σ) (Lsocket.setSlot i f) :=
  bind (read _) fun _ => bind (check _ _) fun _ => write _ fun _ => rfl

theorem freeData (b : Option ℕ) : Silent (σ := σ) (Lsocket.freeData b) := by
  cases b with
  | none => exact pure ()
  | some token => exact emit _

theorem socketOf (id : ℤ) : Silent (σ := σ) (Lsocket.socketOf id) :=
  bind (read _) fun _ => bind (check _ _) fun _ => bind (slotAt _) fun _ =>
    ite (pure _) (bind (setErr _) fun _ => pure _)

theorem createSocket (fd slimit udata protocol : ℤ) :
    Silent (σ := σ) (Lsocket.createSocket fd slimit udata protocol) := by
  refine .bind (.check _ _) fun _ => .bind (.read _) fun n => ?_
  rcases n.freeSocket with _ | i
  · exact .bind (.emit _) fun _ => .pure _
  · exact .bind (.slotAt _) fun _ => .bind (.write _ fun _ => rfl) fun _ => .bind (.setSlot _ _)
      fun _ => .bind (.emit _) fun _ => .pure _

theorem nodeAt (p : Option ℕ) : Silent (σ := σ) (Lsocket.nodeAt p) :=
  bind (read _) fun _ => demand _ _

theorem headNode (i : ℕ) : Silent (σ := σ) (Lsocket.headNode i) := by
  refine bind (slotAt i) fun s => ?_
  rcases s.head with _ | p
  · exact pure _
  · exact bind (nodeAt _) fun _ => pure _

theorem setHead (i : ℕ) (f : SBuffer → SBuffer) : Silent (σ := σ) (Lsocket.setHead i f) :=
  bind (slotAt i) fun _ => bind (demand _ _) fun _ => bind (nodeAt _) fun _ => write _ fun _ => rfl

theorem popHead (i : ℕ) : Silent (σ := σ) (Lsocket.popHead i) :=
  bind (slotAt i) fun _ => bind (demand _ _) fun _ => bind (nodeAt _) fun _ =>
    bind (setSlot _ _) fun _ => bind (freeData _) fun _ => write _ fun _ => rfl

theorem freeQueue (i fuel : ℕ) : Silent (σ := σ) (Lsocket.freeQueue i fuel) := by
  induction fuel with
  | zero => exact fault _
  | succ fuel ih =>
    refine bind (slotAt i) fun s => ?_
    rcases s.head with _ | p
    · exact pure _
    · exact bind (nodeAt _) fun _ => bind (setSlot _ _) fun _ => bind (freeData _) fun _ =>
        bind (write _ fun _ => rfl) fun _ => ih

theorem appendFree (i : ℕ) : Silent (σ := σ) (Lsocket.appendFree i) := by
  have hlast : Silent (σ := σ) (Prog.write fun w => { w with net := { w.net with tailSocket := some i } }) :=
    write _ fun _ => rfl
  refine bind (read _) fun n => ite (bind (write _ fun _ => rfl) fun _ => hlast) ?_
  exact bind (demand _ _) fun _ => bind (slotAt _) fun _ => bind (check _ _) fun _ =>
    bind (setSlot _ _) fun _ => hlast

theorem closeSocket (B : Backend σ) (i : ℕ) : Silent (Lsocket.closeSocket B i) := by
  have hrelease : Silent (σ := σ) (releaseSlot i) :=
    bind (setSlot _ _) fun _ => bind (read _) fun _ => bind (freeQueue _ _) fun _ =>
      bind (setSlot _ _) fun _ => appendFree i
  refine bind (slotAt i) fun s => ite (pure _) (bind (emit _) fun _ => ite ?_ hrelease)
  exact bind (bind (write _ fun _ => rfl) fun _ => emit _) fun _ => hrelease

end Silent

/-! ## Programs that the outside cannot stop -/

/-- A program whose faults are all its own. -/
abbrev Inner (p : NetM σ α) : Prop := Prog.Faults (fun e => ¬ e.Outside) p

/-- The faults that the outside can cause are these. -/
theorem Fault.not_outside {e : Fault} (h₁ : e ≠ .stuck) (h₂ : e ≠ .backend) (h₃ : e ≠ .overrun) :
    ¬ e.Outside := by
  rintro (h | h | h)
  · exact h₁ h
  · exact h₂ h
  · exact h₃ h

theorem Fault.wild_inner : ¬ Fault.wild.Outside := not_outside (by decide) (by decide) (by decide)

theorem Fault.tailSocket_inner : ¬ Fault.tailSocket.Outside :=
  not_outside (by decide) (by decide) (by decide)

namespace Inner

theorem slotAt (i : ℕ) : Inner (σ := σ) (Lsocket.slotAt i) :=
  .bind (.read _) fun _ => .bind (.check Fault.wild_inner) fun _ => .pure _

theorem setSlot (i : ℕ) (f : Socket → Socket) : Inner (σ := σ) (Lsocket.setSlot i f) :=
  .bind (.read _) fun _ => .bind (.check Fault.wild_inner) fun _ => .write _

theorem socketOf (id : ℤ) : Inner (σ := σ) (Lsocket.socketOf id) := by
  have hargument : ¬ Fault.argument.Outside := Fault.not_outside (by decide) (by decide) (by decide)
  exact .bind (.read _) fun _ => .bind (.check hargument) fun _ => .bind (slotAt _) fun _ =>
    .ite (.pure _) (.bind (.write _) fun _ => .pure _)

theorem freeQueue (i fuel : ℕ) : Inner (σ := σ) (Lsocket.freeQueue i fuel) := by
  induction fuel with
  | zero => exact .fault (Fault.not_outside (by decide) (by decide) (by decide))
  | succ fuel ih =>
    refine .bind (slotAt i) fun s => ?_
    rcases s.head with _ | p
    · exact .pure _
    · refine .bind (.bind (.read _) fun _ => .demand Fault.wild_inner) fun b => ?_
      refine .bind (setSlot _ _) fun _ => .bind ?_ fun _ => .bind (.write _) fun _ => ih
      rcases b.begin with _ | token
      · exact .pure ()
      · exact .write _

theorem appendFree (i : ℕ) : Inner (σ := σ) (Lsocket.appendFree i) := by
  refine .bind (.read _) fun n => .ite (.bind (.write _) fun _ => .write _) ?_
  exact .bind (.demand Fault.tailSocket_inner) fun _ => .bind (slotAt _) fun _ =>
    .bind (.check Fault.tailSocket_inner) fun _ => .bind (setSlot _ _) fun _ => .write _

theorem closeSocket (B : Backend σ) (i : ℕ) : Inner (Lsocket.closeSocket B i) := by
  have hrelease : Inner (σ := σ) (releaseSlot i) :=
    .bind (setSlot _ _) fun _ => .bind (.read _) fun _ => .bind (freeQueue _ _) fun _ =>
      .bind (setSlot _ _) fun _ => appendFree i
  refine .bind (slotAt i) fun s => .ite (.pure _) (.bind (.write _) fun _ => .ite ?_ hrelease)
  exact .bind (.bind (.write _) fun _ => .write _) fun _ => hrelease

end Inner

/-- The rule for sequences, where the first program needs nothing from the outside. -/
theorem doesWith_inner {p : NetM σ α} {f : α → NetM σ β} {Q : α → Abs σ → Prop} {E : Fault → Prop}
    {T : β → Abs σ × List Reply → Prop} (h : Does B p a Q) (hp : Silent p) (hi : Inner p)
    (hf : ∀ v a', Q v a' → Prog.Refines (RepWith B) E (f v) (a', rs) T) :
    Prog.Refines (RepWith B) E (p >>= f) (a, rs) T := by
  refine .bind (((doesWith_same h hp).within hi).weaken fun e he => absurd he.1 he.2) ?_
  rintro v ⟨a', rs'⟩ ⟨hv, hrs⟩
  obtain rfl : rs' = rs := hrs
  exact hf v a' hv

/-- A call fails only if there is no answer that it can have. -/
theorem doesWith_answer (ok : Reply → Prop) [DecidablePred ok] :
    Prog.Refines (RepWith B) (fun _ => ¬ ∃ r rs', rs = r :: rs' ∧ ok r) (call ok) (a, rs)
      fun r x => ok r ∧ x.1 = a ∧ rs = r :: x.2 := by
  rintro w hw
  by_cases h : ∃ r rs', rs = r :: rs' ∧ ok r
  · obtain ⟨r, rs', rfl, hr⟩ := h
    obtain ⟨⟨hw, rfl⟩, hrs⟩ := hw
    refine (Prog.wp_zoom ..).mpr ?_
    unfold Prog.wp sys
    rw [hrs]
    simp only [if_pos hr]
    exact ⟨(w.abs, rs'), ⟨Rep.frame ⟨hw, rfl⟩ w.np _ w.net.err w.log hw.known, rfl⟩, hr, rfl, rfl⟩
  · exact ((doesWith_call ok).weaken fun _ _ => h) w hw

/-! ## Programs with a fixed number of calls -/

/-- A program that takes `n` answers whenever it returns. -/
def Uses (n : ℕ) (p : NetM σ α) : Prop :=
  ∀ w v w', p w = (.ok v, w') → w'.os.replies = w.os.replies.drop n

/-- A program that calls nothing takes no answer. -/
theorem Silent.uses {p : NetM σ α} (h : Silent p) : Uses 0 p := by
  intro w v w' hr
  have hw := h w
  rw [hr] at hw
  rw [List.drop_zero, show w'.os = w.os from hw]

namespace Uses

theorem call (ok : Reply → Prop) [DecidablePred ok] : Uses (σ := σ) 1 (Lsocket.call ok) := by
  intro w v w' hr
  unfold Lsocket.call Prog.zoom sys at hr
  rcases hrs : w.os.replies with _ | ⟨r, rs⟩ <;> rw [hrs] at hr
  · cases hr
  · by_cases hok : ok r
    · simp only [if_pos hok] at hr
      obtain ⟨-, rfl⟩ := Prod.mk.inj hr
      rfl
    · simp only [if_neg hok] at hr
      cases hr

theorem bind {m n : ℕ} {p : NetM σ α} {f : α → NetM σ β} (hp : Uses m p) (hf : ∀ v, Uses n (f v)) :
    Uses (m + n) (p >>= f) := by
  intro w v w' hr
  rw [Prog.bind_apply] at hr
  rcases hpw : p w with ⟨e | u, w₁⟩ <;> rw [hpw] at hr
  · cases hr
  · rw [hf u w₁ v w' hr, hp w u w₁ hpw, List.drop_drop]

theorem mallocNode (b : SBuffer) : Uses (σ := σ) 1 (Lsocket.mallocNode b) :=
  bind (m := 0) (n := 1) (Silent.read _).uses fun _ => bind (m := 1) (n := 0) (call _) fun _ =>
    Silent.uses (.bind (.write _ fun _ => rfl) fun _ => .pure _)

theorem startQueue (i : ℕ) (b : Chunk) : Uses (σ := σ) 1 (Lsocket.startQueue i b) :=
  bind (mallocNode _) fun _ => (Silent.setSlot _ _).uses

theorem appendQueue (i : ℕ) (b : Chunk) : Uses (σ := σ) 1 (Lsocket.appendQueue i b) := by
  have hrest (p : ℕ) : Silent (σ := σ) (do
      let s ← slotAt i
      let t ← Prog.demand s.tail .tail
      let last ← nodeAt (some t)
      Prog.check (last.next = none) .tail
      setNode t { last with next := some p }
      setSlot i fun s => { s with tail := some p }) :=
    .bind (.slotAt _) fun _ => .bind (.demand _ _) fun _ => .bind (.nodeAt _) fun _ =>
      .bind (.check _ _) fun _ => .bind (.write _ fun _ => rfl) fun _ => .setSlot _ _
  exact bind (mallocNode _) fun p => (hrest p).uses

end Uses

end Lsocket
