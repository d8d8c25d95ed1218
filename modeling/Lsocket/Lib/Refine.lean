import Lsocket.Lib.Prog

/-!
# Data refinement

A relation `R` says which abstract state a state represents. `Refines R E p a Q` says of the program
`p`, run from any state that represents `a`: it ends in a state that represents some `a'`, with a
value and `a'` in `Q`, or with a fault in `E`. The rules below are those of a program logic over the
abstract states alone, so that only the proofs about the primitives of a program look at what
represents them.
-/

namespace Prog

variable {F S A α β : Type} {R : S → A → Prop} {E : F → Prop} {a : A}

/-- Run from a state that represents `a`, the program ends in `Q`, or with a fault in `E`. -/
def Refines (R : S → A → Prop) (E : F → Prop) (p : Prog F S α) (a : A)
    (Q : α → A → Prop) : Prop :=
  ∀ s, R s a → wp p (fun v s' => ∃ a', R s' a' ∧ Q v a') (fun e _ => E e) s

namespace Refines

variable {p : Prog F S α} {f : α → Prog F S β} {Q Q' : α → A → Prop} {T : β → A → Prop}

/-- A value and an abstract state that are as required. -/
theorem pure {v : α} (h : Q v a) : Refines R E (Pure.pure v) a Q :=
  fun _ hs => ⟨a, hs, h⟩

/-- The rule for sequences. -/
theorem bind (hp : Refines R E p a Q) (hf : ∀ v a', Q v a' → Refines R E (f v) a' T) :
    Refines R E (p >>= f) a T := by
  intro s hs
  rw [wp_bind]
  refine wp_mono (hp s hs) ?_
  rintro v s' ⟨a', hs', hv⟩
  exact hf v a' hv s' hs'

/-- The rule of consequence. -/
theorem mono (h : Refines R E p a Q) (hQ : ∀ v a', Q v a' → Q' v a') : Refines R E p a Q' := by
  intro s hs
  refine wp_mono (h s hs) ?_
  rintro v s' ⟨a', hs', hv⟩
  exact ⟨a', hs', hQ v a' hv⟩

/-- A fault that is allowed. -/
theorem fault {e : F} (h : E e) : Refines R E (Prog.fault e) a Q :=
  fun _ _ => h

/-- An assertion that holds. -/
theorem check {Q : Unit → A → Prop} {c : Prop} [Decidable c] {e : F} (hc : c) (h : Q () a) :
    Refines R E (Prog.check c e) a Q := by
  simp only [Prog.check, if_pos hc]
  exact Refines.pure h

/-- An assertion that may fail, with a fault in `E`. -/
theorem check_or {Q : Unit → A → Prop} {c : Prop} [Decidable c] {e : F} (he : E e)
    (h : c → Q () a) : Refines R E (Prog.check c e) a Q := by
  by_cases hc : c
  · exact Refines.check hc (h hc)
  · simp only [Prog.check, if_neg hc]
    exact Refines.fault he

/-- The rule for choices. -/
theorem ite {c : Prop} [Decidable c] {q : Prog F S α} (hp : c → Refines R E p a Q)
    (hq : ¬ c → Refines R E q a Q) : Refines R E (if c then p else q) a Q := by
  split
  · exact hp ‹_›
  · exact hq ‹_›

/-- A program that has run, from a state that represents `a`. -/
theorem ok {v : α} {s s' : S} (h : Refines R E p a Q) (hs : R s a) (hp : p s = (.ok v, s')) :
    ∃ a', R s' a' ∧ Q v a' :=
  wp_ok (h s hs) hp

/-- A program that has stopped with a fault. -/
theorem error {e : F} {s s' : S} (h : Refines R E p a Q) (hs : R s a)
    (hp : p s = (.error e, s')) : E e :=
  wp_error (h s hs) hp

/-- More faults may be allowed. -/
theorem weaken {E' : F → Prop} (h : Refines R E p a Q) (hE : ∀ e, E e → E' e) :
    Refines R E' p a Q := by
  intro s hs
  have hp := h s hs
  unfold wp at hp ⊢
  rcases hr : p s with ⟨e | v, s'⟩ <;> rw [hr] at hp
  · exact hE e hp
  · exact hp

/-- The faults of the program are those that it can have at all. -/
theorem within {E' : F → Prop} (h : Refines R E p a Q) (hp : Faults E' p) :
    Refines R (fun e => E e ∧ E' e) p a Q := by
  intro s hs
  have hR := h s hs
  have hF := hp s
  unfold wp at hR hF ⊢
  rcases hr : p s with ⟨e | v, s'⟩ <;> rw [hr] at hR hF
  · exact ⟨hR, hF⟩
  · exact hR

/-- Two specifications hold together, if a state represents one abstract state at most. -/
theorem and (hR : ∀ s a a', R s a → R s a' → a = a') (h : Refines R E p a Q)
    (h' : Refines R E p a Q') : Refines R E p a fun v a' => Q v a' ∧ Q' v a' := by
  intro s hs
  have hQ := h s hs
  have hQ' := h' s hs
  unfold wp at hQ hQ' ⊢
  rcases hr : p s with ⟨e | v, s'⟩ <;> rw [hr] at hQ hQ'
  · exact hQ
  · obtain ⟨b, hb, hv⟩ := hQ
    obtain ⟨b', hb', hv'⟩ := hQ'
    obtain rfl := hR s' b b' hb hb'
    exact ⟨b, hb, hv, hv'⟩

/-- A program without faults returns. -/
theorem returns {s : S} (h : Refines R E p a Q) (hE : ∀ e, ¬ E e) (hs : R s a) :
    ∃ v s' a', p s = (.ok v, s') ∧ R s' a' ∧ Q v a' := by
  have hp := h s hs
  unfold wp at hp
  rcases hr : p s with ⟨e | v, s'⟩ <;> rw [hr] at hp
  · exact absurd hp (hE e)
  · obtain ⟨a', ha', hv⟩ := hp
    exact ⟨v, s', a', rfl, ha', hv⟩

end Refines

end Prog
