import Lsocket.Lib.Prog

/-!
# Two programs side by side

`Matches R p q Q` compares runs of two programs from states in the relation `R`: whenever both return,
their values and their states are in `Q`. A run that ends with a fault is not compared with anything.
The rules below follow two programs step by step as long as they have the same shape.
-/

namespace Prog

variable {F F' S T S' T' α β γ δ : Type} {R : S → T → Prop}

/-- Run from related states, two programs that both return end in `Q`. -/
def Matches (R : S → T → Prop) (p : Prog F S α) (q : Prog F' T β)
    (Q : α → β → S → T → Prop) : Prop :=
  ∀ s t, R s t → ∀ v s' w t', p s = (.ok v, s') → q t = (.ok w, t') → Q v w s' t'

namespace Matches

variable {p : Prog F S α} {q : Prog F' T β} {f : α → Prog F S γ} {g : β → Prog F' T δ}
variable {Q Q' : α → β → S → T → Prop} {U : γ → δ → S → T → Prop}

/-- Values that match. -/
theorem pure {v : α} {w : β} (h : ∀ s t, R s t → Q v w s t) :
    Matches R (Pure.pure v : Prog F S α) (Pure.pure w : Prog F' T β) Q := by
  rintro s t hR _ _ _ _ ⟨⟩ ⟨⟩
  exact h s t hR

/-- The rule for sequences. -/
theorem bind (hp : Matches R p q Q) (hf : ∀ v w, Matches (Q v w) (f v) (g w) U) :
    Matches R (p >>= f) (q >>= g) U := by
  intro s t hR v s'' w t'' hs ht
  rw [bind_apply] at hs ht
  rcases hps : p s with ⟨e | a, s'⟩ <;> rw [hps] at hs
  · cases hs
  rcases hqt : q t with ⟨e | b, t'⟩ <;> rw [hqt] at ht
  · cases ht
  exact hf a b s' t' (hp s t hR a s' b t' hps hqt) v s'' w t'' hs ht

/-- The rule of consequence. -/
theorem mono (h : Matches R p q Q) (hQ : ∀ v w s t, Q v w s t → Q' v w s t) :
    Matches R p q Q' :=
  fun s t hR v s' w t' hs ht => hQ v w s' t' (h s t hR v s' w t' hs ht)

/-- A choice that both programs make in the same way. -/
theorem ite {c d : Prop} [Decidable c] [Decidable d] {p' : Prog F S α} {q' : Prog F' T β}
    (hcd : c ↔ d) (hp : c → Matches R p q Q) (hq : ¬ c → Matches R p' q' Q) :
    Matches R (if c then p else p') (if d then q else q') Q := by
  by_cases hc : c
  · rw [if_pos hc, if_pos (hcd.mp hc)]
    exact hp hc
  · rw [if_neg hc, if_neg (hcd.not.mp hc)]
    exact hq hc

/-- A program that faults matches anything: nothing is said of the runs that do not return. -/
theorem fault_left {e : F} : Matches R (fault e : Prog F S α) q Q := by
  rintro s t - v s' w t' ⟨⟩

theorem fault_right {e : F'} : Matches R p (fault e : Prog F' T β) Q := by
  rintro s t - v s' w t' - ⟨⟩

/-- Checks that pass on both sides; if one of them fails, there is nothing to show. -/
theorem check {c d : Prop} [Decidable c] [Decidable d] {e : F} {e' : F'}
    {Q : Unit → Unit → S → T → Prop} (h : c → d → ∀ s t, R s t → Q () () s t) :
    Matches R (Prog.check c e) (Prog.check d e') Q := by
  unfold Prog.check
  by_cases hc : c
  · by_cases hd : d
    · rw [if_pos hc, if_pos hd]
      exact .pure fun s t => h hc hd s t
    · rw [if_neg hd]
      exact fault_right
  · rw [if_neg hc]
    exact fault_left

/-- What is read on the two sides matches. -/
theorem read {x : S → α} {y : T → β} (h : ∀ s t, R s t → Q (x s) (y t) s t) :
    Matches R (Prog.read x : Prog F S α) (Prog.read y : Prog F' T β) Q := by
  rintro s t hR _ _ _ _ ⟨⟩ ⟨⟩
  exact h s t hR

/-- Writes that keep the relation. -/
theorem write {x : S → S} {y : T → T} {Q : Unit → Unit → S → T → Prop}
    (h : ∀ s t, R s t → Q () () (x s) (y t)) :
    Matches R (Prog.write x : Prog F S Unit) (Prog.write y : Prog F' T Unit) Q := by
  rintro s t hR _ _ _ _ ⟨⟩ ⟨⟩
  exact h s t hR

/-- Two programs on parts of the states. -/
theorem zoom {R' : S' → T' → Prop} {p : Prog F S' α} {q : Prog F' T' β}
    {Q' : α → β → S' → T' → Prop} {get : S → S'} {put : S' → S → S} {get' : T → T'}
    {put' : T' → T → T} (h : Matches R' p q Q') (hR : ∀ s t, R s t → R' (get s) (get' t))
    (hQ : ∀ s t v w x y, R s t → Q' v w x y → Q v w (put x s) (put' y t)) :
    Matches R (Prog.zoom get put p) (Prog.zoom get' put' q) Q := by
  intro s t hst v s' w t' hs ht
  unfold Prog.zoom at hs ht
  rcases hp : p (get s) with ⟨r, x⟩
  rcases hq : q (get' t) with ⟨r', y⟩
  rw [hp] at hs
  rw [hq] at ht
  obtain ⟨rfl, rfl⟩ := Prod.mk.inj hs
  obtain ⟨rfl, rfl⟩ := Prod.mk.inj ht
  exact hQ s t v w x y hst (h _ _ (hR s t hst) v x w y hp hq)

end Matches

end Prog
