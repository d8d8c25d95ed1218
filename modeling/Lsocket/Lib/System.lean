import Mathlib.Tactic.Common

/-!
# Runs of a transition system

A system has initial states and steps with labels. A property of every state reached is proved from
the initial states and the steps (`Reach.invariant`).
-/

/-- A transition system with states in `S` and labels in `L`. -/
structure System (S L : Type) where
  init : S → Prop
  step : S → L → S → Prop

namespace System

variable {S L : Type} {T : System S L}

/-- The states that some run arrives in. -/
inductive Reach (T : System S L) : S → Prop
  | init {s : S} (h : T.init s) : Reach T s
  | step {s s' : S} {l : L} (h : Reach T s) (hs : T.step s l s') : Reach T s'

/-- The runs that take only steps in `P`. -/
def restrict (T : System S L) (P : S → L → S → Prop) : System S L where
  init := T.init
  step s l s' := T.step s l s' ∧ P s l s'

/-- The same steps, from a given state. -/
def startedIn (T : System S L) (s₀ : S) : System S L where
  init s := s = s₀
  step := T.step

/-- What holds in the initial states and is kept by every step from a state that is reached, holds
in all states reached. -/
theorem Reach.invariant {I : S → Prop} {s : S} (h : T.Reach s) (hinit : ∀ s, T.init s → I s)
    (hstep : ∀ s l s', T.Reach s → I s → T.step s l s' → I s') : I s := by
  induction h with
  | init h => exact hinit _ h
  | step h hs ih => exact hstep _ _ _ h ih hs

/-- A state reached by steps in `P` only is reached. -/
theorem Reach.of_restrict {P : S → L → S → Prop} {s : S} (h : (T.restrict P).Reach s) :
    T.Reach s := by
  induction h with
  | init h => exact .init h
  | step _ hs ih => exact .step ih hs.1

/-- A run may go on from a state that is reached. -/
theorem Reach.of_startedIn {s₀ s : S} (h₀ : T.Reach s₀) (h : (T.startedIn s₀).Reach s) :
    T.Reach s := by
  induction h with
  | init h => exact h ▸ h₀
  | step _ hs ih => exact .step ih hs

end System
