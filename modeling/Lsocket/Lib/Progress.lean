import Lsocket.Lib.System
import Mathlib.Order.Monotone.Basic

/-!
# Endless runs

What happens at last in a run that goes on for ever. A rule by rank: as long as something is waited for,
a rank does not grow, and steps by which it falls come again and again (`Endless.leads`).
-/

namespace System

variable {S L : Type} {T : System S L}

/-- A run without an end. -/
structure Endless (T : System S L) where
  state : ℕ → S
  label : ℕ → L
  init : T.init (state 0)
  step : ∀ n, T.step (state n) (label n) (state (n + 1))

namespace Endless

variable (r : T.Endless) {P Q : S → Prop} {n m : ℕ}

/-- Every state of an endless run is reached. -/
theorem reach (n : ℕ) : T.Reach (r.state n) := by
  induction n with
  | zero => exact .init r.init
  | succ n ih => exact .step ih (r.step n)

/-- What is kept until something happens is kept for ever if that never happens. -/
theorem keeps (hstep : ∀ s l s', T.Reach s → T.step s l s' → P s → P s' ∨ Q s') (hn : P (r.state n))
    (hno : ∀ m > n, ¬ Q (r.state m)) : ∀ m ≥ n, P (r.state m) := by
  intro m hm
  induction m, hm using Nat.le_induction with
  | base => exact hn
  | succ m hm ih =>
    exact (hstep _ _ _ (r.reach m) (r.step m) ih).resolve_right (hno (m + 1) (Nat.lt_succ_of_le hm))

/-- A rank that never grows does not fall again and again. -/
theorem not_falls {rank : S → ℕ} (h : ∀ m ≥ n, rank (r.state (m + 1)) ≤ rank (r.state m))
    (hfalls : ∀ k ≥ n, ∃ m ≥ k, rank (r.state (m + 1)) < rank (r.state m)) : False := by
  induction hr : rank (r.state n) using Nat.strong_induction_on generalizing n with
  | _ x ih =>
    obtain ⟨m, hm, hlt⟩ := hfalls n le_rfl
    have hle : rank (r.state m) ≤ rank (r.state n) :=
      Nat.rel_of_forall_rel_succ_of_le_of_le (f := fun k => rank (r.state k)) (· ≥ ·) h le_rfl hm
    refine ih (rank (r.state (m + 1))) (by omega) (fun k hk => h k (by omega)) (fun k hk => ?_) rfl
    exact hfalls k (by omega)

/-- If every step keeps `P` without raising a rank, or ends in `Q`, and if `P` cannot last without steps
that lower the rank, then `Q` comes after `P`. -/
theorem leads (rank : S → ℕ) (progress : S → S → Prop)
    (hstep : ∀ s l s', T.Reach s → T.step s l s' → P s →
      (P s' ∧ rank s' ≤ rank s ∧ (progress s s' → rank s' < rank s)) ∨ Q s')
    (hfair : ∀ n, (∀ m ≥ n, P (r.state m)) → ∃ m ≥ n, progress (r.state m) (r.state (m + 1)))
    (hn : P (r.state n)) : ∃ m > n, Q (r.state m) := by
  by_contra hno
  push Not at hno
  have hkept : ∀ m ≥ n, P (r.state m) :=
    r.keeps (fun s l s' hs hl hp => (hstep s l s' hs hl hp).imp_left And.left) hn hno
  have hranks (m : ℕ) (hm : m ≥ n) := (hstep _ _ _ (r.reach m) (r.step m) (hkept m hm)).resolve_right
    (hno (m + 1) (Nat.lt_succ_of_le hm))
  refine r.not_falls (fun m hm => (hranks m hm).2.1) fun k hk => ?_
  obtain ⟨m, hm, hprogress⟩ := hfair k fun m hm => hkept m (hk.trans hm)
  exact ⟨m, hm, (hranks m (hk.trans hm)).2.2 hprogress⟩

end Endless

end System
