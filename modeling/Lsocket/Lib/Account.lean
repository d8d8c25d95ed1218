import Lsocket.Lib.Prog
import Mathlib.Algebra.Group.Basic

/-!
# Accounts

A quantity that is read off the state, such as how many resources are in hand, and by how much a program
changes it when it returns (`Adds`). The rules follow the structure of programs, so the account of a
program is put together from those of its parts. Of a program that stops with a fault nothing is said.
-/

namespace Prog

variable {F S α β M : Type} [AddCommGroup M] {μ : S → M}

/-- When the program returns, it has added `k` of its value to the account. -/
def Adds (μ : S → M) (p : Prog F S α) (k : α → M) : Prop :=
  ∀ s a s', p s = (.ok a, s') → μ s' = μ s + k a

/-- When the program returns, the account is as before. -/
abbrev Keeps (μ : S → M) (p : Prog F S α) : Prop := Adds μ p fun _ => 0

namespace Adds

variable {p q : Prog F S α} {f : α → Prog F S β} {k : α → M} {l : β → M}

protected theorem pure {a : α} (h : k a = 0) : Adds μ (Pure.pure a : Prog F S α) k := by
  intro s b s' hr
  obtain ⟨ha, rfl⟩ := Prod.mk.inj hr
  obtain rfl := Except.ok.inj ha
  rw [h, add_zero]

/-- What the first part has added counts for the second. -/
protected theorem bind (hp : Adds μ p k) (hf : ∀ a, Adds μ (f a) fun b => l b - k a) :
    Adds μ (p >>= f) l := by
  intro s b s' hr
  rw [bind_apply] at hr
  rcases hp' : p s with ⟨e | a, s₁⟩ <;> rw [hp'] at hr
  · cases hr
  · rw [hf a s₁ b s' hr, hp s a s₁ hp', add_assoc, add_sub_cancel]

/-- The first part adds nothing. -/
theorem seq (hp : Keeps μ p) (hf : ∀ a, Adds μ (f a) l) : Adds μ (p >>= f) l :=
  .bind hp fun a => by simpa only [sub_zero] using hf a

/-- The first part is a value. -/
theorem pure_bind {a : α} (h : Adds μ (f a) l) : Adds μ (Pure.pure a >>= f) l := h

protected theorem map {g : α → β} (hp : Adds μ p fun a => l (g a)) : Adds μ (g <$> p) l :=
  .bind hp fun _ => .pure (sub_self _)

protected theorem ite {c : Prop} [Decidable c] (hp : c → Adds μ p k) (hq : ¬ c → Adds μ q k) :
    Adds μ (if c then p else q) k := by
  split
  · next h => exact hp h
  · next h => exact hq h

protected theorem fault (e : F) : Adds μ (Prog.fault e : Prog F S α) k := by
  intro s a s' hr
  cases hr

protected theorem read (g : S → α) : Keeps (F := F) μ (Prog.read g) := by
  intro s a s' hr
  obtain ⟨-, rfl⟩ := Prod.mk.inj hr
  exact (add_zero _).symm

protected theorem write {g : S → S} {m : M} (h : ∀ s, μ (g s) = μ s + m) :
    Adds (F := F) μ (Prog.write g) fun _ => m := by
  intro s a s' hr
  obtain ⟨-, rfl⟩ := Prod.mk.inj hr
  exact h s

protected theorem check (c : Prop) [Decidable c] (e : F) : Keeps (S := S) μ (Prog.check c e) :=
  .ite (fun _ => .pure rfl) fun _ => .fault e

protected theorem demand (o : Option α) (e : F) : Keeps (S := S) μ (Prog.demand o e) := by
  cases o with
  | none => exact .fault e
  | some a => exact .pure rfl

/-- A program on a part of the state that the account does not read. -/
protected theorem zoom {T : Type} {get : S → T} {put : T → S → S} {r : Prog F T α}
    (h : ∀ t s, μ (put t s) = μ s) : Keeps μ (Prog.zoom get put r) := by
  intro s a s' hr
  obtain ⟨-, rfl⟩ := Prod.mk.inj hr
  rw [h, add_zero]

end Adds

end Prog
