import Lsocket.Lib.Prog

/-!
# Invariants of programs that may fault

A program upholds an invariant if it ends in a state with it whenever it starts in one: when it returns,
and also when it stops with a fault, which must be one of the faults allowed. The rules follow the
structure of programs. Where a part needs to know more of the state than the invariant says, the rules at
a state (`UpholdsAt`) bring it in.
-/

namespace Prog

variable {F S α β : Type} {I J : S → Prop} {E : F → Prop}

/-- From the state `s` the program ends in a state with the invariant, with a value or a fault in `E`. -/
def UpholdsAt (I : S → Prop) (E : F → Prop) (p : Prog F S α) (s : S) : Prop :=
  wp p (fun _ t => I t) (fun e t => E e ∧ I t) s

/-- The same from every state with the invariant. -/
def Upholds (I : S → Prop) (E : F → Prop) (p : Prog F S α) : Prop := ∀ s, I s → UpholdsAt I E p s

namespace UpholdsAt

variable {p : Prog F S α} {f : α → Prog F S β} {s : S}

protected theorem bind (hp : UpholdsAt I E p s) (hf : ∀ a, Upholds I E (f a)) :
    UpholdsAt I E (p >>= f) s := by
  unfold UpholdsAt
  rw [wp_bind]
  exact wp_mono hp fun a t ht => hf a t ht

protected theorem ite {c : Prop} [Decidable c] {q : Prog F S α} (hp : c → UpholdsAt I E p s)
    (hq : ¬ c → UpholdsAt I E q s) : UpholdsAt I E (if c then p else q) s := by
  split
  · next h => exact hp h
  · next h => exact hq h

/-- A stronger invariant does for a part. -/
theorem of_stronger (hs : J s) (hp : Upholds J E p) (h : ∀ t, J t → I t) : UpholdsAt I E p s := by
  have hat := hp s hs
  unfold UpholdsAt wp at *
  rcases hr : p s with ⟨e | a, t⟩ <;> rw [hr] at hat
  · exact ⟨hat.1, h t hat.2⟩
  · exact h t hat

end UpholdsAt

namespace Upholds

variable {p q : Prog F S α} {f : α → Prog F S β} {e : F}

protected theorem pure (a : α) : Upholds I E (Pure.pure a : Prog F S α) := fun _ hs => hs

protected theorem fault (he : E e) : Upholds I E (Prog.fault e : Prog F S α) := fun _ hs => ⟨he, hs⟩

protected theorem bind (hp : Upholds I E p) (hf : ∀ a, Upholds I E (f a)) : Upholds I E (p >>= f) :=
  fun s hs => (hp s hs).bind hf

protected theorem ite {c : Prop} [Decidable c] (hp : c → Upholds I E p) (hq : ¬ c → Upholds I E q) :
    Upholds I E (if c then p else q) := fun s hs => .ite (fun h => hp h s hs) fun h => hq h s hs

protected theorem write {g : S → S} (h : ∀ s, I s → I (g s)) :
    Upholds (F := F) I E (Prog.write g) := h

protected theorem check (c : Prop) [Decidable c] (he : E e) : Upholds (S := S) I E (Prog.check c e) :=
  .ite (fun _ => .pure _) fun _ => .fault he

protected theorem demand (o : Option α) (he : E e) : Upholds (S := S) I E (Prog.demand o e) := by
  cases o with
  | none => exact .fault he
  | some a => exact .pure a

protected theorem lift {r : Except F α} (h : ∀ e, r = .error e → E e) :
    Upholds (S := S) I E (Prog.lift r) := by
  intro s hs
  cases r with
  | error e => exact ⟨h e rfl, hs⟩
  | ok a => exact hs

end Upholds

end Prog
