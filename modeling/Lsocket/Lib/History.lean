import Mathlib.Tactic.Common

/-!
# Logs

A log is a list of events with the newest first. `History P` says that every event of a log stood in
the relation `P` to what was in the log before it.
-/

section History

variable {α β : Type}

/-- Every event satisfies `P` with its past. -/
def History (P : α → List α → Prop) : List α → Prop
  | [] => True
  | e :: past => P e past ∧ History P past

namespace History

variable {P : α → List α → Prop} {e : α} {l l' evs : List α}

@[simp] theorem nil : History P [] := trivial

@[simp] theorem cons_iff : History P (e :: l) ↔ P e l ∧ History P l := Iff.rfl

/-- A log can be checked event by event. -/
instance decidable [∀ e l, Decidable (P e l)] : (l : List α) → Decidable (History P l)
  | [] => inferInstanceAs (Decidable True)
  | e :: l =>
    have := decidable l
    inferInstanceAs (Decidable (P e l ∧ History P l))

/-- New events that are admissible whatever came before them. -/
theorem append (h : History P l) (hevs : ∀ e ∈ evs, ∀ past, P e past) : History P (evs ++ l) := by
  induction evs with
  | nil => exact h
  | cons e evs ih =>
    exact ⟨hevs e List.mem_cons_self _, ih fun x hx => hevs x (List.mem_cons_of_mem _ hx)⟩

/-- The past of a log. -/
theorem of_append (h : History P (evs ++ l)) : History P l := by
  induction evs with
  | nil => exact h
  | cons e evs ih => exact ih h.2

/-- The relation of an event to its past, at any place of the log. -/
theorem at_event (h : History P (l' ++ e :: l)) : P e l :=
  h.of_append.1

end History

/-- A function of the log that does not look at events in `p`. -/
def Ignores (f : List α → β) (p : α → Prop) : Prop := ∀ e l, p e → f (e :: l) = f l

/-- What a function ignores it does not see, however much of it there is. -/
theorem Ignores.append {f : List α → β} {p : α → Prop} (h : Ignores f p) {evs l : List α}
    (hevs : ∀ e ∈ evs, p e) : f (evs ++ l) = f l := by
  induction evs with
  | nil => rfl
  | cons e evs ih =>
    rw [List.cons_append, h e _ (hevs e List.mem_cons_self)]
    exact ih fun x hx => hevs x (List.mem_cons_of_mem _ hx)

end History
