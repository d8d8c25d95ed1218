import Mathlib.Data.List.Infix
import Mathlib.Data.List.Flatten

/-!
# Messages that end in a separator

A sequence of messages, each followed by a separator that occurs in none of them. Whole messages at the
beginning of such a sequence are its first ones (`split`).
-/

namespace Frames

variable {α : Type} {sep : α} {m : List α} {ms ps : List (List α)} {rest rest' : List α}

/-- The messages, each with the separator behind it. -/
def frames (sep : α) (ms : List (List α)) : List α := ms.flatMap fun m => m ++ [sep]

@[simp] theorem frames_nil : frames sep [] = [] := rfl

@[simp] theorem frames_cons : frames sep (m :: ms) = m ++ sep :: frames sep ms := by
  simp [frames]

/-- Two sequences begin with the same message. -/
theorem head_eq {p : List α} (hm : sep ∉ m) (hp : sep ∉ p) (h : p ++ sep :: rest = m ++ sep :: rest') :
    p = m ∧ rest = rest' := by
  induction p generalizing m with
  | nil =>
    cases m with
    | nil => exact ⟨rfl, (List.cons.inj h).2⟩
    | cons x m => exact absurd ((List.cons.inj h).1 ▸ List.mem_cons_self) hm
  | cons y p ih =>
    cases m with
    | nil => exact absurd ((List.cons.inj h).1 ▸ List.mem_cons_self) hp
    | cons x m =>
      obtain ⟨rfl, htail⟩ := List.cons.inj h
      obtain ⟨rfl, hrest⟩ := ih (List.not_mem_of_not_mem_cons hm) (List.not_mem_of_not_mem_cons hp) htail
      exact ⟨rfl, hrest⟩

/-- Whole messages at the beginning of a sequence are its first messages, and the rest is the sequence of
the others. -/
theorem split (hms : ∀ m ∈ ms, sep ∉ m) (hps : ∀ p ∈ ps, sep ∉ p)
    (h : frames sep ps ++ rest = frames sep ms) : ∃ qs, ms = ps ++ qs ∧ rest = frames sep qs := by
  induction ps generalizing ms with
  | nil => exact ⟨ms, rfl, h⟩
  | cons p ps ih =>
    cases ms with
    | nil => simp at h
    | cons m ms =>
      rw [List.forall_mem_cons] at hms hps
      rw [frames_cons, frames_cons, List.append_assoc, List.cons_append] at h
      obtain ⟨rfl, htail⟩ := head_eq hms.1 hps.1 h
      obtain ⟨qs, rfl, hrest⟩ := ih hms.2 hps.2 htail
      exact ⟨qs, rfl, hrest⟩

end Frames
