import Mathlib.Tactic.Common

/-!
# Sequential programs with a state and faults

`Prog F S α` runs from a state in `S` and ends in a state, with a value in `α` or a fault in `F`.
The state at a fault is kept: an exception raised half-way through an operation does not undo what
the operation did before.

`wp p Q E s` is the weakest condition on the state `s` from which `p` ends either with a value and
a state in `Q`, or with a fault and a state in `E`. The rules below compute it along a program.
-/

/-- A program over the state `S` that may stop with a fault in `F`. -/
def Prog (F S α : Type) : Type := S → Except F α × S

namespace Prog

variable {F S α β : Type}

instance : Monad (Prog F S) where
  pure a := fun s => (.ok a, s)
  bind p f := fun s =>
    match p s with
    | (.ok a, s') => f a s'
    | (.error e, s') => (.error e, s')

/-- Stop with a fault. -/
def fault (e : F) : Prog F S α := fun s => (.error e, s)

/-- Read a part of the state. -/
def read (f : S → α) : Prog F S α := fun s => (.ok (f s), s)

/-- Change the state. -/
def write (f : S → S) : Prog F S Unit := fun s => (.ok (), f s)

/-- Go on only if `c` holds. -/
def check (c : Prop) [Decidable c] (e : F) : Prog F S Unit :=
  if c then pure () else fault e

/-- The value of an option that must be there. -/
def demand (o : Option α) (e : F) : Prog F S α :=
  match o with
  | some a => pure a
  | none => fault e

/-- A program on a part of the state. -/
def zoom {T : Type} (get : S → T) (put : T → S → S) (p : Prog F T α) : Prog F S α := fun s =>
  ((p (get s)).1, put (p (get s)).2 s)

/-- A computation that does not touch the state. -/
def lift (r : Except F α) : Prog F S α := fun s => (r, s)

section Run

variable {s : S}

@[simp] theorem pure_apply (a : α) : (pure a : Prog F S α) s = (.ok a, s) := rfl

@[simp] theorem bind_apply (p : Prog F S α) (f : α → Prog F S β) :
    (p >>= f) s = match p s with
      | (.ok a, s') => f a s'
      | (.error e, s') => (.error e, s') := rfl

@[simp] theorem fault_apply (e : F) : (fault e : Prog F S α) s = (.error e, s) := rfl

@[simp] theorem read_apply (f : S → α) : (read f : Prog F S α) s = (.ok (f s), s) := rfl

@[simp] theorem write_apply (f : S → S) : (write f : Prog F S Unit) s = (.ok (), f s) := rfl

@[simp] theorem demand_some_apply (a : α) (e : F) :
    (demand (some a) e : Prog F S α) s = (.ok a, s) := rfl

@[simp] theorem lift_apply (r : Except F α) : (lift r : Prog F S α) s = (r, s) := rfl

/-- A check that passes does nothing. -/
theorem check_apply {c : Prop} [Decidable c] (h : c) (e : F) :
    (check c e : Prog F S Unit) s = (.ok (), s) := by
  simp [check, h]

end Run

/-- The weakest precondition for ending in `Q` with a value or in `E` with a fault. -/
def wp (p : Prog F S α) (Q : α → S → Prop) (E : F → S → Prop) (s : S) : Prop :=
  match p s with
  | (.ok a, s') => Q a s'
  | (.error e, s') => E e s'

section Rules

variable {Q : α → S → Prop} {R : β → S → Prop} {E : F → S → Prop} {s : S}

@[simp] theorem wp_pure (a : α) : wp (pure a : Prog F S α) Q E s ↔ Q a s := Iff.rfl

/-- The rule for sequences. -/
@[simp] theorem wp_bind (p : Prog F S α) (f : α → Prog F S β) :
    wp (p >>= f) R E s ↔ wp p (fun a => wp (f a) R E) E s := by
  simp only [wp, bind]
  rcases p s with ⟨_ | _, _⟩ <;> rfl

/-- The rule for a value that is mapped. -/
@[simp] theorem wp_map (p : Prog F S α) (f : α → β) :
    wp (f <$> p) R E s ↔ wp p (fun a => R (f a)) E s :=
  wp_bind p (fun a => pure (f a))

@[simp] theorem wp_fault (e : F) : wp (fault e : Prog F S α) Q E s ↔ E e s := Iff.rfl

@[simp] theorem wp_read (f : S → α) : wp (read f : Prog F S α) Q E s ↔ Q (f s) s := Iff.rfl

@[simp] theorem wp_write {Q : Unit → S → Prop} (f : S → S) :
    wp (write f : Prog F S Unit) Q E s ↔ Q () (f s) := Iff.rfl

/-- The rule for a check that passes. -/
theorem wp_check {Q : Unit → S → Prop} {c : Prop} [Decidable c] {e : F} (h : c) :
    wp (check c e : Prog F S Unit) Q E s ↔ Q () s := by
  simp [check, h]

@[simp] theorem wp_demand_some (a : α) (e : F) :
    wp (demand (some a) e : Prog F S α) Q E s ↔ Q a s := Iff.rfl

@[simp] theorem wp_lift_ok (a : α) : wp (lift (.ok a) : Prog F S α) Q E s ↔ Q a s := Iff.rfl

@[simp] theorem wp_lift_error (e : F) :
    wp (lift (.error e) : Prog F S α) Q E s ↔ E e s := Iff.rfl

/-- A program on a part of the state leaves the rest. -/
theorem wp_zoom {T : Type} (get : S → T) (put : T → S → S) (p : Prog F T α) :
    wp (zoom get put p) Q E s ↔
      wp p (fun a t => Q a (put t s)) (fun e t => E e (put t s)) (get s) := by
  simp only [wp, zoom]
  rcases p (get s) with ⟨_ | _, _⟩ <;> rfl

/-- The rule of consequence. -/
theorem wp_mono {Q' : α → S → Prop} {p : Prog F S α} (h : wp p Q E s)
    (hQ : ∀ a s', Q a s' → Q' a s') : wp p Q' E s := by
  unfold wp at h ⊢
  rcases hp : p s with ⟨_ | _, _⟩ <;> rw [hp] at h
  · exact h
  · exact hQ _ _ h

/-- A condition that every value meets in every state. -/
theorem wp_of_forall {p : Prog F S α} (h : ∀ a s', Q a s') : wp p Q (fun _ _ => True) s := by
  unfold wp
  rcases p s with ⟨_ | a, s'⟩
  · trivial
  · exact h a s'

/-- Faults may be left open. -/
theorem wp_of_any_fault {p : Prog F S α} (h : wp p Q E s) : wp p Q (fun _ _ => True) s := by
  unfold wp at h ⊢
  rcases hp : p s with ⟨_ | _, _⟩ <;> rw [hp] at h
  · trivial
  · exact h

/-- What comes last, whatever came before. -/
theorem wp_bind_of_forall {p : Prog F S α} {f : α → Prog F S β}
    (h : ∀ a s', wp (f a) R (fun _ _ => True) s') : wp (p >>= f) R (fun _ _ => True) s :=
  (wp_bind p f).mpr (wp_of_forall h)

/-- A run that is known. -/
theorem wp_of_run {p : Prog F S α} {a : α} {s' : S} (hp : p s = (.ok a, s')) :
    wp p Q E s ↔ Q a s' := by
  unfold wp
  rw [hp]

/-- What a run that returned has established. -/
theorem wp_ok {p : Prog F S α} {a : α} {s' : S} (h : wp p Q E s) (hp : p s = (.ok a, s')) :
    Q a s' := by
  unfold wp at h
  rwa [hp] at h

/-- What a run that stopped with a fault has established. -/
theorem wp_error {p : Prog F S α} {e : F} {s' : S} (h : wp p Q E s) (hp : p s = (.error e, s')) :
    E e s' := by
  unfold wp at h
  rwa [hp] at h

/-- A run of a program, and of the program with its value mapped. -/
theorem map_of_ok {p : Prog F S α} {a : α} {s' : S} (f : α → β) (hp : p s = (.ok a, s')) :
    (f <$> p) s = (.ok (f a), s') := by
  have hmap : (f <$> p) s = (p >>= fun a => pure (f a)) s := rfl
  rw [hmap, bind_apply, hp]
  rfl

/-- A sequence that returned: both of its parts did. -/
theorem bind_ok {p : Prog F S α} {f : α → Prog F S β} {b : β} {s' : S}
    (h : (p >>= f) s = (.ok b, s')) : ∃ a s₁, p s = (.ok a, s₁) ∧ f a s₁ = (.ok b, s') := by
  rw [bind_apply] at h
  rcases hp : p s with ⟨e | a, s₁⟩ <;> rw [hp] at h
  · cases h
  · exact ⟨a, s₁, rfl, h⟩

/-- A run of a program whose value is mapped. -/
theorem map_ok {p : Prog F S α} {f : α → β} {b : β} {s' : S} (h : (f <$> p) s = (.ok b, s')) :
    ∃ a, p s = (.ok a, s') ∧ f a = b := by
  obtain ⟨a, s₁, hp, hb⟩ := bind_ok (f := fun a => pure (f a)) h
  obtain ⟨hab, rfl⟩ := Prod.mk.inj hb
  exact ⟨a, hp, Except.ok.inj hab⟩

/-- A program whose faults are all excluded returns. -/
theorem exists_ok_of_wp {p : Prog F S α} (h : wp p Q (fun _ _ => False) s) :
    ∃ a s', p s = (.ok a, s') ∧ Q a s' := by
  unfold wp at h
  rcases hp : p s with ⟨_ | a, s'⟩ <;> rw [hp] at h
  · exact h.elim
  · exact ⟨a, s', rfl, h⟩

end Rules

/-! ## Faults -/

/-- Every fault of the program is in `E`, whatever state it starts from. -/
def Faults (E : F → Prop) (p : Prog F S α) : Prop := ∀ s, wp p (fun _ _ => True) (fun e _ => E e) s

namespace Faults

variable {E : F → Prop} {p q : Prog F S α} {f : α → Prog F S β}

protected theorem pure (a : α) : Faults E (Pure.pure a : Prog F S α) := fun _ => trivial

protected theorem bind (hp : Faults E p) (hf : ∀ a, Faults E (f a)) : Faults E (p >>= f) := by
  intro s
  rw [wp_bind]
  exact wp_mono (hp s) fun a s' _ => hf a s'

protected theorem ite {c : Prop} [Decidable c] (hp : Faults E p) (hq : Faults E q) :
    Faults E (if c then p else q) := by
  split
  · exact hp
  · exact hq

protected theorem fault {e : F} (h : E e) : Faults E (Prog.fault e : Prog F S α) := fun _ => h

protected theorem read (g : S → α) : Faults E (Prog.read g) := fun _ => trivial

protected theorem write (g : S → S) : Faults E (Prog.write g) := fun _ => trivial

protected theorem check {c : Prop} [Decidable c] {e : F} (h : E e) :
    Faults E (Prog.check c e : Prog F S Unit) :=
  .ite (.pure ()) (.fault h)

protected theorem demand {o : Option α} {e : F} (h : E e) :
    Faults E (Prog.demand o e : Prog F S α) := by
  cases o with
  | none => exact .fault h
  | some a => exact .pure a

end Faults

end Prog
