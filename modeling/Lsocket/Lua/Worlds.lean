import Lsocket.Lua.Effects
import Lsocket.Lua.Slice

/-!
# The net below

Lua code may call the library with any arguments, and the library calls the net with what it is given. A
call of the net that returns has got past the assertions about its arguments, so that it takes a net that
chains of changes reach to another one (`Reached.call`). Only the size of a block that is sent is taken on
trust (`Step.Proper`).
-/

namespace Lsocket.Lua

open CInt

variable {σ α : Type} {B : Backend σ} {w w' : World σ}

/-! ## Arguments that get past the assertions -/

/-- A call that returns was given an id within the array. -/
theorem within_of_ok {f : Option ℕ → NetM σ α} {id : ℤ} {v : α}
    (h : (socketOf id >>= f) w = (.ok v, w')) : Within w.net.max id := by
  by_contra hno
  have hfail : socketOf id w = (.error .argument, w) := by
    have hcheck : Prog.check (0 ≤ id ∧ id < w.net.max) .argument = (Prog.fault .argument : NetM σ Unit) :=
      if_neg hno
    simp only [socketOf, Prog.bind_apply, Prog.read_apply, hcheck, Prog.fault_apply]
  rw [Prog.bind_apply, hfail] at h
  cases h

/-- A send that returns was given a positive size as well. -/
theorem sends_of_ok {id sz v : ℤ} {data : Block}
    (h : socketSend B id data sz w = (.ok v, w')) : 0 < sz ∧ Within w.net.max id := by
  unfold socketSend at h
  by_cases hsz : 0 < sz
  · rw [Prog.bind_apply, Prog.check_apply hsz] at h
    exact ⟨hsz, within_of_ok h⟩
  · have hcheck : Prog.check (0 < sz) .argument = (Prog.fault .argument : NetM σ Unit) := if_neg hsz
    rw [Prog.bind_apply, hcheck] at h
    cases h

/-! ## Nets that are reached -/

/-- The world represents a net that chains of changes reach. -/
def Reached (B : Backend σ) (w : World σ) : Prop := Rep B w w.abs ∧ (changes B).Reach w.abs

/-- A new net is reached. -/
theorem reached_netCreate (max : ℤ) (junk : ℕ → Socket) : Reached B (netCreate B max junk) :=
  reach_abs (.init ⟨max, junk, rfl⟩)

/-- The answers to come do not matter. -/
theorem Reached.answer (h : Reached B w) (rs : List Reply) : Reached B (w.answer rs) :=
  ⟨h.1.answer rs, h.2⟩

/-- A call leads on. -/
theorem Reached.call {v : ℤ} (h : Reached B w) (op : Op) (hop : op.Allowed w.net.max)
    (hrun : op.call B w = (.ok v, w')) : Reached B w' := by
  obtain ⟨a', ⟨hinv, rfl⟩, hch⟩ := (does_call_changes op (h.1.max_eq ▸ hop)).ok h.1 hrun
  exact ⟨⟨hinv, rfl⟩, hch.reach h.2⟩

/-- A block is at least as long as the size that is given with it. -/
def Message.Proper : Message → Prop
  | .block data sz => wrap sz ≤ data.bytes.length
  | .string .. => True

/-- What `c.send` hands on is what the net asks for. -/
theorem Message.Proper.supplies {m : Message} {data : Block} {sz : ℤ} (h : m.Proper)
    (ho : m.outgoing = some (data, sz)) (hpos : 0 < sz) : Supplies (some data) sz := by
  cases m with
  | block d n =>
    obtain ⟨rfl, rfl⟩ := Prod.mk.inj (Option.some.inj ho)
    exact ⟨hpos, (wrap_range n).2, h⟩
  | string bytes i j token =>
    obtain ⟨part, hpart, hp⟩ := Option.map_eq_some_iff.mp ho
    obtain ⟨rfl, rfl⟩ := Prod.mk.inj hp
    have hstart := startOf_pos i
    have hstop := (stopOf_le (Int.natCast_nonneg bytes.length) j).2
    exact ⟨hpos, by have := (length_slice hpart).1; omega, le_rfl⟩

/-! ## Runs -/

/-- A send carries a proper block. -/
def Call.Proper : Call → Prop
  | .send _ m _ => m.Proper
  | _ => True

/-- A step of Lua code that sends proper blocks. -/
def Step.Proper : Step → Prop
  | .call c _ => c.Proper
  | _ => True

/-- The runs of Lua code that sends proper blocks. -/
def properScript (B : Backend σ) : System (State σ) Step :=
  (script B).restrict fun _ l _ => l.Proper

/-- A dispatch ends without a call of the net. -/
theorem Ending.perform_world (r : Ending) (s : State σ) : (r.perform s).2.world = s.world := by
  cases r with
  | wakeup k args =>
    unfold perform
    dsimp only
    split <;> rfl
  | _ => rfl

end Lsocket.Lua
