import Lsocket.Lua.Model

/-!
# Runs of the Lua layer

Lua code runs as the main chunk, as a coroutine, or as the callback of a listener. It may call the
library, resume any coroutine that is suspended, yield and end, in any order; an error that the library
raises in it is caught. The main chunk polls. Then the events are dispatched one by one, and Lua code runs
again only where a handler wakes a coroutine or calls a callback.
-/

namespace Lsocket.Lua

open CInt

variable {σ : Type}

/-! ## Calls of the library -/

/-- A call of the library by Lua code. -/
inductive Call
  | listen
  | connect
  | start (id : ℤ) (callback : Bool)
  | bind (id : ℤ) (co : ℕ)
  | shutdown (id : ℤ)
  | close (id : ℤ)
  | readenable (id : ℤ) (enable : Bool)
  | read (id : ℤ) (mode : Buffer.PopArg)
  | send (id : ℤ) (m : Message) (junk : ℤ)

/-- The function called. -/
def Call.run (B : Backend σ) : Call → LuaM σ Result
  | .listen => Lua.listen B
  | .connect => Lua.connect B
  | .start id callback => (fun _ => .values []) <$> Lua.start id callback
  | .bind id co => (fun _ => .values []) <$> Lua.bind id co
  | .shutdown id => (fun _ => .values []) <$> Lua.shutdown B id
  | .close id => (fun _ => .values []) <$> Lua.close B id
  | .readenable id enable => (fun _ => .values []) <$> Lua.readenable B id enable
  | .read id mode => Lua.read id mode
  | .send id m junk => Lua.send B id m junk

/-! ## Coroutines -/

namespace State

variable (s : State σ)

/-- The answers that the system is going to give. -/
def answer (rs : List Reply) : State σ := { s with world := s.world.answer rs }

/-- Lua code runs: the main chunk, if no event is left to be dispatched, or what a handler has called. -/
def Busy : Prop := s.stack ≠ [] ∨ s.pending = []

instance : Decidable s.Busy := inferInstanceAs (Decidable (_ ∨ _))

/-- A coroutine goes on, on top of what runs. -/
def enter (k : ℕ) (f : Frame) : State σ :=
  { s with point := Function.update s.point k none, stack := f :: s.stack }

/-- The coroutine that runs is suspended. -/
def leave (p : Point) : Option (State σ) :=
  match s.stack with
  | .woken k :: st => some { s with point := Function.update s.point k (some p), stack := st }
  | .resumed k :: st => some { s with point := Function.update s.point k (some p), stack := st }
  | _ => none

end State

/-! ## Dispatch -/

/-- The events that `psocket_poll` hands to `_dispatch` for one of `socket_poll`. -/
def expand (e : SocketEvent) : List SocketEvent :=
  if e.type = .connThenRead then [{ e with type := .connect }, { e with type := .read }] else [e]

/-- `wakeup`, or the call of the callback. A coroutine that is not suspended cannot be resumed. -/
def Ending.perform (s : State σ) : Ending → Verdict × State σ
  | .done => (.done, s)
  | .callback id => (.called id, { s with stack := .callback :: s.stack })
  | .wakeup k args =>
    match s.point k with
    | some _ => (.woke k args, s.enter k (.woken k))
    | none => (.raised, s)

/-- The function registered for the dispatch of events, up to where it returns or other code goes on. -/
def dispatch (B : Backend σ) (a : ℕ) (e : SocketEvent) (s : State σ) : Option (Verdict × State σ) :=
  match handler B a e { s with heard := none } with
  | (.ok ending, s') => some (ending.perform s')
  | (.error .error, s') => some (.raised, s')
  | _ => none

/-- The record of a dispatch. -/
def turn (s : State σ) (e : SocketEvent) (verdict : Verdict) (s' : State σ) : Turn where
  event := e
  pool := s.pool
  point := s.point
  heard := s'.heard
  verdict
  pool' := s'.pool

/-! ## The system -/

/-- A step. The answers of the system and the address that `malloc` returns come with it. -/
inductive Step
  | call (c : Call) (rs : List Reply)
  | resume (co : ℕ)
  | yield
  | finish
  | poll (timeout : ℤ) (rs : List Reply)
  | dispatch (a : ℕ) (rs : List Reply)

/-- The state after a step, if it can be taken. -/
def Step.run (B : Backend σ) (s : State σ) : Step → Option (State σ)
  | .call c rs =>
    if s.Busy then
      match c.run B (s.answer rs) with
      | (.ok (.values _), s') => some s'
      | (.ok (.yield p), s') => s'.leave p
      | (.error .error, s') => some s'
      | _ => none
    else none
  | .resume k => if s.Busy ∧ (s.point k).isSome then some (s.enter k (.resumed k)) else none
  | .yield => s.leave .elsewhere
  | .finish =>
    match s.stack with
    | _ :: st => some { s with stack := st }
    | [] => none
  | .poll timeout rs =>
    if s.stack = [] ∧ s.pending = [] then
      match socketPoll B timeout (s.answer rs).world with
      | (.ok es, w) => some { s with world := w, pending := es.flatMap expand }
      | _ => none
    else none
  | .dispatch a rs =>
    match s.stack, s.pending with
    | [], e :: rest =>
      (Lua.dispatch B a e (s.answer rs)).map fun r =>
        { r.2 with pending := rest, log := .turn (turn s e r.1 r.2) :: r.2.log }
    | _, _ => none

/-- The states differ at most in who runs and what is left to be dispatched. -/
structure State.Beside (s s' : State σ) : Prop where
  world : s'.world = s.world
  pool : s'.pool = s.pool
  log : s'.log = s.log

/-- A coroutine that leaves changes nothing but who runs. -/
theorem State.beside_leave {s s' : State σ} {p : Point} (h : s.leave p = some s') : s.Beside s' := by
  unfold leave at h
  split at h
  · obtain rfl := Option.some.inj h
    exact ⟨rfl, rfl, rfl⟩
  · obtain rfl := Option.some.inj h
    exact ⟨rfl, rfl, rfl⟩
  · cases h

/-- What a step can do. -/
inductive Step.Outcome (B : Backend σ) (s : State σ) : Step → State σ → Prop
  /-- A call returns, or its coroutine is suspended in it. -/
  | called {c : Call} {rs : List Reply} {r : Result} {s₁ s' : State σ}
      (h : c.run B (s.answer rs) = (.ok r, s₁)) (hs : s₁.Beside s') : Outcome B s (.call c rs) s'
  /-- A call raises an error. -/
  | raised {c : Call} {rs : List Reply} {s' : State σ}
      (h : c.run B (s.answer rs) = (.error .error, s')) : Outcome B s (.call c rs) s'
  /-- Another coroutine runs. -/
  | moved {l : Step} {s' : State σ} (hs : s.Beside s') : Outcome B s l s'
  | polled {timeout : ℤ} {rs : List Reply} {es : List SocketEvent} {w : World σ}
      (h : socketPoll B timeout (s.answer rs).world = (.ok es, w)) :
      Outcome B s (.poll timeout rs) { s with world := w, pending := es.flatMap expand }
  | dispatched {a : ℕ} {rs : List Reply} {e : SocketEvent} {rest : List SocketEvent} {v : Verdict}
      {s₁ : State σ} (h : Lua.dispatch B a e (s.answer rs) = some (v, s₁)) :
      Outcome B s (.dispatch a rs) { s₁ with pending := rest, log := .turn (turn s e v s₁) :: s₁.log }

/-- Every step that can be taken has one of the outcomes. -/
theorem Step.outcome_of_run {s s' : State σ} {l : Step} (h : l.run B s = some s') :
    l.Outcome B s s' := by
  cases l with
  | call c rs =>
    simp only [run, Option.ite_none_right_eq_some] at h
    obtain ⟨-, h⟩ := h
    -- a fault that is no Lua error stops the whole program, and is no step of it
    rcases hr : c.run B (s.answer rs) with ⟨f | r, s₁⟩ <;> rw [hr] at h
    · cases f with
      | error =>
        obtain rfl := Option.some.inj h
        exact .raised hr
      | _ => cases h
    · cases r with
      | values =>
        obtain rfl := Option.some.inj h
        exact .called hr ⟨rfl, rfl, rfl⟩
      | yield p => exact .called hr (State.beside_leave h)
  | resume k =>
    simp only [run, Option.ite_none_right_eq_some, Option.some.injEq] at h
    obtain ⟨-, rfl⟩ := h
    exact .moved ⟨rfl, rfl, rfl⟩
  | yield => exact .moved (State.beside_leave h)
  | finish =>
    simp only [run] at h
    split at h
    · obtain rfl := Option.some.inj h
      exact .moved ⟨rfl, rfl, rfl⟩
    · cases h
  | poll timeout rs =>
    simp only [run, Option.ite_none_right_eq_some] at h
    obtain ⟨-, h⟩ := h
    split at h
    · next hr =>
      obtain rfl := Option.some.inj h
      exact .polled hr
    · cases h
  | dispatch a rs =>
    simp only [run] at h
    split at h
    · obtain ⟨⟨v, s₁⟩, hd, rfl⟩ := Option.map_eq_some_iff.mp h
      exact .dispatched hd
    · cases h

/-- The answers of the system are of type `int`, and an address from `malloc` is not in use. -/
def Step.Allowed (s : State σ) : Step → Prop
  | .call _ rs | .poll _ rs => ∀ r ∈ rs, r.ret ≤ INT_MAX
  | .dispatch a rs => (∀ r ∈ rs, r.ret ≤ INT_MAX) ∧
      ∀ k e b, s.pool k = some e → e.buffer = some b → b.mem.cell a = none
  | _ => True

/-- A Lua state after `socket.init`. -/
def State.initial (B : Backend σ) (max : ℤ) (junk : ℕ → Socket) : State σ where
  world := netCreate B max junk
  pool _ := none
  point k := if k = 0 then none else some .elsewhere
  stack := []
  pending := []
  heard := none
  log := []

/-- The runs of Lua code that uses the library. -/
def script (B : Backend σ) : System (State σ) Step where
  init s := ∃ max junk, s = State.initial B max junk
  step s l s' := l.Allowed s ∧ l.run B s = some s'

end Lsocket.Lua
