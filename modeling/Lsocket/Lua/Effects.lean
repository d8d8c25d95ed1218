import Lsocket.Buffer.Behave
import Lsocket.Lua.Run
import Lsocket.Net.Answers

/-!
# What a dispatch does

`Handles` lists the ways in which the dispatch of an event can end, by what the handler finds; it is what
runs are reasoned about with. Of the net below, all that counts here is that a read returns a block as long
as it says.
-/

namespace Lsocket.Lua

open CInt

variable {σ α β : Type} {B : Backend σ} {s s' : State σ} {w : World σ}

/-! ## Blocks that are read -/

/-- The answers to come are of type `int`. -/
def Ints (w : World σ) : Prop := ∀ r ∈ w.os.replies, r.ret ≤ INT_MAX

/-- Whenever the program returns, its value is in `Q`. -/
def Gets (p : NetM σ α) (Q : α → Prop) : Prop :=
  ∀ w, Ints w → Prog.wp p (fun v w' => Q v ∧ Ints w') (fun _ _ => True) w

namespace Gets

variable {p q : NetM σ α} {f : α → NetM σ β} {Q : α → Prop} {R : β → Prop}

protected theorem pure {v : α} (h : Q v) : Gets (σ := σ) (Pure.pure v) Q := fun _ hw => ⟨h, hw⟩

protected theorem bind (hp : Gets p Q) (hf : ∀ v, Q v → Gets (f v) R) : Gets (p >>= f) R := by
  intro w hw
  rw [Prog.wp_bind]
  exact Prog.wp_mono (hp w hw) fun v w' h => hf v h.1 w' h.2

theorem ite {c : Prop} [Decidable c] (hp : c → Gets p Q) (hq : ¬ c → Gets q Q) :
    Gets (if c then p else q) Q := by
  split
  · exact hp ‹_›
  · exact hq ‹_›

/-- A program that calls nothing. -/
theorem silent (hp : Silent p) : Gets p fun _ => True := by
  intro w hw
  have hos := hp w
  unfold Prog.wp
  rcases hr : p w with ⟨e | v, w'⟩ <;> rw [hr] at hos
  · trivial
  · exact ⟨trivial, fun r hr => hw r (hos ▸ hr)⟩

/-- An answer of the outside is an `int`. -/
theorem call (ok : Reply → Prop) [DecidablePred ok] :
    Gets (σ := σ) (Lsocket.call ok) fun r => ok r ∧ r.ret ≤ INT_MAX := by
  intro w hw
  refine (Prog.wp_zoom ..).mpr ?_
  unfold Prog.wp sys
  rcases hrs : w.os.replies with _ | ⟨r, rs⟩
  · trivial
  · have hr := hw r (by rw [hrs]; exact List.mem_cons_self)
    by_cases hok : ok r
    · simp only [if_pos hok]
      exact ⟨⟨hok, hr⟩, fun x hx => hw x (by rw [hrs]; exact List.mem_cons_of_mem _ hx)⟩
    · simp only [if_neg hok]

end Gets

/-- A read that returns data returns a block of the length that it says. -/
def Measured (r : ReadResult) : Prop :=
  0 < r.n → r.n = r.block.length ∧ r.n ≤ INT_MAX

/-- A read that fails returns no data. -/
theorem gets_readFail (i : ℕ) (err : ℤ) : Gets (readFail B i err) Measured :=
  .bind (.silent (.closeSocket B i)) fun _ _ => .bind (.silent (.setErr err)) fun _ _ =>
    .pure fun h => absurd h (by decide)

/-- A block from TCP is as long as the read says. -/
theorem gets_readLoop (i : ℕ) (sz : ℤ) (fuel : ℕ) : Gets (readLoop B i sz fuel) Measured := by
  induction fuel with
  | zero => exact fun _ _ => trivial
  | succ fuel ih =>
    apply Gets.bind (.call _)
    rintro r ⟨hok, hr⟩
    refine .ite (fun _ => ?_) fun hneg => .ite (fun _ => gets_readFail i _) fun _ => ?_
    · exact .ite (fun _ => .pure fun h => absurd h (by decide)) fun _ =>
        .ite (fun _ => ih) fun _ => gets_readFail i _
    -- neither a failure nor the end
    have hbytes : (r.bytes.length : ℤ) = r.ret := by
      rcases hok with hf | ⟨-, -, hlen⟩
      · exact absurd (hf.1 ▸ (by decide)) hneg
      · exact hlen
    have hlast : Gets (σ := σ) (do
        emit (.received i r.bytes none)
        pure ({ n := r.ret, data := r.bytes } : ReadResult)) Measured :=
      .bind (.silent (.emit _)) fun _ _ => .pure fun _ => ⟨hbytes.symm, hr⟩
    apply Gets.bind (.silent (.slotAt i))
    intro s _
    refine .ite (fun _ => ?_) fun _ => hlast
    refine .ite (fun _ => ?_) fun _ => .ite (fun _ => ?_) fun _ => hlast
    · exact .bind (.silent (.setSlot _ _)) fun _ _ => hlast
    · exact .bind (.silent (.setSlot _ _)) fun _ _ => hlast

theorem gets_readClose (fuel : ℕ) : Gets (σ := σ) (readClose fuel) fun _ => True := by
  induction fuel with
  | zero => exact fun _ _ => trivial
  | succ fuel ih =>
    apply Gets.bind (.call _)
    intro r _
    exact .ite (fun _ => .ite (fun _ => .pure trivial) fun _ => .ite (fun _ => ih) fun _ =>
      .pure trivial) fun _ => .ite (fun _ => .pure trivial) fun _ => .pure trivial

/-- A message is, too. -/
theorem gets_readfdLoop (i fuel : ℕ) : Gets (readfdLoop B i fuel) Measured := by
  induction fuel with
  | zero => exact fun _ _ => trivial
  | succ fuel ih =>
    apply Gets.bind (.call _)
    rintro r ⟨hok, hr⟩
    refine .ite (fun _ => ?_) fun hneg => .ite (fun _ => gets_readFail i _) fun _ =>
      .ite (fun _ => gets_readFail i _) fun _ => ?_
    · exact .ite (fun _ => .pure fun h => absurd h (by decide)) fun _ =>
        .ite (fun _ => ih) fun _ => gets_readFail i _
    have hbytes : r.ret ≤ RECVMSG_MAXSIZE ∧ (r.bytes.length : ℤ) = r.ret := by
      rcases hok with hf | ⟨-, hle, hlen⟩
      · exact absurd (hf.1 ▸ (by decide)) hneg
      · exact ⟨hle, hlen⟩
    refine .ite (fun _ => .ite (fun _ => gets_readFail i _) fun _ => ?_) fun _ => ?_
    · refine .bind (.silent (.emit _)) fun _ _ => .pure fun _ => ?_
      have hlen := length_intBytes r.cmsgFd
      -- the four bytes of the descriptor come on top of what `recvmsg` may return
      have hmax : RECVMSG_MAXSIZE + 4 ≤ INT_MAX := by decide
      simp only [ReadResult.block, List.length_append]
      push_cast
      omega
    · exact .bind (.silent (.emit _)) fun _ _ => .pure fun _ => ⟨hbytes.2.symm, hr⟩

/-- So is what `socket_read` returns. -/
theorem gets_socketRead (id : ℤ) : Gets (socketRead B id) Measured := by
  have hnone : Gets (σ := σ) (pure ({ n := -1 } : ReadResult)) Measured :=
    .pure fun h => absurd h (by decide)
  apply Gets.bind (.silent (.socketOf id))
  rintro (_ | i) _
  · exact hnone
  apply Gets.bind (.silent (.slotAt i))
  intro s _
  rcases s.protocol with _ | _ | _
  · apply Gets.bind (.silent (.slotAt i))
    intro s _
    apply Gets.bind (.silent (.read _))
    intro fuel _
    refine .ite (fun _ => .bind (gets_readClose _) fun err _ => ?_) fun _ => gets_readLoop i _ _
    refine .bind (.silent (.setErr err)) fun _ _ => .ite (fun _ => ?_) fun _ => ?_
    · exact .bind (.silent (.closeSocket B i)) fun _ _ => hnone
    · exact .pure fun h => absurd h (by decide)
  · exact hnone
  · apply Gets.bind (.silent (.slotAt i))
    intro s _
    refine .ite (fun _ => .bind (.silent (.setErr _)) fun _ _ => hnone) fun _ => ?_
    exact .bind (.silent (.read _)) fun fuel _ => gets_readfdLoop i fuel

/-! ## Rules -/

/-- What holds if a Lua error is raised. Other faults are left open. -/
abbrev OnError (P : State σ → Prop) : Fault → State σ → Prop := fun f s => f = .error → P s

section Rules

variable {Q : α → State σ → Prop} {P : State σ → Prop} {k : Key} {e : Entry}

/-- The rule for a call of the net, of which `R` is known. -/
theorem wp_net {p : NetM σ α} (R : α → Prop)
    (h : Prog.wp p (fun v _ => R v) (fun _ _ => True) s.world)
    (hQ : ∀ v w, R v → Q v { s with world := w }) : Prog.wp (net p) Q (OnError P) s := by
  unfold Prog.wp net at *
  rcases hr : p s.world with ⟨e | v, w⟩ <;> rw [hr] at h
  · exact nofun
  · exact hQ v w h

/-- The rule for a call of the net of which nothing is known. -/
theorem wp_net_any {p : NetM σ α} (hQ : ∀ v w, Q v { s with world := w }) :
    Prog.wp (net p) Q (OnError P) s :=
  wp_net (fun _ => True) (Prog.wp_of_forall fun _ _ => trivial) fun v w _ => hQ v w

@[simp] theorem wp_lasterrno {Q : ℤ → State σ → Prop} {E : Fault → State σ → Prop} :
    Prog.wp lasterrno Q E s ↔ Q s.world.net.err s := Iff.rfl

@[simp] theorem wp_note {Q : Unit → State σ → Prop} {E : Fault → State σ → Prop} (n : Note) :
    Prog.wp (note n) Q E s ↔ Q () { s with log := n :: s.log } := Iff.rfl

@[simp] theorem wp_lookup {Q : Option Entry → State σ → Prop} {E : Fault → State σ → Prop} :
    Prog.wp (lookup k) Q E s ↔ Q (s.pool k) s := Iff.rfl

theorem wp_entry {Q : Entry → State σ → Prop} {E : Fault → State σ → Prop} (he : s.pool k = some e) :
    Prog.wp (entry k) Q E s ↔ Q e s := by
  simp only [entry, Prog.wp_bind, wp_lookup, he, Prog.wp_demand_some]

/-- An entry that is not there raises an error when it is indexed. -/
theorem wp_entry_none {Q : Entry → State σ → Prop} {E : Fault → State σ → Prop}
    (hn : s.pool k = none) : Prog.wp (entry k) Q E s ↔ E .error s := by
  simp only [entry, Prog.wp_bind, wp_lookup, hn]
  rfl

@[simp] theorem wp_setPool {Q : Unit → State σ → Prop} {E : Fault → State σ → Prop}
    (o : Option Entry) : Prog.wp (setPool k o) Q E s ↔
      Q () { s with pool := Function.update s.pool k o } := Iff.rfl

theorem wp_setEntry {Q : Unit → State σ → Prop} {E : Fault → State σ → Prop} (f : Entry → Entry)
    (he : s.pool k = some e) : Prog.wp (setEntry k f) Q E s ↔
      Q () { s with pool := Function.update s.pool k (some (f e)) } := by
  rw [setEntry, Prog.wp_write, he]
  rfl

theorem wp_check_not {Q : Unit → State σ → Prop} {E : Fault → State σ → Prop} {c : Prop}
    [Decidable c] {f : Fault} (h : ¬ c) : Prog.wp (Prog.check c f) Q E s ↔ E f s := by
  simp [Prog.check, h]

end Rules

/-! ## Buffers -/

/-- The buffer of an entry is replaced. -/
def State.setBuffer (s : State σ) (id : ℤ) (e : Entry) (b : Buffer.Buf) : State σ :=
  { s with pool := Function.update s.pool (.id id) (some { e with buffer := some b }) }

/-- The last buffer counts. -/
theorem State.setBuffer_setBuffer (id : ℤ) (e : Entry) (b b' : Buffer.Buf) :
    (s.setBuffer id e b).setBuffer id { e with buffer := some b } b' = s.setBuffer id e b' := by
  simp only [State.setBuffer, Function.update_idem]

section Buffers

variable {Q : Buffer.LuaValue → State σ → Prop} {P : State σ → Prop} {id : ℤ} {e : Entry}
variable {b : Buffer.Buf} {op : Entry → Buffer.Op}

/-- So does a buffer. -/
theorem wp_onBuffer_none (he : s.pool (.id id) = some e) (hb : e.buffer = none) :
    Prog.wp (onBuffer id op) Q (OnError P) s ↔ P s := by
  simp only [onBuffer, Prog.wp_bind, wp_entry he, hb]
  exact ⟨fun h => h rfl, fun h _ => h⟩

/-- The rule for a method of a buffer, by how it ends. -/
theorem wp_onBuffer (he : s.pool (.id id) = some e) (hb : e.buffer = some b)
    (hQ : ∀ v b', (op e).call b = (.ok v, b') → Q v (s.setBuffer id e b'))
    (hP : ∀ b', (op e).call b = (.error .luaError, b') → P (s.setBuffer id e b')) :
    Prog.wp (onBuffer id op) Q (OnError P) s := by
  simp only [onBuffer, Prog.wp_bind, wp_entry he, hb, Prog.wp_demand_some]
  rcases hr : (op e).call b with ⟨f | v, b'⟩
  · cases f with
    | luaError =>
      simp only [Prog.wp_bind, wp_setEntry _ he, Prog.wp_fault]
      exact fun _ => hP b' hr
    | _ =>
      intro h
      cases h
  · simp only [Prog.wp_bind, wp_setEntry _ he, Prog.wp_pure]
    exact hQ v b' hr

/-- `push` appends a block. -/
theorem wp_push {a : ℕ} {bytes : List UInt8} {n : ℤ} (he : s.pool (.id id) = some e)
    (hb : e.buffer = some b) (hinv : Buffer.Inv b) (ha : b.mem.cell a = none) (hn : 0 < n)
    (hlen : n = bytes.length) (hmax : n ≤ INT_MAX)
    (hQ : ∀ v b', Buffer.Inv b' → Buffer.chunks b' = Buffer.chunks b ++ [bytes] →
      Q v (s.setBuffer id e b')) : Prog.wp (push id a bytes n) Q (OnError P) s := by
  have hw : wrap n = n := wrap_of_nonneg hn.le hmax
  have hal : Buffer.Op.Allowed b (.push a (some bytes) n) := by
    refine ⟨ha, fun x hx => ?_⟩
    obtain rfl : bytes = x := by simpa using hx
    omega
  have htake : bytes.take (wrap n).toNat = bytes := by
    rw [hw, hlen, Int.toNat_natCast, List.take_length]
  have hbehave := Buffer.call_behave hinv hal
  simp only [Buffer.behave, if_neg (show ¬ wrap n ≤ 0 by omega), htake] at hbehave
  -- a push of a block that is not empty cannot raise an error
  obtain ⟨hret, hchunks⟩ := hbehave
  refine wp_onBuffer he hb (fun v b' hr => ?_) fun b' hr => ?_
  · rw [hr] at hchunks
    exact hQ v b' (hinv.call hal (.inl ⟨v, hr⟩)) hchunks
  · rw [hr] at hret
    cases hret

/-- What a pop took off is what is missing. -/
theorem cutOf_eq {b' : Buffer.Buf} {bytes cut : List UInt8}
    (h : Buffer.content b = bytes ++ cut ++ Buffer.content b') : cutOf b b' bytes = cut := by
  rw [cutOf, h, List.append_assoc, List.drop_left, List.length_append, List.length_append]
  rw [show bytes.length + (cut.length + (Buffer.content b').length) - bytes.length -
    (Buffer.content b').length = cut.length by omega, List.take_left]

/-- So does a pop from no buffer. -/
theorem wp_pop_none (he : s.pool (.id id) = some e) (hb : e.buffer = none) (hP : P s) :
    Prog.wp (pop id) Q (OnError P) s := by
  rw [pop, Prog.wp_bind, wp_entry he, Prog.wp_bind]
  exact (wp_onBuffer_none he hb).mpr hP

/-- `pop`, by what it finds in the chunks of the buffer. -/
theorem wp_pop (he : s.pool (.id id) = some e) (hb : e.buffer = some b) (hinv : Buffer.Inv b)
    (hnil : ∀ b', Buffer.Inv b' → Buffer.content b' = Buffer.content b →
      (Buffer.behave (.pop e.mode) (Buffer.chunks b)).1 = .ok .nil → Q .nil (s.setBuffer id e b'))
    (hstring : ∀ bytes cut b', Buffer.Inv b' → Buffer.content b = bytes ++ cut ++ Buffer.content b' →
      e.mode.Ends cut → (Buffer.behave (.pop e.mode) (Buffer.chunks b)).1 = .ok (.string bytes) →
      Q (.string bytes)
        { s.setBuffer id e b' with log := .popped id e.mode bytes cut :: s.log })
    (herror : ∀ b', Buffer.Inv b' → Buffer.content b' = Buffer.content b →
      (Buffer.behave (.pop e.mode) (Buffer.chunks b)).1 = .error .luaError →
      P (s.setBuffer id e b')) :
    Prog.wp (pop id) Q (OnError P) s := by
  have hal : Buffer.Op.Allowed b (.pop e.mode) := trivial
  have hbehave := Buffer.call_behave hinv hal
  have hcase := Buffer.behave_pop e.mode (Buffer.chunks b)
  rw [← hbehave.1, ← hbehave.2, Buffer.chunks_flatten hinv] at hcase
  simp only [pop, Prog.wp_bind, wp_entry he]
  have hinv' {r : Except Buffer.Fault Buffer.LuaValue} {b' : Buffer.Buf}
      (hr : (Buffer.Op.pop e.mode).call b = (r, b')) (hok : (∃ v, r = .ok v) ∨ r = .error .luaError) :
      Buffer.Inv b' := by
    rcases hok with ⟨v, rfl⟩ | rfl
    · exact hinv.call hal (.inl ⟨v, hr⟩)
    · exact hinv.call hal (.inr hr)
  refine wp_onBuffer he hb (fun v b' hr => ?_) fun b' hr => ?_
  · have hself : (s.setBuffer id e b').pool (.id id) = some { e with buffer := some b' } :=
      Function.update_self ..
    have hb' := hinv' hr (.inl ⟨v, rfl⟩)
    rw [hr] at hcase hbehave
    rw [Buffer.chunks_flatten hb'] at hcase
    rw [Prog.wp_bind, wp_entry hself]
    rcases hcase with ⟨hv, hcont⟩ | ⟨bytes, cut, hv, hcont, hends⟩ | ⟨f, hv, -⟩
    · obtain rfl := Except.ok.inj hv
      exact hnil b' hb' hcont hbehave.1.symm
    · obtain rfl := Except.ok.inj hv
      simp only [hb, cutOf_eq hcont]
      exact hstring bytes cut b' hb' hcont hends hbehave.1.symm
    · cases hv
  · have hb' := hinv' hr (.inr rfl)
    rw [hr] at hcase hbehave
    rcases hcase with ⟨hv, -⟩ | ⟨bytes, cut, hv, -⟩ | ⟨f, -, hsame⟩
    · cases hv
    · cases hv
    · refine herror b' hb' ?_ hbehave.1.symm
      rw [← Buffer.chunks_flatten hb', ← Buffer.chunks_flatten hinv]
      exact congrArg List.flatten hsame

end Buffers

/-! ## Reading and disconnecting -/

/-- A block is as long as the number beside it says. -/
def Heard.Measured : Heard → Prop
  | .data block n => 0 < n ∧ n = block.length ∧ n ≤ INT_MAX
  | _ => True

/-- The rule for `lread`. -/
theorem wp_lread {Q : Heard → State σ → Prop} {P : State σ → Prop} {id : ℤ} (hw : Ints s.world)
    (hQ : ∀ h w, h.Measured → Q h { s with world := w, heard := some h }) :
    Prog.wp (lread B id) Q (OnError P) s := by
  rw [lread, Prog.wp_bind]
  refine wp_net Measured (Prog.wp_mono (gets_socketRead (wrap id) _ hw) fun _ _ h => h.1) ?_
  intro r w hr
  rw [Prog.wp_bind, wp_lasterrno]
  refine hQ _ w ?_
  split
  · next hpos => exact ⟨hpos, hr hpos⟩
  · split <;> trivial

/-- Every entry stands under its id, and its buffer is in order. -/
def Sound (pool : Key → Option Entry) : Prop :=
  ∀ k e, pool k = some e → k = .id e.id ∧ ∀ b, e.buffer = some b → Buffer.Inv b

/-- The rule for `disconnect`, if there is an entry. -/
theorem wp_disconnect {Q : Unit → State σ → Prop} {P : State σ → Prop} {id : ℤ} {e : Entry}
    {force : Bool} (he : s.pool (.id id) = some e) (hid : e.id = id)
    (hQ : ∀ w, Q () { s with world := w, pool := Function.update s.pool (.id id) none }) :
    Prog.wp (disconnect B (.id id) force) Q (OnError P) s := by
  simp only [disconnect, lclose, Prog.wp_bind]
  rw [wp_entry he]
  simp only [Prog.wp_bind]
  rw [Prog.wp_check (by rw [hid]), Prog.wp_bind, Prog.wp_bind]
  apply wp_net_any
  exact fun _ w => hQ w

/-- Without an entry `disconnect` raises an error and changes nothing. -/
theorem wp_disconnect_none {Q : Unit → State σ → Prop} {P : State σ → Prop} {k : Key} {force : Bool}
    (hn : s.pool k = none) (hP : P s) : Prog.wp (disconnect B k force) Q (OnError P) s := by
  rw [disconnect, Prog.wp_bind, wp_entry_none hn]
  exact fun _ => hP

/-! ## The ways in which a dispatch ends -/

/-- What the handler of `LS_EREAD` pops from the buffer of an entry after a block has come. -/
def Entry.pops (x : Entry) (block : List UInt8) : Except Buffer.Fault Buffer.LuaValue :=
  match x.buffer with
  | none => .error .luaError
  | some b => (Buffer.behave (.pop x.mode) (Buffer.chunks b ++ [block])).1

/-- `wakeup`, as far as it can be told from where the coroutines are. -/
def woken (point : ℕ → Option Point) (k : ℕ) (args : List Value) : Verdict :=
  if (point k).isSome then .woke k args else .raised

/-- A coroutine can be woken exactly if it is suspended. -/
theorem woken_ne_raised {point : ℕ → Option Point} {k : ℕ} {args : List Value} :
    woken point k args ≠ .raised ↔ (point k).isSome = true := by
  rw [woken]
  split <;> simp [*]

/-- A coroutine that waits is woken. -/
theorem woken_eq {point : ℕ → Option Point} {k : ℕ} {args : List Value} (h : (point k).isSome = true) :
    woken point k args = .woke k args := if_pos h

/-- The coroutine of an entry is suspended. -/
def Turn.Waits (t : Turn) (x : Entry) : Prop := (t.point x.co).isSome = true

/-- How an ending of a handler ends the dispatch. -/
def Ending.verdict (point : ℕ → Option Point) : Ending → Verdict
  | .done => .done
  | .callback id => .called id
  | .wakeup k args => woken point k args

/-- The ways in which the dispatch of the event `e` ends, by what the handler finds in the pool and what
`c.read` returns: how, with which pool, and with which notes. -/
inductive Handles (pool : Key → Option Entry) (point : ℕ → Option Point) (e : SocketEvent) :
    Option Heard → Verdict → (Key → Option Entry) → List Note → Prop
  | ignored (he : e.type ≠ .read ∧ e.type ≠ .accept ∧ e.type ≠ .connect ∧ e.type ≠ .connerr ∧
      e.type ≠ .sockerr) : Handles pool point e none .done pool []
  | gone (he : e.type = .read) (hx : pool (.id e.id) = none) : Handles pool point e none .done pool []
  | nothing {x : Entry} (he : e.type = .read) (hx : pool (.id e.id) = some x) :
    Handles pool point e (some .nothing) .done pool []
  | failed {x : Entry} {err : ℤ} (he : e.type = .read) (hx : pool (.id e.id) = some x) :
    Handles pool point e (some (.failed err)) (woken point x.co [.nil, .text (socketError err)])
      (Function.update pool (.id e.id) none) []
  /-- There is no buffer to push the block to. -/
  | unbuffered {x : Entry} {block : List UInt8} {n : ℤ} (he : e.type = .read)
      (hx : pool (.id e.id) = some x) (hb : x.buffer = none) :
    Handles pool point e (some (.data block n)) .raised pool []
  | kept {x : Entry} {b b' : Buffer.Buf} {block : List UInt8} {n : ℤ} (he : e.type = .read)
      (hx : pool (.id e.id) = some x) (hb : x.buffer = some b) (hinv : Buffer.Inv b')
      (hpop : x.pops block = .ok .nil) (hbytes : Buffer.content b' = Buffer.content b ++ block) :
    Handles pool point e (some (.data block n)) .done
      (Function.update pool (.id e.id) (some { x with buffer := some b' })) []
  | popped {x : Entry} {b b' : Buffer.Buf} {block bytes cut : List UInt8} {n : ℤ} (he : e.type = .read)
      (hx : pool (.id e.id) = some x) (hb : x.buffer = some b) (hinv : Buffer.Inv b')
      (hpop : x.pops block = .ok (.string bytes))
      (hbytes : Buffer.content b ++ block = bytes ++ cut ++ Buffer.content b') (hcut : x.mode.Ends cut) :
    Handles pool point e (some (.data block n)) (woken point x.co [.data (.string bytes)])
      (Function.update pool (.id e.id) (some { x with buffer := some b' }))
      [.popped e.id x.mode bytes cut]
  /-- `pop` rejects the mode. -/
  | rejected {x : Entry} {b b' : Buffer.Buf} {block : List UInt8} {n : ℤ} (he : e.type = .read)
      (hx : pool (.id e.id) = some x) (hb : x.buffer = some b) (hinv : Buffer.Inv b')
      (hpop : x.pops block = .error .luaError)
      (hbytes : Buffer.content b' = Buffer.content b ++ block) :
    Handles pool point e (some (.data block n)) .raised
      (Function.update pool (.id e.id) (some { x with buffer := some b' })) []
  | accepted {x : Entry} (he : e.type = .accept) (hx : pool (.id (e.arg.getD 0)) = some x)
      (hc : x.callback = true) : Handles pool point e none (.called e.id) pool []
  | unaccepted (he : e.type = .accept)
      (hx : ∀ x, pool (.id (e.arg.getD 0)) = some x → x.callback = false) :
    Handles pool point e none .raised pool []
  | connected {x : Entry} (he : e.type = .connect) (hx : pool (.id e.id) = some x) :
    Handles pool point e none (woken point x.co [.number e.id]) pool []
  | refused {x : Entry} (he : e.type = .connerr) (hx : pool (.id e.id) = some x) :
    Handles pool point e none (woken point x.co [.nil, .text (socketError (e.arg.getD 0))])
      (Function.update pool (.id e.id) none) []
  /-- The handler of `LS_ESOCKERR` asks `disconnect` for the entry of `c`. -/
  | broken {x : Entry} (he : e.type = .sockerr) (hx : pool (.id e.id) = some x) :
    Handles pool point e none .raised pool []
  /-- The handler indexes an entry that is not there. -/
  | missing (he : e.type = .connect ∨ e.type = .connerr ∨ e.type = .sockerr)
      (hx : pool (.id e.id) = none) : Handles pool point e none .raised pool []

/-- A dispatch that ended in one of these ways has left the coroutines where they were. -/
def Ended (s : State σ) (e : SocketEvent) (v : Verdict) (s' : State σ) : Prop :=
  s'.point = s.point ∧
    ∃ notes, Handles s.pool s.point e s'.heard v s'.pool notes ∧ s'.log = notes ++ s.log

/-! ## The handlers -/

section Handlers

variable {a : ℕ} {e : SocketEvent}

-- ids are kept from being evaluated
attribute [local irreducible] wrap

/-- The handler of `LS_EREAD`. -/
theorem eventRead_ended (hs : Sound s.pool) (hw : Ints s.world) (hh : s.heard = none)
    (ha : ∀ x b, s.pool (.id e.id) = some x → x.buffer = some b → b.mem.cell a = none)
    (he : e.type = .read) :
    Prog.wp (eventRead B e.id a) (fun r s' => Ended s e (r.verdict s.point) s')
      (OnError fun s' => Ended s e .raised s') s := by
  rw [eventRead, Prog.wp_bind, wp_lookup]
  rcases hx : s.pool (.id e.id) with _ | x
  · refine ⟨rfl, [], ?_, rfl⟩
    show Handles _ _ _ s.heard _ _ _
    rw [hh]
    exact .gone he hx
  have hinv := (hs (.id e.id) x hx).2
  have hid : x.id = e.id := (Key.id.inj (hs (.id e.id) x hx).1).symm
  simp only [Prog.wp_bind]
  refine wp_lread hw ?_
  intro h w hm
  have hx₁ : ({ s with world := w, heard := some h } : State σ).pool (.id e.id) = some x := hx
  rcases h with ⟨block, n⟩ | _ | err
  · simp only [Prog.wp_bind]
    rcases hb : x.buffer with _ | b
    -- the entry was never readenabled: indexing its missing buffer raises
    · exact (wp_onBuffer_none hx₁ hb).mpr ⟨rfl, [], .unbuffered he hx hb, rfl⟩
    obtain ⟨hpos, hlen, hmax⟩ := hm
    refine wp_push hx₁ hb (hinv b hb) (ha x b hx hb) hpos hlen hmax ?_
    intro _ b₁ hinv₁ hchunks
    have hx₂ : (({ s with world := w, heard := some (.data block n) } : State σ).setBuffer e.id x
        b₁).pool (.id e.id) = some { x with buffer := some b₁ } := Function.update_self ..
    have hbytes : Buffer.content b₁ = Buffer.content b ++ block := by
      rw [← Buffer.chunks_flatten hinv₁, hchunks, List.flatten_append, Buffer.chunks_flatten (hinv b hb)]
      simp
    -- what the pop will answer is already determined by the block
    have hpop : x.pops block = (Buffer.behave (.pop x.mode) (Buffer.chunks b₁)).1 := by
      rw [Entry.pops, hb, hchunks]
    rw [Prog.wp_bind]
    refine wp_pop hx₂ rfl hinv₁ (fun b' hinv' hcont hr => ?_)
      (fun bytes cut b' hinv' hcont hcut hr => ?_) fun b' hinv' hcont hr => ?_
    · rw [State.setBuffer_setBuffer]
      exact ⟨rfl, [], .kept he hx hb hinv' (hpop.trans hr) (hcont.trans hbytes), rfl⟩
    · rw [State.setBuffer_setBuffer]
      exact ⟨rfl, _, .popped he hx hb hinv' (hpop.trans hr) (hbytes.symm.trans hcont) hcut, rfl⟩
    · rw [State.setBuffer_setBuffer]
      exact ⟨rfl, [], .rejected he hx hb hinv' (hpop.trans hr) (hcont.trans hbytes), rfl⟩
  · exact ⟨rfl, [], .nothing he hx, rfl⟩
  · simp only [Prog.wp_bind]
    refine wp_disconnect hx₁ hid ?_
    exact fun w => ⟨rfl, [], .failed he hx, rfl⟩

/-- The handler of `LS_EACCEPT`. -/
theorem eventAccept_ended (hh : s.heard = none) (he : e.type = .accept) :
    Prog.wp (eventAccept e.id (e.arg.getD 0)) (fun r s' => Ended s e (r.verdict s.point) s')
      (OnError fun s' => Ended s e .raised s') s := by
  rw [eventAccept, Prog.wp_bind]
  rcases hx : s.pool (.id (e.arg.getD 0)) with _ | x
  · rw [wp_entry_none hx]
    refine fun _ => ⟨rfl, [], ?_, rfl⟩
    rw [hh]
    exact .unaccepted he fun x h => absurd (hx.symm.trans h) nofun
  rw [wp_entry hx, Prog.wp_bind]
  -- the source asserts that the listening entry has a callback
  by_cases hc : x.callback = true
  · rw [Prog.wp_check hc]
    refine ⟨rfl, [], ?_, rfl⟩
    rw [hh]
    exact .accepted he hx hc
  · rw [wp_check_not hc]
    refine fun _ => ⟨rfl, [], ?_, rfl⟩
    rw [hh]
    refine .unaccepted he fun y h => ?_
    obtain rfl : x = y := Option.some.inj (hx.symm.trans h)
    exact Bool.eq_false_iff.mpr hc

/-- The handler of `LS_ECONNECT`. -/
theorem eventConnect_ended (hs : Sound s.pool) (hh : s.heard = none) (he : e.type = .connect) :
    Prog.wp (eventConnect e.id) (fun r s' => Ended s e (r.verdict s.point) s')
      (OnError fun s' => Ended s e .raised s') s := by
  rw [eventConnect, Prog.wp_bind]
  rcases hx : s.pool (.id e.id) with _ | x
  · rw [wp_entry_none hx]
    refine fun _ => ⟨rfl, [], ?_, rfl⟩
    rw [hh]
    exact .missing (.inl he) hx
  have hid : x.id = e.id := (Key.id.inj (hs (.id e.id) x hx).1).symm
  rw [wp_entry hx, Prog.wp_bind, Prog.wp_check hid, Prog.wp_pure]
  refine ⟨rfl, [], ?_, rfl⟩
  rw [hh, Ending.verdict, hid]
  exact .connected he hx

/-- The handler of `LS_ECONNERR`. -/
theorem eventConnerr_ended (hs : Sound s.pool) (hh : s.heard = none) (he : e.type = .connerr) :
    Prog.wp (eventConnerr B e.id (e.arg.getD 0)) (fun r s' => Ended s e (r.verdict s.point) s')
      (OnError fun s' => Ended s e .raised s') s := by
  rw [eventConnerr, Prog.wp_bind]
  rcases hx : s.pool (.id e.id) with _ | x
  · rw [wp_entry_none hx]
    refine fun _ => ⟨rfl, [], ?_, rfl⟩
    rw [hh]
    exact .missing (.inr (.inl he)) hx
  have hid : x.id = e.id := (Key.id.inj (hs (.id e.id) x hx).1).symm
  rw [wp_entry hx, Prog.wp_bind, Prog.wp_check hid, Prog.wp_bind]
  refine wp_disconnect hx hid fun w => ⟨rfl, [], ?_, rfl⟩
  show Handles _ _ _ s.heard _ _ _
  rw [hh]
  exact .refused he hx

/-- No entry stands under `c`, so the handler never gets past `disconnect`. -/
theorem eventSockerr_ended (hs : Sound s.pool) (hh : s.heard = none) (he : e.type = .sockerr) :
    Prog.wp (eventSockerr B e.id (e.arg.getD 0)) (fun r s' => Ended s e (r.verdict s.point) s')
      (OnError fun s' => Ended s e .raised s') s := by
  rw [eventSockerr, Prog.wp_bind]
  rcases hx : s.pool (.id e.id) with _ | x
  · rw [wp_entry_none hx]
    refine fun _ => ⟨rfl, [], ?_, rfl⟩
    rw [hh]
    exact .missing (.inr (.inr he)) hx
  have hid : x.id = e.id := (Key.id.inj (hs (.id e.id) x hx).1).symm
  have hc : s.pool .c = none := Option.eq_none_iff_forall_ne_some.mpr fun y hy => nomatch (hs .c y hy).1
  rw [wp_entry hx, Prog.wp_bind, Prog.wp_check hid, Prog.wp_bind]
  refine wp_disconnect_none hc ⟨rfl, [], ?_, rfl⟩
  rw [hh]
  exact .broken he hx

/-- Every dispatch ends in one of the ways of `Handles`. -/
theorem handler_ended (hs : Sound s.pool) (hw : Ints s.world) (hh : s.heard = none)
    (ha : ∀ k x b, s.pool k = some x → x.buffer = some b → b.mem.cell a = none) :
    Prog.wp (handler B a e) (fun r s' => Ended s e (r.verdict s.point) s')
      (OnError fun s' => Ended s e .raised s') s := by
  have hother (h : e.type ≠ .read ∧ e.type ≠ .accept ∧ e.type ≠ .connect ∧ e.type ≠ .connerr ∧
      e.type ≠ .sockerr) : Ended s e .done s := by
    refine ⟨rfl, [], ?_, rfl⟩
    rw [hh]
    exact .ignored h
  unfold handler
  cases he : e.type with
  | read => exact eventRead_ended hs hw hh (ha _) he
  | accept => exact eventAccept_ended hh he
  | connect => exact eventConnect_ended hs hh he
  | connerr => exact eventConnerr_ended hs hh he
  | sockerr => exact eventSockerr_ended hs hh he
  | _ => exact hother (by simp [he])

end Handlers

end Lsocket.Lua
