import Lsocket.Lua.Changes

/-!
# What a call of the library does

`Called` lists the ways in which a call of Lua code can end, by what it finds in `socket_pool`: with which
result, with which pool, and with which notes. A coroutine is suspended in three of them only. What every
way keeps, every call keeps (`ends_call`).
-/

namespace Lsocket.Lua

open CInt

variable {σ : Type} {B : Backend σ} {s s' : State σ}

/-- The ways in which a call by the coroutine `me` ends. Without a result, it raises an error. -/
inductive Called (me : ℕ) (pool : Key → Option Entry) :
    Call → Option Result → (Key → Option Entry) → List Note → Prop
  /-- The pool is not touched. -/
  | same {c : Call} {r : Option Result} (hr : ∀ p, r ≠ some (.yield p)) : Called me pool c r pool []
  /-- `socket.start` and `socket.connect` make an entry. -/
  | started {c : Call} {r : Option Result} {id : ℤ} {callback : Bool}
      (hc : c = .start id callback ∨ c = .connect) (hx : pool (.id id) = none)
      (hr : ∀ p, r = some (.yield p) → p = .connecting id) :
      Called me pool c r (Function.update pool (.id id)
        (some { id, co := me, buffer := none, mode := .string starL, callback })) [.started id]
  /-- They find one. -/
  | owned {c : Call} {r : Option Result} {id : ℤ} {callback : Bool} {x : Entry}
      (hc : c = .start id callback ∨ c = .connect) (hx : pool (.id id) = some x)
      (hr : ∀ p, r = some (.yield p) → p = .connecting id) :
      Called me pool c r (Function.update pool (.id id) (some { x with co := me })) []
  | bound {id : ℤ} {co : ℕ} {r : Option Result} {x : Entry} (hx : pool (.id id) = some x)
      (hr : ∀ p, r ≠ some (.yield p)) :
      Called me pool (.bind id co) r (Function.update pool (.id id) (some { x with co })) []
  /-- `socket.shutdown`, `socket.close` and a send that fails remove the entry. -/
  | removed {c : Call} {r : Option Result} {id : ℤ} {x : Entry}
      (hc : c = .shutdown id ∨ c = .close id ∨ ∃ m junk, c = .send id m junk)
      (hx : pool (.id id) = some x) (hr : ∀ p, r ≠ some (.yield p)) :
      Called me pool c r (Function.update pool (.id id) none) []
  | enabled {id : ℤ} {enable : Bool} {r : Option Result} {x : Entry} (hx : pool (.id id) = some x)
      (hb : x.buffer = none) (hr : ∀ p, r ≠ some (.yield p)) :
      Called me pool (.readenable id enable) r
        (Function.update pool (.id id) (some { x with buffer := some Buffer.lnew })) []
  /-- `socket.read` finds no buffer. -/
  | unbuffered {id : ℤ} {mode : Buffer.PopArg} {x : Entry} (hx : pool (.id id) = some x)
      (hb : x.buffer = none) :
      Called me pool (.read id mode) none (Function.update pool (.id id) (some { x with mode })) []
  /-- `socket.read` finds too little in the buffer. -/
  | waited {id : ℤ} {mode : Buffer.PopArg} {r : Option Result} {x : Entry} {b b' : Buffer.Buf}
      (hx : pool (.id id) = some x) (hb : x.buffer = some b)
      (hcall : (Buffer.Op.pop mode).call b = (.ok .nil, b'))
      (hr : ∀ p, r = some (.yield p) → p = .reading id ∧ x.co = me) :
      Called me pool (.read id mode) r
        (Function.update pool (.id id) (some { x with mode, buffer := some b' })) []
  /-- `socket.read` returns what it pops. -/
  | returned {id : ℤ} {mode : Buffer.PopArg} {x : Entry} {b b' : Buffer.Buf} {bytes : List UInt8}
      (hx : pool (.id id) = some x) (hb : x.buffer = some b)
      (hcall : (Buffer.Op.pop mode).call b = (.ok (.string bytes), b')) :
      Called me pool (.read id mode) (some (.values [.data (.string bytes)]))
        (Function.update pool (.id id) (some { x with mode, buffer := some b' }))
        [.returned id bytes, .popped id mode bytes (cutOf b b' bytes)]
  /-- `pop` rejects the mode. -/
  | rejected {id : ℤ} {mode : Buffer.PopArg} {x : Entry} {b b' : Buffer.Buf}
      (hx : pool (.id id) = some x) (hb : x.buffer = some b)
      (hcall : (Buffer.Op.pop mode).call b = (.error .luaError, b')) :
      Called me pool (.read id mode) none
        (Function.update pool (.id id) (some { x with mode, buffer := some b' })) []

/-- The call ended in one of these ways, and has left the coroutines where they were. -/
def Ends (s : State σ) (c : Call) (r : Option Result) (s' : State σ) : Prop :=
  s'.point = s.point ∧ s'.stack = s.stack ∧
    ∃ notes, Called s.running s.pool c r s'.pool notes ∧ s'.log = notes ++ s.log

/-- The pool is as before, and no coroutine is suspended. -/
theorem Ends.same {c : Call} {r : Option Result} (w : World σ) (hr : ∀ p, r ≠ some (.yield p)) :
    Ends s c r { s with world := w } :=
  ⟨rfl, rfl, [], .same hr, rfl⟩

/-! ## Rules -/

/-- The rule for `pop` by what the method of the buffer does. -/
theorem wp_pop_call {Q : Buffer.LuaValue → State σ → Prop} {P : State σ → Prop} {id : ℤ} {e : Entry}
    {b : Buffer.Buf} (he : s.pool (.id id) = some e) (hb : e.buffer = some b)
    (hnil : ∀ b', (Buffer.Op.pop e.mode).call b = (.ok .nil, b') → Q .nil (s.setBuffer id e b'))
    (hstring : ∀ bytes b', (Buffer.Op.pop e.mode).call b = (.ok (.string bytes), b') →
      Q (.string bytes)
        { s.setBuffer id e b' with log := .popped id e.mode bytes (cutOf b b' bytes) :: s.log })
    (herror : ∀ b', (Buffer.Op.pop e.mode).call b = (.error .luaError, b') → P (s.setBuffer id e b'))
    (hinv : Buffer.Inv b) : Prog.wp (pop id) Q (OnError P) s := by
  have hself (b' : Buffer.Buf) : (s.setBuffer id e b').pool (.id id) = some { e with buffer := some b' } :=
    Function.update_self ..
  have hcase := Buffer.behave_pop e.mode (Buffer.chunks b)
  have hal : Buffer.Op.Allowed b (.pop e.mode) := trivial
  rw [← (Buffer.call_behave hinv hal).1] at hcase
  simp only [pop, Prog.wp_bind, wp_entry he]
  refine wp_onBuffer he hb (fun v b' hr => ?_) herror
  rw [hr] at hcase
  rw [Prog.wp_bind, wp_entry (hself b')]
  -- what the buffer answers is read off the chunks: nothing, a string, or a Lua error
  rcases hcase with ⟨hv, -⟩ | ⟨bytes, cut, hv, -⟩ | ⟨f, hv, -⟩
  · obtain rfl := Except.ok.inj hv
    exact hnil b' hr
  · obtain rfl := Except.ok.inj hv
    simp only [hb]
    exact hstring bytes b' hr
  · cases hv

/-- `suspend` is for the coroutine of the entry. -/
theorem wp_suspend_of {Q : Result → State σ → Prop} {P : State σ → Prop} {x : Entry} {q : Point}
    (hQ : x.co = s.running → Q (.yield q) s) (hP : P s) :
    Prog.wp (suspend x q) Q (OnError P) s := by
  rw [suspend, Prog.wp_bind, Prog.wp_read, Prog.wp_bind]
  by_cases hco : x.co = s.running
  · rw [Prog.wp_check hco, Prog.wp_bind]
    by_cases hmain : s.running ≠ 0
    · rw [Prog.wp_check hmain]
      exact hQ hco
    · exact (wp_check_not hmain).mpr fun _ => hP
  · exact (wp_check_not hco).mpr fun _ => hP

/-! ## The calls -/

/-- What `socket.start` does to the pool. -/
def startPool (s : State σ) (id : ℤ) (callback : Bool) : Key → Option Entry :=
  Function.update s.pool (.id id) <| some <|
    match s.pool (.id id) with
    | some x => { x with co := s.running }
    | none => { id, co := s.running, buffer := none, mode := .string starL, callback }

/-- What it notes. -/
def startNotes (s : State σ) (id : ℤ) : List Note :=
  if (s.pool (.id id)).isSome then [] else [.started id]

/-- `socket.start` always returns. -/
theorem wp_start {Q : Unit → State σ → Prop} {E : Fault → State σ → Prop} {id : ℤ} {callback : Bool} :
    Prog.wp (start id callback) Q E s ↔
      Q () { s with pool := startPool s id callback, log := startNotes s id ++ s.log } := by
  unfold startPool startNotes
  rw [Lua.start, Prog.wp_bind, Prog.wp_read, Prog.wp_bind, wp_lookup]
  rcases hx : s.pool (.id id) with _ | x
  · rfl
  · rw [wp_setEntry _ hx]
    rfl

/-- `socket.start`, also as a part of `socket.connect`. -/
theorem called_start {c : Call} {r : Option Result} {id : ℤ} {callback : Bool}
    (hc : c = .start id callback ∨ c = .connect)
    (hr : ∀ p, r = some (.yield p) → p = .connecting id) :
    Called s.running s.pool c r (startPool s id callback) (startNotes s id) := by
  unfold startPool startNotes
  rcases hx : s.pool (.id id) with _ | x
  · exact .started hc hx hr
  · exact .owned hc hx hr

/-- The ends of `socket.listen`. -/
theorem ends_listen (s : State σ) :
    Prog.wp (listen B) (fun r s' => Ends s .listen (some r) s') (OnError fun s' => Ends s .listen none s')
      s := by
  rw [listen, Prog.wp_bind]
  refine wp_net_any fun id w => ?_
  split
  · exact .same w nofun
  · rw [Prog.wp_bind, wp_lasterrno]
    exact .same w nofun

/-- The ends of `socket.connect`: it returns, or waits for the end of the connect. -/
theorem ends_connect (s : State σ) :
    Prog.wp (connect B) (fun r s' => Ends s .connect (some r) s')
      (OnError fun s' => Ends s .connect none s') s := by
  rw [connect, Prog.wp_bind]
  refine wp_net_any fun id w => ?_
  rw [Prog.wp_bind, wp_lasterrno]
  split
  swap
  · exact .same w nofun
  rw [Prog.wp_bind, wp_start]
  have hends (r : Option Result) (hr : ∀ p, r = some (.yield p) → p = .connecting id) :
      Ends s .connect r { s with
        world := w
        pool := startPool { s with world := w } id false
        log := startNotes { s with world := w } id ++ s.log } :=
    ⟨rfl, rfl, _, called_start (s := { s with world := w }) (.inr rfl) hr, rfl⟩
  split
  · rw [Prog.wp_bind, wp_entry (Function.update_self ..)]
    refine wp_suspend_of (fun _ => hends _ fun p hp => ?_) (hends _ nofun)
    exact (Result.yield.inj (Option.some.inj hp)).symm
  · exact hends _ nofun

/-- `disconnect`, as a part of a call. -/
theorem ends_disconnect {c : Call} {id : ℤ} {force : Bool} {r : Result} (hs : Sound s.pool)
    (hc : c = .shutdown id ∨ c = .close id ∨ ∃ m junk, c = .send id m junk)
    (hr : ∀ p, r ≠ .yield p) :
    Prog.wp (disconnect B (.id id) force) (fun _ s' => Ends s c (some r) s')
      (OnError fun s' => Ends s c none s') s := by
  rcases hx : s.pool (.id id) with _ | x
  · exact wp_disconnect_none hx (.same s.world nofun)
  · refine wp_disconnect hx (hs.id_eq hx) fun w => ⟨rfl, rfl, [], .removed hc hx ?_, rfl⟩
    exact fun p h => hr p (Option.some.inj h)

/-- The ends of `socket.bind`. -/
theorem ends_bind (s : State σ) (id : ℤ) (co : ℕ) :
    Prog.wp (Lua.bind id co) (fun _ s' => Ends s (.bind id co) (some (.values [])) s')
      (OnError fun s' => Ends s (.bind id co) none s') s := by
  rw [Lua.bind, Prog.wp_bind]
  rcases hx : s.pool (.id id) with _ | x
  · exact (wp_entry_none hx).mpr fun _ => .same s.world nofun
  · rw [wp_entry hx, wp_setEntry _ hx]
    exact ⟨rfl, rfl, [], .bound hx nofun, rfl⟩

/-- The ends of `socket.readenable`, which makes a buffer. -/
theorem ends_readenable (s : State σ) (id : ℤ) (enable : Bool) :
    Prog.wp (readenable B id enable)
      (fun _ s' => Ends s (.readenable id enable) (some (.values [])) s')
      (OnError fun s' => Ends s (.readenable id enable) none s') s := by
  rw [readenable, Prog.wp_bind]
  rcases hx : s.pool (.id id) with _ | x
  · exact (wp_entry_none hx).mpr fun _ => .same s.world nofun
  rw [wp_entry hx, Prog.wp_bind, lreadenable, Prog.wp_bind]
  refine wp_net_any fun _ w => ?_
  have hx' : ({ s with world := w } : State σ).pool (.id id) = some x := hx
  rw [Prog.wp_pure, Prog.wp_bind, wp_entry hx']
  split
  · next h =>
    rw [wp_setEntry _ hx']
    exact ⟨rfl, rfl, [], .enabled hx (Option.isNone_iff_eq_none.mp h.2) nofun, rfl⟩
  · exact .same w nofun

/-- The ends of `socket.read`: it returns a message, or waits for one. -/
theorem ends_read (hs : Sound s.pool) (id : ℤ) (mode : Buffer.PopArg) :
    Prog.wp (read id mode) (fun r s' => Ends s (.read id mode) (some r) s')
      (OnError fun s' => Ends s (.read id mode) none s') s := by
  rw [read, Prog.wp_bind]
  rcases hx : s.pool (.id id) with _ | x
  · exact (wp_entry_none hx).mpr fun _ => .same s.world nofun
  rw [wp_entry hx, Prog.wp_bind, Prog.wp_check (hs.id_eq hx), Prog.wp_bind, wp_setEntry _ hx,
    Prog.wp_bind]
  have hx' : ({ s with pool := Function.update s.pool (.id id) (some { x with mode }) } :
      State σ).pool (.id id) = some { x with mode } := Function.update_self ..
  rcases Option.eq_none_or_eq_some x.buffer with hb | ⟨b, hb⟩
  · exact wp_pop_none hx' hb ⟨rfl, rfl, [], .unbuffered hx hb, rfl⟩
  -- the mode is written first, the buffer after the pop: one update of the entry
  have hpool (b' : Buffer.Buf) : (State.setBuffer
      { s with pool := Function.update s.pool (.id id) (some { x with mode }) } id { x with mode } b').pool
        = Function.update s.pool (.id id) (some { x with mode, buffer := some b' }) :=
    Function.update_idem ..
  -- not enough yet, and it waits; a message; or a mode that raises an error
  refine wp_pop_call hx' hb (fun b' hcall => ?_) (fun bytes b' hcall => ?_) (fun b' hcall => ?_)
    ((hs _ x hx).2 b hb)
  · refine wp_suspend_of (fun hco => ⟨rfl, rfl, [], ?_, rfl⟩) ⟨rfl, rfl, [], ?_, rfl⟩
    · rw [hpool]
      refine .waited hx hb hcall fun p hp => ⟨?_, hco⟩
      exact (Result.yield.inj (Option.some.inj hp)).symm
    · rw [hpool]
      exact .waited hx hb hcall nofun
  · refine ⟨rfl, rfl, [.returned id bytes, .popped id mode bytes (cutOf b b' bytes)], ?_, rfl⟩
    show Called _ _ _ _ (State.setBuffer _ id { x with mode } b').pool _
    rw [hpool]
    exact .returned hx hb hcall
  · refine ⟨rfl, rfl, [], ?_, rfl⟩
    rw [hpool]
    exact .rejected hx hb hcall

/-- `c.send` touches nothing but the net. -/
theorem wp_lsend {Q : Answer → State σ → Prop} {P : State σ → Prop} {id : ℤ} {m : Message} {junk : ℤ}
    (hQ : ∀ r w, Q r { s with world := w }) : Prog.wp (lsend B id m junk) Q (OnError P) s := by
  have hsend (id' : ℤ) (data : Block) (sz : ℤ) (Q : ℤ → State σ → Prop)
      (hQ : ∀ r w, Q r { s with world := w }) :
      Prog.wp (psocketSend B id' data sz junk) Q (OnError P) s := by
    rw [psocketSend, Prog.wp_bind]
    refine wp_net_any fun n w => ?_
    split <;> exact hQ _ w
  rcases m with ⟨data, sz⟩ | ⟨bytes, i, j, token⟩
  · rw [lsend, Prog.wp_bind]
    exact hsend _ _ _ _ fun _ w => hQ _ w
  · rw [lsend]
    split
    · exact hQ _ s.world
    · rw [Prog.wp_bind]
      exact hsend _ _ _ _ fun _ w => hQ _ w

/-- The ends of `socket.send`, which disconnects if the data is not sent. -/
theorem ends_send (hs : Sound s.pool) (id : ℤ) (m : Message) (junk : ℤ) :
    Prog.wp (send B id m junk) (fun r s' => Ends s (.send id m junk) (some r) s')
      (OnError fun s' => Ends s (.send id m junk) none s') s := by
  rw [send, Prog.wp_bind]
  refine wp_lsend fun r w => ?_
  cases r with
  | nil | nothing => exact .same w nofun
  | failed err =>
    rw [Prog.wp_bind]
    exact ends_disconnect (s := { s with world := w }) (r := .values [.nil, .text (socketError err)]) hs
      (.inr (.inr ⟨m, junk, rfl⟩)) nofun

/-- Every call of the library. -/
theorem ends_call (hs : Sound s.pool) (c : Call) :
    Prog.wp (c.run B) (fun r s' => Ends s c (some r) s') (OnError fun s' => Ends s c none s') s := by
  cases c with
  | listen => exact ends_listen s
  | connect => exact ends_connect s
  | start id callback =>
    refine (Prog.wp_map ..).mpr (wp_start.mpr ⟨rfl, rfl, _, ?_, rfl⟩)
    exact called_start (.inl rfl) nofun
  | bind id co => exact (Prog.wp_map ..).mpr (ends_bind s id co)
  | shutdown id => exact (Prog.wp_map ..).mpr (ends_disconnect hs (.inl rfl) nofun)
  | close id => exact (Prog.wp_map ..).mpr (ends_disconnect hs (.inr (.inl rfl)) nofun)
  | readenable id enable => exact (Prog.wp_map ..).mpr (ends_readenable s id enable)
  | read id mode => exact ends_read hs id mode
  | send id m junk => exact ends_send hs id m junk

/-! ## The steps -/

/-- What a step does, in full. -/
inductive Step.Ran (B : Backend σ) (s : State σ) : Step → State σ → Prop
  | returned {c : Call} {rs : List Reply} {vs : List Value} {s' : State σ}
      (h : c.run B (s.answer rs) = (.ok (.values vs), s')) : Ran B s (.call c rs) s'
  | suspended {c : Call} {rs : List Reply} {p : Point} {s₁ s' : State σ}
      (h : c.run B (s.answer rs) = (.ok (.yield p), s₁)) (hl : s₁.leave p = some s') :
      Ran B s (.call c rs) s'
  | raised {c : Call} {rs : List Reply} {s' : State σ}
      (h : c.run B (s.answer rs) = (.error .error, s')) : Ran B s (.call c rs) s'
  | resumed {k : ℕ} : Ran B s (.resume k) (s.enter k (.resumed k))
  | yielded {s' : State σ} (hl : s.leave .elsewhere = some s') : Ran B s .yield s'
  | finished {f : Frame} {st : List Frame} (h : s.stack = f :: st) :
      Ran B s .finish { s with stack := st }
  | polled {timeout : ℤ} {rs : List Reply} {es : List SocketEvent} {w : World σ}
      (h : socketPoll B timeout (s.answer rs).world = (.ok es, w)) :
      Ran B s (.poll timeout rs) { s with world := w, pending := es.flatMap expand }
  | dispatched {a : ℕ} {rs : List Reply} {e : SocketEvent} {rest : List SocketEvent} {v : Verdict}
      {s₁ : State σ} (hp : s.pending = e :: rest) (h : Lua.dispatch B a e (s.answer rs) = some (v, s₁)) :
      Ran B s (.dispatch a rs) { s₁ with pending := rest, log := .turn (turn s e v s₁) :: s₁.log }

/-- Every step that can be taken is one of these. -/
theorem Step.ran {l : Step} (h : l.run B s = some s') : l.Ran B s s' := by
  -- each action runs in one way only, but a call, which returns, raises or suspends
  cases l with
  | call c rs =>
    simp only [run, Option.ite_none_right_eq_some] at h
    obtain ⟨-, h⟩ := h
    rcases hr : c.run B (s.answer rs) with ⟨f | r, s₁⟩ <;> rw [hr] at h
    · cases f with
      | error => exact .raised (Option.some.inj h ▸ hr)
      | _ => cases h
    · cases r with
      | values => exact .returned (Option.some.inj h ▸ hr)
      | yield p => exact .suspended hr h
  | resume k =>
    simp only [run, Option.ite_none_right_eq_some, Option.some.injEq] at h
    exact h.2 ▸ .resumed
  | yield => exact .yielded h
  | finish =>
    simp only [run] at h
    split at h
    · next hst => exact Option.some.inj h ▸ .finished hst
    · cases h
  | poll timeout rs =>
    simp only [run, Option.ite_none_right_eq_some] at h
    obtain ⟨-, h⟩ := h
    split at h
    · next hr => exact Option.some.inj h ▸ .polled hr
    · cases h
  | dispatch a rs =>
    simp only [run] at h
    split at h
    · next hpending =>
      obtain ⟨⟨v, s₁⟩, hd, rfl⟩ := Option.map_eq_some_iff.mp h
      exact .dispatched hpending hd
    · cases h

/-- The coroutine that `leave` suspends is the one that runs. -/
theorem State.leave_eq {p : Point} (h : s.leave p = some s') :
    s'.point = Function.update s.point s.running (some p) ∧ s'.pool = s.pool ∧
      s'.pending = s.pending := by
  unfold leave at h
  split at h
  · next k st hst =>
    obtain rfl := Option.some.inj h
    simp [State.running, hst]
  · next k st hst =>
    obtain rfl := Option.some.inj h
    simp [State.running, hst]
  · cases h

/-- Whom `leave` suspends waits at the point named, and the others wait where they did. -/
theorem State.point_of_leave {k : ℕ} {p q : Point} (h : s.leave p = some s') (hk : s'.point k = some q) :
    (k = s.running ∧ q = p) ∨ s.point k = some q := by
  rw [(State.leave_eq h).1] at hk
  by_cases hme : k = s.running
  · rw [hme, Function.update_self] at hk
    exact .inl ⟨hme, (Option.some.inj hk).symm⟩
  · exact .inr ((Function.update_of_ne hme ..).symm.trans hk)

/-- Whoever is suspended after a coroutine was entered is another one, and was suspended before. -/
theorem State.point_of_enter {j k : ℕ} {f : Frame} {q : Point} (hk : (s.enter j f).point k = some q) :
    k ≠ j ∧ s.point k = some q := by
  have hkj : k ≠ j := by
    rintro rfl
    cases (Function.update_self ..).symm.trans hk
  exact ⟨hkj, (Function.update_of_ne hkj ..).symm.trans hk⟩

/-- A call that suspends its coroutine leaves the others where they are. -/
theorem Ends.point_of_leave {c : Call} {r : Option Result} {s₁ : State σ} {k : ℕ} {p q : Point}
    (h : Ends s c r s₁) (hl : s₁.leave p = some s') (hk : s'.point k = some q) :
    (k = s.running ∧ q = p) ∨ s.point k = some q := by
  obtain ⟨hpoint, hstack, -⟩ := h
  have hrunning : s₁.running = s.running := by
    unfold State.running
    rw [hstack]
  rw [← hpoint, ← hrunning]
  exact State.point_of_leave hl hk

/-- What a call of a step does to the pool and to the notes. -/
theorem ends_answer (hs : Sound s.pool) (c : Call) (rs : List Reply) :
    Prog.wp (c.run B) (fun r s' => Ends s c (some r) s') (OnError fun s' => Ends s c none s')
      (s.answer rs) :=
  ends_call (s := s.answer rs) hs c

/-! ## Taking an entry away -/

/-- The call takes the entry of `id` away from its coroutine: it makes another one its owner, or removes
it. A new connection may get the id of an entry that has been left behind. -/
def Call.Robs (B : Backend σ) (s : State σ) (rs : List Reply) (id : ℤ) : Call → Prop
  | .start n _ => n = id ∧ ∃ x, s.pool (.id id) = some x ∧ x.co ≠ s.running
  | .connect => (socketConnect B false 0 (s.answer rs).world).1 = .ok id ∧
      ∃ x, s.pool (.id id) = some x ∧ x.co ≠ s.running
  | .bind n co => n = id ∧ ∃ x, s.pool (.id id) = some x ∧ x.co ≠ co
  | .shutdown n | .close n => n = id
  | .send n m junk => n = id ∧ ∃ err, (lsend B n m junk (s.answer rs)).1 = .ok (.failed err)
  | .listen | .readenable _ _ | .read _ _ => False

/-- The entry of `id` is there, and belongs to the coroutine `k`. -/
def Owns (k : ℕ) (id : ℤ) (pool : Key → Option Entry) : Prop := ∃ x, pool (.id id) = some x ∧ x.co = k

section Robs

variable {k : ℕ} {id n : ℤ} {pool : Key → Option Entry} {x : Entry}

/-- An entry that is set for its owner. -/
theorem Owns.update {y : Entry} (h : Owns k id pool) (hy : n = id → y.co = k) :
    Owns k id (Function.update pool (.id n) (some y)) := by
  by_cases hn : n = id
  · subst hn
    exact ⟨y, Function.update_self .., hy rfl⟩
  · obtain ⟨x, hx, hk⟩ := h
    exact ⟨x, (Function.update_of_ne (fun hkey => hn (Key.id.inj hkey).symm) ..).trans hx, hk⟩

/-- The entry of another socket is removed. -/
theorem Owns.remove (h : Owns k id pool) (hn : n ≠ id) : Owns k id (Function.update pool (.id n) none) := by
  obtain ⟨x, hx, hk⟩ := h
  exact ⟨x, (Function.update_of_ne (fun hkey => hn (Key.id.inj hkey).symm) ..).trans hx, hk⟩

/-- The owner of an entry that is found. -/
theorem Owns.co_eq (h : Owns k id pool) (hx : pool (.id n) = some x) (hn : n = id) : x.co = k := by
  subst hn
  obtain ⟨y, hy, hk⟩ := h
  rwa [Option.some.inj (hx.symm.trans hy)]

/-- `socket.start` by the owner, or on another socket. -/
theorem Owns.startPool {callback : Bool} (h : Owns k id s.pool) (hn : n = id → s.running = k) :
    Owns k id (startPool s n callback) := by
  refine h.update fun hid => ?_
  split
  · exact hn hid
  · exact hn hid

/-- Whoever is not robbed of the entry owns it still. -/
theorem Called.owns {c : Call} {r : Option Result} {notes : List Note} {rs : List Reply}
    (h : Called s.running s.pool c r pool notes) (ho : Owns k id s.pool) (hc : ¬ c.Robs B s rs id)
    (hconnect : c ≠ .connect) (hsend : ∀ n m junk, c ≠ .send n m junk) : Owns k id pool := by
  cases h with
  | same => exact ho
  | @started _ _ n _ hc' hx =>
    refine ho.update fun hn => ?_
    obtain ⟨y, hy, -⟩ := ho
    cases (hn ▸ hx).symm.trans hy
  | @owned _ _ n _ x hc' hx =>
    obtain rfl := hc'.resolve_right hconnect
    refine ho.update fun hn => ?_
    subst hn
    by_contra hne
    exact hc ⟨rfl, x, hx, fun hco => hne (hco.symm.trans (ho.co_eq hx rfl))⟩
  | @bound n co _ x hx =>
    refine ho.update fun hn => ?_
    subst hn
    by_contra hne
    exact hc ⟨rfl, x, hx, fun hco => hne (hco.symm.trans (ho.co_eq hx rfl))⟩
  | @removed _ _ n x hc' hx =>
    rcases hc' with rfl | rfl | ⟨m, junk, rfl⟩
    · exact ho.remove hc
    · exact ho.remove hc
    · exact absurd rfl (hsend n m junk)
  | enabled hx | unbuffered hx | waited hx | returned hx | rejected hx =>
    exact ho.update fun hn => (ho.co_eq hx hn :)

/-- `socket.connect` makes the running coroutine the owner of the id that it is given. -/
theorem owns_connect (ho : Owns k id s.pool)
    (hc : (socketConnect B false 0 s.world).1 = .ok id → s.running = k) :
    Prog.wp (connect B) (fun _ s' => Owns k id s'.pool) (OnError fun s' => Owns k id s'.pool) s := by
  rw [connect, Prog.wp_bind]
  unfold Prog.wp Lua.net
  rcases hr : socketConnect B false 0 s.world with ⟨e | n, w⟩
  · intro h
    cases h
  have hstart : Owns k id (startPool { s with world := w } n false) :=
    Owns.startPool (s := { s with world := w }) ho fun hn => hc (by rw [hr, hn])
  show Prog.wp _ _ _ _
  rw [Prog.wp_bind, wp_lasterrno]
  split
  swap
  · exact ho
  rw [Prog.wp_bind, wp_start]
  split
  · rw [Prog.wp_bind, wp_entry (Function.update_self ..)]
    exact wp_suspend_of (fun _ => hstart) hstart
  · exact hstart

/-- A send removes the entry only if it fails. -/
theorem owns_send {m : Message} {junk : ℤ} (hs : Sound s.pool) (ho : Owns k id s.pool)
    (hc : n = id → ∀ err, (lsend B n m junk s).1 ≠ .ok (.failed err)) :
    Prog.wp (send B n m junk) (fun _ s' => Owns k id s'.pool) (OnError fun s' => Owns k id s'.pool) s := by
  have hl : Prog.wp (lsend B n m junk) (fun r s' => (∃ w, s' = { s with world := w }) ∧
      (lsend B n m junk s).1 = .ok r) (OnError fun s' => Owns k id s'.pool) s := by
    have hany : Prog.wp (lsend B n m junk) (fun _ s' => ∃ w, s' = { s with world := w })
        (OnError fun s' => Owns k id s'.pool) s := wp_lsend fun _ w => ⟨w, rfl⟩
    unfold Prog.wp at hany ⊢
    rcases hr : lsend B n m junk s with ⟨e | r, s₁⟩ <;> rw [hr] at hany
    · exact hany
    · exact ⟨hany, rfl⟩
  rw [send, Prog.wp_bind]
  refine Prog.wp_mono hl ?_
  rintro r _ ⟨⟨w, rfl⟩, hr⟩
  cases r with
  | nil | nothing => exact ho
  | failed err =>
    -- a send that fails drops the entry it was for
    have hn : n ≠ id := fun hn => hc hn err hr
    rw [Prog.wp_bind]
    rcases hx : s.pool (.id n) with _ | y
    · exact wp_disconnect_none hx ho
    · exact wp_disconnect hx (hs.id_eq hx) fun w' => ho.remove hn

/-- Whoever is not robbed of the entry by a call owns it still. -/
theorem owns_call {c : Call} {rs : List Reply} (hs : Sound s.pool) (ho : Owns k id s.pool)
    (hc : ¬ c.Robs B s rs id) :
    Prog.wp (c.run B) (fun _ s' => Owns k id s'.pool) (OnError fun s' => Owns k id s'.pool)
      (s.answer rs) := by
  by_cases hconnect : c = .connect
  · subst hconnect
    refine owns_connect (s := s.answer rs) ho fun hid => ?_
    by_contra hne
    obtain ⟨x, hx, hk⟩ := ho
    exact hc ⟨hid, x, hx, fun hco => hne (hco.symm.trans hk)⟩
  -- sends and connects are looked at by their outcome, all other calls by their name
  by_cases hsend : ∃ n m junk, c = .send n m junk
  · obtain ⟨n, m, junk, rfl⟩ := hsend
    exact owns_send (s := s.answer rs) hs ho fun hn err herr => hc ⟨hn, err, herr⟩
  have hends := ends_answer (B := B) hs c rs
  have howns {r : Option Result} {s' : State σ} (h : Ends s c r s') : Owns k id s'.pool := by
    obtain ⟨-, -, notes, hcalled, -⟩ := h
    exact hcalled.owns ho hc hconnect fun n m junk hn => hsend ⟨n, m, junk, hn⟩
  unfold Prog.wp at hends ⊢
  rcases hr : c.run B (s.answer rs) with ⟨e | r, s'⟩ <;> rw [hr] at hends
  · exact fun he => howns (hends he)
  · exact howns hends

/-- The same after the step, in which the coroutine may be suspended. -/
theorem owns_step {c : Call} {rs : List Reply} (hs : Sound s.pool) (ho : Owns k id s.pool)
    (hc : ¬ c.Robs B s rs id) (h : (Step.call c rs).run B s = some s') : Owns k id s'.pool := by
  have hcall := owns_call hs ho hc
  cases Step.ran h with
  | returned h =>
    have howns := Prog.wp_ok hcall h
    exact howns
  | raised h => exact Prog.wp_error hcall h rfl
  | suspended h hl =>
    have howns := Prog.wp_ok hcall h
    rw [(State.leave_eq hl).2.1]
    exact howns

end Robs

end Lsocket.Lua
