import Lsocket.Lua.Called
import Lsocket.Net.Epoll

/-!
# No wakeup is lost

A coroutine that waits in `socket.read` is woken by the event whose data complete its message. This takes
that nothing complete is in the buffer when it goes to sleep, or stays there after an event, and that the
entry names the coroutine. It holds as long as Lua code keeps off the sockets that others wait for.
-/

namespace Lsocket

/-! ## Nothing to pop -/

namespace Buffer

variable {mode : PopArg} {cs : List (List UInt8)} {b b' : Buf} {r : Except Fault LuaValue}

/-- A pop that finds no message leaves the chunks as they are. -/
theorem behave_pop_keeps (mode : PopArg) (cs : List (List UInt8)) :
    (∃ bytes, (behave (.pop mode) cs).1 = .ok (.string bytes)) ∨ (behave (.pop mode) cs).2 = cs := by
  have hall : (∃ bytes, (popAll cs).1 = .ok (.string bytes)) ∨ (popAll cs).2 = cs := by
    rcases cs with _ | ⟨x, xs⟩
    · exact .inr rfl
    · exact .inl ⟨_, rfl⟩
  -- every branch either hands out a string or leaves the chunks alone
  cases mode with
  | none => exact hall
  | other => exact hall
  | number n =>
    simp only [behave, popNumber]
    split
    · exact .inr rfl
    split
    · exact .inr rfl
    split
    · exact .inr rfl
    split
    · exact .inr rfl
    · exact .inl ⟨_, rfl⟩
  | string sep =>
    simp only [behave, popSep]
    split
    swap
    · exact .inr rfl
    split
    · exact .inr rfl
    split
    · exact .inr rfl
    · exact .inl ⟨_, rfl⟩

/-- After a pop that finds no message, the next one finds none either. -/
theorem pop_again (hinv : Inv b) (hcall : (Op.pop mode).call b = (r, b'))
    (hr : (∃ v, r = .ok v) ∨ r = .error .luaError) (hne : ∀ bytes, r ≠ .ok (.string bytes)) :
    ((Op.pop mode).call b').1 = r := by
  have hal (b : Buf) : (Op.pop mode).Allowed b := trivial
  have hinv' : Inv b' := by
    refine hinv.call (hal b) ?_
    rcases hr with ⟨v, rfl⟩ | rfl
    · exact .inl ⟨v, hcall⟩
    · exact .inr hcall
  obtain ⟨hret, hchunks⟩ := call_behave hinv (hal b)
  rw [hcall] at hret hchunks
  have hkeep := (behave_pop_keeps mode (chunks b)).resolve_left fun ⟨bytes, hb⟩ =>
    hne bytes (hret.trans hb)
  rw [(call_behave hinv' (hal b')).1, show chunks b' = chunks b from hchunks.trans hkeep]
  exact hret.symm

end Buffer

namespace Lua

open CInt

variable {σ : Type} {B : Backend σ} {s s' : State σ} {id : ℤ} {x y : Entry}

/-- A pop with the mode of the entry finds no message. -/
def Entry.Idle (x : Entry) : Prop :=
  ∃ b, x.buffer = some b ∧ ∀ bytes, ((Buffer.Op.pop x.mode).call b).1 ≠ .ok (.string bytes)

/-- A pop that finds no message finds none the second time. -/
theorem Entry.idle_of_call {mode : Buffer.PopArg} {b b' : Buffer.Buf}
    {r : Except Buffer.Fault Buffer.LuaValue} (hinv : Buffer.Inv b)
    (hcall : (Buffer.Op.pop mode).call b = (r, b')) (hr : (∃ v, r = .ok v) ∨ r = .error .luaError)
    (hne : ∀ bytes, r ≠ .ok (.string bytes)) : Entry.Idle { x with mode, buffer := some b' } :=
  ⟨b', rfl, fun bytes => Buffer.pop_again hinv hcall hr hne ▸ hne bytes⟩

/-! ## Dispatch -/

/-- The entry with its new buffer. -/
theorem State.setBuffer_self (s : State σ) (id : ℤ) (e : Entry) (b : Buffer.Buf) :
    (s.setBuffer id e b).pool (.id id) = some { e with buffer := some b } := Function.update_self ..

/-- The handler of `LS_EREAD` asks for a wakeup of the coroutine of the entry, or leaves no message in the
buffer that it has put data into. -/
def Left (s : State σ) (id : ℤ) (r : Option Ending) (s' : State σ) : Prop :=
  (∃ x args, s.pool (.id id) = some x ∧ r = some (.wakeup x.co args)) ∨
    ∀ y, s'.pool (.id id) = some y → s.pool (.id id) = some y ∨ y.Idle

/-- The handler of `LS_EREAD` leaves the entry of its coroutine idle, or wakes the coroutine. -/
theorem eventRead_left {id : ℤ} {a : ℕ} (hs : Sound s.pool) (hw : Ints s.world)
    (ha : ∀ x b, s.pool (.id id) = some x → x.buffer = some b → b.mem.cell a = none) :
    Prog.wp (eventRead B id a) (fun r s' => Left s id (some r) s')
      (OnError fun s' => Left s id none s') s := by
  rw [eventRead, Prog.wp_bind, wp_lookup]
  rcases hx : s.pool (.id id) with _ | x
  · exact .inr fun y hy => .inl hy
  have hinv := (hs (.id id) x hx).2
  simp only [Prog.wp_bind]
  refine wp_lread hw fun h w hm => ?_
  have hx₁ : ({ s with world := w, heard := some h } : State σ).pool (.id id) = some x := hx
  rcases h with ⟨block, n⟩ | _ | err
  · simp only [Prog.wp_bind]
    rcases Option.eq_none_or_eq_some x.buffer with hb | ⟨b, hb⟩
    · exact (wp_onBuffer_none hx₁ hb).mpr (.inr fun y hy => .inl hy)
    obtain ⟨hpos, hlen, hmax⟩ := hm
    refine wp_push hx₁ hb (hinv b hb) (ha x b hx hb) hpos hlen hmax fun _ b₁ hinv₁ _ => ?_
    have hx₂ : (({ s with world := w, heard := some (.data block n) } : State σ).setBuffer id x
        b₁).pool (.id id) = some { x with buffer := some b₁ } := Function.update_self ..
    -- a pop that gave no message leaves an entry that has none ready
    have hidle {r : Except Buffer.Fault Buffer.LuaValue} {b' : Buffer.Buf} {o : Option Ending}
        (hcall : (Buffer.Op.pop x.mode).call b₁ = (r, b')) (hr : (∃ v, r = .ok v) ∨ r = .error .luaError)
        (hne : ∀ bytes, r ≠ .ok (.string bytes)) :
        Left s id o (State.setBuffer (State.setBuffer
          { s with world := w, heard := some (.data block n) } id x b₁) id { x with buffer := some b₁ } b') := by
      refine .inr fun y hy => .inr ?_
      rw [State.setBuffer_self] at hy
      obtain rfl := Option.some.inj hy
      exact Entry.idle_of_call (x := x) hinv₁ hcall hr hne
    rw [Prog.wp_bind]
    refine wp_pop_call hx₂ rfl (fun b' hcall => ?_) (fun bytes b' hcall => ?_) (fun b' hcall => ?_) hinv₁
    · exact hidle hcall (.inl ⟨_, rfl⟩) nofun
    · exact .inl ⟨x, _, hx, rfl⟩
    · exact hidle hcall (.inr rfl) nofun
  · exact .inr fun y hy => .inl hy
  · simp only [Prog.wp_bind]
    refine wp_disconnect hx₁ (hs.id_eq hx) fun w => .inl ⟨x, _, hx, rfl⟩

/-- The same for the dispatch of a read event. -/
theorem dispatch_left {a : ℕ} {e : SocketEvent} {v : Verdict} (h : dispatch B a e s = some (v, s'))
    (he : e.type = .read) (hs : Sound s.pool) (hw : Ints s.world)
    (ha : ∀ k x b, s.pool k = some x → x.buffer = some b → b.mem.cell a = none) :
    (∃ x args, s.pool (.id e.id) = some x ∧ v = woken s.point x.co args) ∨
      ∀ y, s'.pool (.id e.id) = some y → s.pool (.id e.id) = some y ∨ y.Idle := by
  have hended := handler_ended (B := B) (s := { s with heard := none }) (e := e) hs hw rfl ha
  have hleft : Prog.wp (handler B a e) (fun r s' => Left s e.id (some r) s')
      (OnError fun s' => Left s e.id none s') { s with heard := none } := by
    rw [handler, he]
    exact eventRead_left (s := { s with heard := none }) hs hw (ha _)
  unfold dispatch at h
  unfold Prog.wp at hended hleft
  rcases hr : handler B a e { s with heard := none } with ⟨f | r, s₁⟩ <;> rw [hr] at hended hleft h
  · cases f with
    | error =>
      obtain ⟨-, rfl⟩ := Prod.mk.inj (Option.some.inj h)
      refine (hleft rfl).imp_left ?_
      rintro ⟨x, args, -, hno⟩
      cases hno
    | _ => cases h
  -- the verdict is given after the handler, and the pool is what the handler left
  · have hperform : r.perform s₁ = (v, s') := Option.some.inj h
    have hpool : s'.pool = s₁.pool := by
      have := (r.perform_snd s₁).1
      rw [hperform] at this
      exact congrArg Prod.fst this
    rw [hpool]
    refine hleft.imp_left ?_
    rintro ⟨x, args, hx, hwake⟩
    obtain rfl := Option.some.inj hwake
    refine ⟨x, args, hx, ?_⟩
    have hv := Ending.perform_fst (.wakeup x.co args) s₁
    rw [hperform, hended.1] at hv
    exact hv

/-- Whoever is suspended after a dispatch was suspended before, and was not woken. -/
theorem dispatch_point {a : ℕ} {e : SocketEvent} {v : Verdict} {k : ℕ} {p : Point}
    (h : dispatch B a e s = some (v, s')) (hs : Sound s.pool) (hw : Ints s.world)
    (ha : ∀ k x b, s.pool k = some x → x.buffer = some b → b.mem.cell a = none)
    (hk : s'.point k = some p) : s.point k = some p ∧ ∀ args, v ≠ .woke k args := by
  have hended := handler_ended (B := B) (s := { s with heard := none }) (e := e) hs hw rfl ha
  unfold dispatch at h
  unfold Prog.wp at hended
  rcases hr : handler B a e { s with heard := none } with ⟨f | r, s₁⟩ <;> rw [hr] at hended h
  · cases f with
    | error =>
      obtain ⟨rfl, rfl⟩ := Prod.mk.inj (Option.some.inj h)
      exact ⟨(congrFun (hended rfl).1 k).symm.trans hk, nofun⟩
    | _ => cases h
  · have hperform : r.perform s₁ = (v, s') := Option.some.inj h
    have hpoint : s₁.point = s.point := hended.1
    rw [← hpoint]
    cases r with
    | done =>
      obtain ⟨rfl, rfl⟩ := Prod.mk.inj hperform
      exact ⟨hk, nofun⟩
    | callback id =>
      obtain ⟨rfl, rfl⟩ := Prod.mk.inj hperform
      exact ⟨hk, nofun⟩
    | wakeup j args =>
      rcases hq : s₁.point j with _ | q <;> simp only [Ending.perform, hq] at hperform
      · obtain ⟨rfl, rfl⟩ := Prod.mk.inj hperform
        exact ⟨hk, nofun⟩
      · obtain ⟨rfl, rfl⟩ := Prod.mk.inj hperform
        obtain ⟨hkj, hk⟩ := State.point_of_enter hk
        exact ⟨hk, fun args' hw => hkj (Verdict.woke.inj hw).1.symm⟩

/-- An entry whose coroutine is not woken stays as it is, or gets data. -/
theorem Handles.keeps {pool pool' : Key → Option Entry} {point : ℕ → Option Point} {e : SocketEvent}
    {heard : Option Heard} {v : Verdict} {notes : List Note}
    (h : Handles pool point e heard v pool' notes) (hx : pool (.id id) = some x)
    (hv : ∀ args, v ≠ woken point x.co args) :
    pool' (.id id) = pool (.id id) ∨
      id = e.id ∧ e.type = .read ∧ ∃ b, pool' (.id id) = some { x with buffer := some b } := by
  by_cases hid : id = e.id
  swap
  · have hkey : Key.id id ≠ .id e.id := fun h => hid (Key.id.inj h)
    left
    cases h with
    | failed | kept | popped | rejected | refused => exact Function.update_of_ne hkey ..
    | _ => rfl
  subst hid
  have huniq {y : Entry} (hy : pool (.id e.id) = some y) : y = x := Option.some.inj (hy.symm.trans hx)
  cases h with
  | failed _ hy | connected _ hy | refused _ hy =>
    obtain rfl := huniq hy
    exact absurd rfl (hv _)
  | popped _ hy =>
    obtain rfl := huniq hy
    exact absurd rfl (hv _)
  | kept he hy | rejected he hy =>
    obtain rfl := huniq hy
    exact .inr ⟨rfl, he, _, Function.update_self ..⟩
  | _ => exact .inl rfl

/-! ## Runs -/

/-- Every coroutine that waits in `socket.read` has an entry of its own, and no message in the buffer. -/
def Attended (s : State σ) : Prop :=
  ∀ k id, s.point k = some (.reading id) → ∃ x, s.pool (.id id) = some x ∧ x.co = k ∧ x.Idle

/-- The call asks the buffer of an entry for another kind of message than its coroutine does. -/
def Call.Rereads (s : State σ) (id : ℤ) : Call → Prop
  | .read n mode => n = id ∧ ∃ x, s.pool (.id id) = some x ∧ x.mode ≠ mode
  | _ => False

/-- A call of the library leaves the sockets that coroutines wait for to these: it neither takes the entry
away nor reads in another mode. -/
def Step.Minds (B : Backend σ) (s : State σ) (l : Step) : Prop :=
  ∀ c rs, l = .call c rs → ∀ k id, s.point k = some (.reading id) →
    ¬ c.Robs B s rs id ∧ ¬ c.Rereads s id

/-- A dispatch leaves those that still wait attended. -/
theorem Attended.dispatch {a : ℕ} {e : SocketEvent} {v : Verdict} (hat : Attended s)
    (h : dispatch B a e s = some (v, s')) (hs : Sound s.pool) (hw : Ints s.world)
    (ha : ∀ k x b, s.pool k = some x → x.buffer = some b → b.mem.cell a = none) : Attended s' := by
  intro k id hk
  obtain ⟨hk₀, hv⟩ := dispatch_point h hs hw ha hk
  obtain ⟨x, hx, rfl, hidle⟩ := hat k id hk₀
  obtain ⟨notes, hh, -⟩ := dispatch_handles h hs hw ha
  have hwoken (args : List Value) : v ≠ woken s.point x.co args := by
    rw [woken_eq (by rw [hk₀]; rfl)]
    exact hv args
  -- not woken: the entry is as it was, or has a new buffer with no message in it
  rcases hh.keeps hx hwoken with hp | ⟨rfl, he, b, hp⟩
  · exact ⟨x, hp.trans hx, rfl, hidle⟩
  refine ⟨_, hp, rfl, ?_⟩
  rcases dispatch_left h he hs hw ha with ⟨y, args, hy, hv⟩ | hleft
  · obtain rfl := Option.some.inj (hx.symm.trans hy)
    exact absurd hv (hwoken args)
  rcases hleft _ hp with hy | hy
  · exact Option.some.inj (hx.symm.trans hy) ▸ hidle
  · exact hy

/-- Where it makes no difference who is suspended elsewhere. -/
theorem Attended.congr (hat : Attended s)
    (hpoint : ∀ k id, s'.point k = some (.reading id) → s.point k = some (.reading id))
    (hkeep : ∀ k id, s.point k = some (.reading id) → Owns k id s.pool →
      ∃ x, s'.pool (.id id) = some x ∧ x.co = k ∧ x.Idle) : Attended s' := fun k id hk => by
  obtain ⟨x, hx, hco, -⟩ := hat k id (hpoint k id hk)
  exact hkeep k id (hpoint k id hk) ⟨x, hx, hco⟩

/-- A call leaves no message in a buffer that has none, unless it asks for another kind. -/
theorem Called.keeps_idle {me : ℕ} {pool pool' : Key → Option Entry} {c : Call} {r : Option Result}
    {notes : List Note} (h : Called me pool c r pool' notes) (hs : Sound pool)
    (hx : pool (.id id) = some x) (hidle : x.Idle) (hmode : ∀ mode, c = .read id mode → x.mode = mode)
    (hy : pool' (.id id) = some y) : y.Idle := by
  -- either the entry is the one that the call changes, or it stays
  have hupdate {n : ℤ} {e : Option Entry} (hy : Function.update pool (.id n) e (.id id) = some y)
      (he : n = id → e = some y → y.Idle) : y.Idle := by
    by_cases hn : n = id
    · subst hn
      have hself : Function.update pool (.id n) e (.id n) = e := Function.update_self ..
      exact he rfl (hself.symm.trans hy)
    · have hsame : pool (.id id) = some y :=
        (Function.update_of_ne (fun hkey => hn (Key.id.inj hkey).symm) ..).symm.trans hy
      rwa [Option.some.inj (hsame.symm.trans hx)]
  have hfound {n : ℤ} {z : Entry} (hz : pool (.id n) = some z) (hn : n = id) : z = x := by
    subst hn
    exact Option.some.inj (hz.symm.trans hx)
  have hbuffer := hidle
  obtain ⟨b, hb, hnone⟩ := hbuffer
  cases h with
  | same => rwa [Option.some.inj (hy.symm.trans hx)]
  | started _ hn =>
    refine hupdate hy fun hid _ => ?_
    cases (hid ▸ hn).symm.trans hx
  | owned _ hz _ =>
    refine hupdate hy fun hid he => ?_
    rw [← Option.some.inj he, hfound hz hid]
    exact hidle
  | bound hz _ =>
    refine hupdate hy fun hid he => ?_
    rw [← Option.some.inj he, hfound hz hid]
    exact hidle
  | removed => exact hupdate hy fun _ he => by cases he
  | enabled hz hb' _ | unbuffered hz hb' =>
    refine hupdate hy fun hid _ => ?_
    rw [hfound hz hid, hb] at hb'
    cases hb'
  | waited hz hb' hcall _ =>
    refine hupdate hy fun _ he => ?_
    rw [← Option.some.inj he]
    exact Entry.idle_of_call ((hs _ _ hz).2 _ hb') hcall (.inl ⟨_, rfl⟩) nofun
  | rejected hz hb' hcall =>
    refine hupdate hy fun _ he => ?_
    rw [← Option.some.inj he]
    exact Entry.idle_of_call ((hs _ _ hz).2 _ hb') hcall (.inr rfl) nofun
  | returned hz hb' hcall =>
    refine hupdate hy fun hid _ => ?_
    subst hid
    obtain rfl := hfound hz rfl
    obtain rfl := Option.some.inj (hb.symm.trans hb')
    rw [hmode _ rfl] at hnone
    exact absurd (congrArg Prod.fst hcall) (hnone _)

/-- A coroutine that waits is attended to still, after a call that minds it. -/
theorem Attended.keep {k : ℕ} {c : Call} {r : Option Result} (hat : Attended s)
    (hs : Sound s.pool) (hk : s.point k = some (.reading id)) (hmode : ¬ c.Rereads s id)
    (hends : Ends s c r s') (howns : Owns k id s'.pool) :
    ∃ x, s'.pool (.id id) = some x ∧ x.co = k ∧ x.Idle := by
  obtain ⟨x, hx, -, hidle⟩ := hat k id hk
  obtain ⟨-, -, notes, hcalled, -⟩ := hends
  obtain ⟨y, hy, hco⟩ := howns
  refine ⟨y, hy, hco, hcalled.keeps_idle hs hx hidle (fun mode hc => ?_) hy⟩
  subst hc
  by_contra hne
  exact hmode ⟨rfl, x, hx, hne⟩

/-- A coroutine that a call suspends in `socket.read` owns the socket, and has found no message. -/
theorem Called.waits {me : ℕ} {pool pool' : Key → Option Entry} {c : Call} {notes : List Note}
    (h : Called me pool c (some (.yield (.reading id))) pool' notes) (hs : Sound pool) :
    ∃ x, pool' (.id id) = some x ∧ x.co = me ∧ x.Idle := by
  cases h with
  | same hr | bound _ hr | removed _ _ hr | enabled _ _ hr => exact absurd rfl (hr _)
  | started _ _ hr | owned _ _ hr => cases hr _ rfl
  | waited hx hb hcall hr =>
    obtain ⟨hp, hco⟩ := hr _ rfl
    obtain rfl := Point.reading.inj hp
    exact ⟨_, Function.update_self .., hco,
      Entry.idle_of_call ((hs _ _ hx).2 _ hb) hcall (.inl ⟨_, rfl⟩) nofun⟩

/-- A step keeps everyone attended to: a call minds those who wait, whoever it suspends has found no
message, and an event wakes its coroutine or leaves no message. -/
theorem Attended.step {l : Step} (hat : Attended s) (h : (script B).step s l s') (hs : Sound s.pool)
    (hm : l.Minds B s) : Attended s' := by
  obtain ⟨hal, hrun⟩ := h
  cases Step.ran hrun with
  | @returned c rs vs _ h =>
    have hends := Prog.wp_ok (ends_answer hs c rs) h
    refine hat.congr (fun k id hk => (congrFun hends.1 k).symm.trans hk) fun k id hk ho => ?_
    obtain ⟨hrobs, hmode⟩ := hm c rs rfl k id hk
    exact hat.keep hs hk hmode hends (owns_step hs ho hrobs hrun)
  | @raised c rs _ h =>
    have hends := Prog.wp_error (ends_answer hs c rs) h rfl
    refine hat.congr (fun k id hk => (congrFun hends.1 k).symm.trans hk) fun k id hk ho => ?_
    obtain ⟨hrobs, hmode⟩ := hm c rs rfl k id hk
    exact hat.keep hs hk hmode hends (owns_step hs ho hrobs hrun)
  | @suspended c rs p s₁ _ h hl =>
    have hends := Prog.wp_ok (ends_answer hs c rs) h
    have ⟨_, _, notes, hcalled, _⟩ := hends
    have hpool := (State.leave_eq hl).2.1
    intro k id hk
    rw [hpool]
    -- the coroutine that suspends now waits because its read found no message
    rcases hends.point_of_leave hl hk with ⟨rfl, rfl⟩ | hk
    · exact hcalled.waits hs
    · obtain ⟨hrobs, hmode⟩ := hm c rs rfl k id hk
      obtain ⟨x, hx, hco, -⟩ := hat k id hk
      have howns := owns_step hs ⟨x, hx, hco⟩ hrobs hrun
      exact hat.keep hs hk hmode hends (hpool ▸ howns)
  | resumed => exact hat.congr (fun _ _ hk => (State.point_of_enter hk).2) fun k id hk _ => hat k id hk
  | yielded hl =>
    have hpool := (State.leave_eq hl).2.1
    refine hat.congr (fun k id hk => ?_) fun k id hk _ => hpool ▸ hat k id hk
    exact (State.point_of_leave hl hk).resolve_left fun h => nomatch h.2
  | finished | polled => exact hat
  | @dispatched a rs e rest v s₁ _ hd =>
    have hat₁ : Attended s₁ := Attended.dispatch (s := s.answer rs) hat hd hs hal.1 hal.2
    exact hat₁

/-- In every run in which Lua code keeps off the entries that coroutines wait with, whatever is read and
sent and whatever events come: a coroutine that waits in `socket.read` owns its socket, and there is no
message for it in the buffer. -/
theorem no_lost_wakeup (h : ((script B).restrict fun s l _ => l.Minds B s).Reach s) : Attended s := by
  refine h.invariant (I := Attended) ?_ fun s l s' hr hat hs => ?_
  · rintro _ ⟨max, junk, rfl⟩ k id hk
    simp only [State.initial] at hk
    split at hk <;> cases hk
  · exact hat.step hs.1 (sound_of_reach hr.of_restrict) hs.2

/-- A coroutine connects and reads; while it waits the main thread enables the read again, and a part of
the message comes. -/
def waitSteps : List Step :=
  [.resume 1,
    .call .connect [{ count := 1 }, { ret := 5 }, { ret := 0 }, { ret := 0 }, { ret := 0 }, { ret := 0 }],
    .call (.readenable 0 true) [{ ret := 0 }],
    .call (.read 0 (.string starL)) [],
    .call (.readenable 0 true) [{ ret := 0 }],
    .poll 0 [{ ret := 1, ready := [⟨5, true, false, false⟩] }],
    .dispatch 1 [{ ret := 2, bytes := [97, 42] }]]

def waitStep (n : ℕ) : Step := waitSteps.getD n .yield

/-- The state after the first `n` steps. -/
def waitState : ℕ → State Epoll
  | 0 => .initial epoll 1 zeroed
  | n + 1 => ((waitStep n).run epoll (waitState n)).getD (waitState n)

/-- Up to the read, nobody waits. -/
theorem point_waitState {n : ℕ} (hn : n ∈ [1, 2, 3]) (k : ℕ) (id : ℤ) :
    (waitState n).point k ≠ some (.reading id) := by
  have hpoint : (waitState n).point = Function.update (waitState 0).point 1 none := by
    simp only [List.mem_cons, List.not_mem_nil, or_false] at hn
    rcases hn with rfl | rfl | rfl <;> rfl
  rw [hpoint]
  by_cases hk : k = 1
  · rw [hk, Function.update_self]
    nofun
  · rw [Function.update_of_ne hk]
    show (if k = 0 then none else some Point.elsewhere) ≠ _
    split <;> nofun

/-- The calls of the run leave the entry to its coroutine. -/
theorem minds_waitStep {n : ℕ} (hn : n < 7) :
    (waitStep n).Minds epoll (waitState n) := by
  match n with
  | 0 => exact fun c rs hl => nomatch (show Step.resume 1 = .call c rs from hl)
  | 1 | 2 | 3 => exact fun _ _ _ k id hk => absurd hk (point_waitState (by decide) k id)
  | 4 =>
    intro c rs hl k id _
    obtain ⟨rfl, -⟩ := Step.call.inj (show Step.call (.readenable 0 true) _ = .call c rs from hl)
    exact ⟨fun h => h, fun h => h⟩
  | 5 => exact fun c rs hl => nomatch (show Step.poll 0 _ = .call c rs from hl)
  | 6 => exact fun c rs hl => nomatch (show Step.dispatch 1 _ = .call c rs from hl)

/-- The run is one. -/
theorem run_waitStep {n : ℕ} (hn : n < 7) :
    (waitStep n).run epoll (waitState n) = some (waitState (n + 1)) ∧
      (waitStep n).fits (waitState n) = true := by
  have hok : ((waitStep n).run epoll (waitState n)).isSome ∧ (waitStep n).fits (waitState n) = true := by
    match n with
    | 0 | 1 | 2 | 3 | 4 | 5 | 6 => decide +kernel
  obtain ⟨s, hs⟩ := Option.isSome_iff_exists.mp hok.1
  exact ⟨by rw [waitState, hs, Option.getD_some], hok.2⟩

/-- After the first part of its message, the coroutine is attended to. -/
theorem no_lost_wakeup_part : Attended (waitState 7) := by
  have hreach {n : ℕ} (hn : n ≤ 7) :
      ((script epoll).restrict fun s l _ => l.Minds epoll s).Reach (waitState n) := by
    induction n with
    | zero => exact .init ⟨1, zeroed, rfl⟩
    | succ n ih =>
      obtain ⟨hrun, hfits⟩ := run_waitStep hn
      have h := ih (Nat.le_of_succ_le hn)
      exact h.step ⟨⟨Step.allowed_of_fits h.of_restrict hfits, hrun⟩, minds_waitStep hn⟩
  exact no_lost_wakeup (hreach le_rfl)

end Lua

end Lsocket
