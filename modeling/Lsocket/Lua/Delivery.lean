import Lsocket.Lua.Changes
import Lsocket.Net.Epoll

/-!
# Received data reaches the coroutine

Between the start of a socket and its removal, what arrived for it has been popped or is still in its
buffer, in order, and what was popped was returned by `socket.read` or offered to the coroutine of the
socket, in the same order (`delivered`). A read event wakes that coroutine wherever it waits.
-/

namespace Lsocket.Lua

open CInt Relation

variable {σ : Type} {B : Backend σ} {s : State σ} {id : ℤ} {u v w : List UInt8} {ns ms log : List Note}

/-! ## What the log says of a socket -/

/-- The event lets the handler read from the socket. -/
def Turn.Reads (t : Turn) (id : ℤ) : Prop := t.event.type = .read ∧ (t.event.id : ℤ) = id

instance (t : Turn) : Decidable (t.Reads id) := inferInstanceAs (Decidable (_ ∧ _))

/-- The block that `c.read` returned in the handler, if the socket has a buffer. -/
def Turn.arrival (t : Turn) : List UInt8 :=
  match t.heard, t.pool (.id t.event.id) with
  | some (.data block _), some x => if x.buffer.isSome then block else []
  | _, _ => []

/-- The message that the block completes. -/
def Turn.complete (t : Turn) : Option (List UInt8) :=
  match t.heard, t.pool (.id t.event.id) with
  | some (.data block _), some x =>
    match x.pops block with
    | .ok (.string bytes) => some bytes
    | _ => none
  | _, _ => none

/-- The bytes that arrived for the socket. -/
def Note.arrived (id : ℤ) : Note → List UInt8
  | .turn t => if t.Reads id then t.arrival else []
  | _ => []

/-- The bytes that a pop took from the buffer of the socket. -/
def Note.taken (id : ℤ) : Note → List UInt8
  | .popped i _ bytes cut => if i = id then bytes ++ cut else []
  | _ => []

/-- The message that was popped from the buffer of the socket. -/
def Note.message (id : ℤ) : Note → List (List UInt8)
  | .popped i _ bytes _ => if i = id then [bytes] else []
  | _ => []

/-- The message that `socket.read` returned, or that a read event had for the coroutine. -/
def Note.offered (id : ℤ) : Note → List (List UInt8)
  | .returned i bytes => if i = id then [bytes] else []
  | .turn t => if t.Reads id then t.complete.toList else []
  | _ => []

def Note.starts (id : ℤ) : Note → Bool
  | .started i => i = id
  | _ => false

/-- What happened since the entry of the socket was made, the earliest first. -/
def since (id : ℤ) (log : List Note) : List Note :=
  (log.takeWhile fun n => !n.starts id).reverse

/-- The unread bytes of an entry. -/
def Entry.unread (x : Entry) : List UInt8 := (x.buffer.map Buffer.content).getD []

/-- What happened, the earliest first, explains that the unread bytes of the socket were `u` and are `v`:
what arrived was appended, and what was taken was offered. -/
structure Balanced (id : ℤ) (u v : List UInt8) (ns : List Note) : Prop where
  bytes : u ++ ns.flatMap (Note.arrived id) = ns.flatMap (Note.taken id) ++ v
  order : ns.flatMap (Note.message id) = ns.flatMap (Note.offered id)
  cuts : ∀ mode bytes cut, .popped id mode bytes cut ∈ ns → mode.Ends cut

namespace Balanced

theorem refl (u : List UInt8) : Balanced id u u [] := ⟨by simp, rfl, nofun⟩

/-- What happens in two parts is balanced if both are. -/
theorem trans (h : Balanced id u v ns) (h' : Balanced id v w ms) : Balanced id u w (ns ++ ms) where
  bytes := by
    rw [List.flatMap_append, List.flatMap_append, ← List.append_assoc, h.bytes, List.append_assoc,
      h'.bytes, List.append_assoc]
  order := by rw [List.flatMap_append, List.flatMap_append, h.order, h'.order]
  cuts mode bytes cut hn := (List.mem_append.mp hn).elim (h.cuts mode bytes cut) (h'.cuts mode bytes cut)

end Balanced

/-- What does not start the socket is added to its history. -/
theorem since_append (h : ∀ n ∈ ns, n.starts id = false) :
    since id (ns ++ log) = since id log ++ ns.reverse := by
  rw [since, List.takeWhile_append_of_pos fun n hn => by simp [h n hn], List.reverse_append]
  rfl

/-- A start begins a new history. -/
theorem since_started : since id (.started id :: log) = [] := by
  simp [since, Note.starts]

/-! ## Changes -/

/-- A dispatch that popped nothing. -/
theorem Balanced.turn {t : Turn} (h : t.Reads id → u ++ t.arrival = v ∧ t.complete = none)
    (h' : ¬ t.Reads id → u = v) : Balanced id u v [.turn t] := by
  by_cases hr : t.Reads id
  · obtain ⟨hu, hc⟩ := h hr
    exact ⟨by simpa [Note.arrived, Note.taken, hr] using hu,
      by simp [Note.message, Note.offered, hc], by simp⟩
  · exact ⟨by simp [Note.arrived, Note.taken, hr, h' hr], by simp [Note.message, Note.offered, hr],
      by simp⟩

/-- A dispatch of a read event that popped a message. -/
theorem Balanced.popped {t : Turn} {mode : Buffer.PopArg} {bytes cut : List UInt8} (hr : t.Reads id)
    (hc : t.complete = some bytes) (hu : u ++ t.arrival = bytes ++ cut ++ v) (hcut : mode.Ends cut) :
    Balanced id u v [.popped id mode bytes cut, .turn t] where
  bytes := by simpa [Note.arrived, Note.taken, hr] using hu
  order := by simp [Note.message, Note.offered, hr, hc]
  cuts mode' bytes' cut' hn := by
    obtain ⟨rfl, rfl, rfl⟩ : mode' = mode ∧ bytes' = bytes ∧ cut' = cut := by simpa using hn
    exact hcut

/-- `socket.read` returns what it popped. -/
theorem Balanced.returned {mode : Buffer.PopArg} {bytes cut : List UInt8} (hu : u = bytes ++ cut ++ v)
    (hcut : mode.Ends cut) : Balanced id u v [.popped id mode bytes cut, .returned id bytes] where
  bytes := by simpa [Note.arrived, Note.taken] using hu
  order := by simp [Note.message, Note.offered]
  cuts mode' bytes' cut' hn := by
    obtain ⟨rfl, rfl, rfl⟩ : mode' = mode ∧ bytes' = bytes ∧ cut' = cut := by simpa using hn
    exact hcut

/-- A pop from the buffer of another socket. -/
theorem Balanced.other {i : ℤ} {mode : Buffer.PopArg} {bytes cut : List UInt8} (hi : i ≠ id) :
    Balanced id u u [.popped i mode bytes cut] where
  bytes := by simp [Note.arrived, Note.taken, hi]
  order := by simp [Note.message, Note.offered, hi]
  cuts mode' bytes' cut' hn := by simp [hi.symm] at hn

/-- What a dispatch does to the buffers: nothing, or a block has come, or a message is popped. -/
inductive Turn.Feeds (t : Turn) : List Note → Prop
  | none (hp : ∀ k y, t.pool' k = some y → t.pool k = some y)
      (hc : t.event.type = .read → t.arrival = [] ∧ t.complete = none) : t.Feeds []
  | kept {x : Entry} {b' : Buffer.Buf} (he : t.event.type = .read) (hx : t.pool (.id t.event.id) = some x)
      (hp : t.pool' = Function.update t.pool (.id t.event.id) (some { x with buffer := some b' }))
      (hu : x.unread ++ t.arrival = Buffer.content b') (hc : t.complete = .none) : t.Feeds []
  | popped {x : Entry} {b' : Buffer.Buf} {mode : Buffer.PopArg} {bytes cut : List UInt8}
      (he : t.event.type = .read) (hx : t.pool (.id t.event.id) = some x)
      (hp : t.pool' = Function.update t.pool (.id t.event.id) (some { x with buffer := some b' }))
      (hu : x.unread ++ t.arrival = bytes ++ cut ++ Buffer.content b') (hc : t.complete = some bytes)
      (hcut : mode.Ends cut) : t.Feeds [.popped t.event.id mode bytes cut]

/-- Every dispatch feeds the buffers in one of these ways. -/
theorem Handles.feeds {t : Turn}
    (h : Handles t.pool t.point t.event t.heard t.verdict t.pool' ns) : t.Feeds ns := by
  obtain ⟨e, pool, point, heard, verdict, pool'⟩ := t
  dsimp only at h
  -- an entry that is left after one was removed was there before
  have hremove {k k' : Key} {y : Entry} (hy : Function.update pool k none k' = some y) :
      pool k' = some y := by
    by_cases hk : k' = k
    · simp [hk] at hy
    · rwa [Function.update_of_ne hk] at hy
  cases h with
  | ignored he => exact .none (fun _ _ h => h) fun h => absurd h he.1
  | gone he hx => exact .none (fun _ _ h => h) fun _ => by simp [Turn.arrival, Turn.complete]
  | nothing he hx => exact .none (fun _ _ h => h) fun _ => by simp [Turn.arrival, Turn.complete]
  | failed he hx => exact .none (fun _ _ h => hremove h) fun _ => by simp [Turn.arrival, Turn.complete]
  | unbuffered he hx hb =>
    refine .none (fun _ _ h => h) fun _ => ?_
    simp [Turn.arrival, Turn.complete, hx, hb, Entry.pops]
  | kept he hx hb hinv hpop hbytes =>
    refine .kept he hx rfl ?_ ?_
    · simp [Turn.arrival, hx, hb, Entry.unread, hbytes]
    · simp [Turn.complete, hx, hpop]
  | popped he hx hb hinv hpop hbytes hcut =>
    refine .popped he hx rfl ?_ ?_ hcut
    · simpa [Turn.arrival, hx, hb, Entry.unread] using hbytes
    · simp [Turn.complete, hx, hpop]
  | rejected he hx hb hinv hpop hbytes =>
    refine .kept he hx rfl ?_ ?_
    · simp [Turn.arrival, hx, hb, Entry.unread, hbytes]
    · simp [Turn.complete, hx, hpop]
  | accepted he | unaccepted he | connected he | broken he =>
    refine .none (fun _ _ h => h) fun h => ?_
    cases he.symm.trans h
  | refused he =>
    refine .none (fun _ _ h => hremove h) fun h => ?_
    cases he.symm.trans h
  | missing he =>
    refine .none (fun _ _ h => h) fun h => ?_
    rcases he with he | he | he <;> cases he.symm.trans h

/-- The entry of the socket, before and after changes recorded by `ns`, the latest first. -/
def Carries (id : ℤ) (pool pool' : Key → Option Entry) (ns : List Note) : Prop :=
  ∀ y, pool' (.id id) = some y → (∀ n ∈ ns, n.starts id = false) ∧
    ∃ x, pool (.id id) = some x ∧ Balanced id x.unread y.unread ns.reverse

/-- A dispatch carries the entry of every socket along, balanced. -/
theorem Turn.Feeds.carries {t : Turn} (h : t.Feeds ns) (id : ℤ) :
    Carries id t.pool t.pool' (.turn t :: ns) := by
  intro y hy
  cases h with
  | none hp hc =>
    refine ⟨by simp [Note.starts], y, hp _ _ hy, .turn (fun hr => ?_) fun _ => rfl⟩
    obtain ⟨ha, hcomplete⟩ := hc hr.1
    exact ⟨by simp [ha], hcomplete⟩
  | @kept x b' he hx hp hu hc =>
    refine ⟨by simp [Note.starts], ?_⟩
    by_cases hid : (t.event.id : ℤ) = id
    · subst hid
      obtain rfl : { x with buffer := some b' } = y := by simpa [hp] using hy
      exact ⟨x, hx, .turn (fun _ => ⟨hu, hc⟩) fun hr => absurd ⟨he, rfl⟩ hr⟩
    · rw [hp, Function.update_of_ne fun hk => hid (Key.id.inj hk).symm] at hy
      exact ⟨y, hy, .turn (fun hr => absurd hr.2 hid) fun _ => rfl⟩
  | @popped x b' mode bytes cut he hx hp hu hc hcut =>
    refine ⟨by simp [Note.starts], ?_⟩
    by_cases hid : (t.event.id : ℤ) = id
    · subst hid
      obtain rfl : { x with buffer := some b' } = y := by simpa [hp] using hy
      exact ⟨x, hx, .popped ⟨he, rfl⟩ hc hu hcut⟩
    · rw [hp, Function.update_of_ne fun hk => hid (Key.id.inj hk).symm] at hy
      exact ⟨y, hy, .trans (.other hid) (.turn (fun hr => absurd hr.2 hid) fun _ => rfl)⟩

/-- An entry is written, and the log is as before. -/
theorem carries_update {pool : Key → Option Entry} {i : ℤ} {x : Entry} {o : Option Entry}
    (hx : pool (.id i) = some x) (ho : ∀ y, o = some y → y.unread = x.unread) (id : ℤ) :
    Carries id pool (Function.update pool (.id i) o) [] := by
  intro y hy
  refine ⟨fun _ hn => absurd hn List.not_mem_nil, ?_⟩
  by_cases hid : i = id
  · subst hid
    rw [Function.update_self] at hy
    exact ⟨x, hx, ho y hy ▸ .refl _⟩
  · rw [Function.update_of_ne fun hk => hid (Key.id.inj hk).symm] at hy
    exact ⟨y, hy, .refl _⟩

/-- A change carries the entry of a socket on, or makes it. -/
theorem Change.carries {a a' : Accounts} (h : Change a a') (id : ℤ) :
    (∃ ns, a'.2 = ns ++ a.2 ∧ Carries id a.1 a'.1 ns) ∨
      ∃ x, a'.2 = .started id :: a.2 ∧ a'.1 (.id id) = some x ∧ x.buffer = none := by
  cases h with
  | @started pool log i co callback hx =>
    by_cases hid : i = id
    · subst hid
      exact .inr ⟨_, rfl, Function.update_self .., rfl⟩
    · refine .inl ⟨[.started i], rfl, fun y hy => ⟨by simp [Note.starts, hid], y, ?_, ?_⟩⟩
      · exact (Function.update_of_ne (fun hk => hid (Key.id.inj hk).symm) ..).symm.trans hy
      · exact ⟨by simp [Note.arrived, Note.taken], by simp [Note.message, Note.offered], by simp⟩
  | tuned co mode hx =>
    refine .inl ⟨[], rfl, carries_update hx (fun y hy => ?_) id⟩
    obtain rfl := Option.some.inj hy
    rfl
  | enabled hx hb =>
    refine .inl ⟨[], rfl, carries_update hx (fun y hy => ?_) id⟩
    obtain rfl := Option.some.inj hy
    rw [Entry.unread, Entry.unread, hb]
    rfl
  -- a removed entry carries nothing, and has nothing to answer for
  | removed hx => exact .inl ⟨[], rfl, carries_update (o := none) hx (fun y hy => nomatch hy) id⟩
  | waited hx hb hinv hbytes =>
    refine .inl ⟨[], rfl, carries_update hx (fun y hy => ?_) id⟩
    obtain rfl := Option.some.inj hy
    simp [Entry.unread, hb, hbytes]
  | @returned pool log i x b b' bytes cut hx hb hinv hbytes hcut =>
    refine .inl ⟨[_, _], rfl, fun y hy => ⟨by simp [Note.starts], ?_⟩⟩
    by_cases hid : i = id
    · subst hid
      obtain rfl : { x with buffer := some b' } = y := by simpa using hy
      exact ⟨x, hx, .returned (by simpa [Entry.unread, hb] using hbytes) hcut⟩
    · refine ⟨y, (Function.update_of_ne (fun hk => hid (Key.id.inj hk).symm) ..).symm.trans hy, ?_⟩
      refine .trans (.other hid) ?_
      exact ⟨by simp [Note.arrived, Note.taken], by simp [Note.message, Note.offered, hid], by simp⟩
  | @turned log ns t ht => exact .inl ⟨.turn t :: ns, rfl, ht.feeds.carries id⟩

/-! ## Runs -/

/-- What happened since the start of a socket explains what its buffer holds. -/
theorem balanced_of_reach {x : Entry} (h : (script B).Reach s) (hx : s.pool (.id id) = some x) :
    Balanced id [] x.unread (since id s.log) := by
  have hinv := accounts_invariant
    (I := fun a => ∀ x, a.1 (.id id) = some x → Balanced id [] x.unread (since id a.2)) h
    fun _ h => absurd h.symm (Option.some_ne_none _)
  refine hinv (fun a a' hc ih y hy => ?_) x hx
  rcases hc.carries id with ⟨ns, hlog, hcarry⟩ | ⟨x, hlog, hx, hb⟩
  · obtain ⟨hstarts, x, hx, hbal⟩ := hcarry y hy
    rw [hlog, since_append hstarts]
    exact (ih x hx).trans hbal
  · obtain rfl : x = y := Option.some.inj (hx.symm.trans hy)
    rw [hlog, since_started, Entry.unread, hb]
    exact .refl []

/-- A read event has the message that it completes for the coroutine of the socket, wherever that waits,
and no other event has one. -/
structure Turn.Routed (t : Turn) : Prop where
  wakes : t.event.type = .read → ∀ x bytes, t.pool (.id t.event.id) = some x → t.complete = some bytes →
    t.Waits x → t.verdict = .woke x.co [.data (.string bytes)]
  only : ∀ k v, t.verdict = .woke k [.data v] → t.event.type = .read ∧
    ∃ x bytes, t.pool (.id t.event.id) = some x ∧ t.complete = some bytes ∧ k = x.co ∧ v = .string bytes

/-- A coroutine is woken with the arguments it was woken with. -/
theorem woken_eq_woke {point : ℕ → Option Point} {k k' : ℕ} {args args' : List Value}
    (h : woken point k args = .woke k' args') : k = k' ∧ args = args' := by
  rw [woken] at h
  split at h
  · exact Verdict.woke.inj h
  · cases h

/-- Every dispatch routes its message. -/
theorem Handles.routed {t : Turn}
    (h : Handles t.pool t.point t.event t.heard t.verdict t.pool' ns) : t.Routed := by
  obtain ⟨e, pool, point, heard, verdict, pool'⟩ := t
  dsimp only at h
  -- a dispatch that wakes nobody with data, and has no message
  have hsilent (hv : ∀ k v, verdict ≠ .woke k [.data v])
      (hc : e.type = .read → Turn.complete ⟨e, pool, point, heard, verdict, pool'⟩ = none) :
      Turn.Routed ⟨e, pool, point, heard, verdict, pool'⟩ :=
    ⟨fun he x bytes _ h => absurd ((hc he).symm.trans h) (Option.some_ne_none bytes).symm,
      fun k v h => absurd h (hv k v)⟩
  cases h with
  | ignored he => exact hsilent (by simp) fun h => absurd h he.1
  | gone he hx | nothing he hx => exact hsilent (by simp) fun _ => by simp [Turn.complete]
  | failed he hx =>
    refine hsilent (fun k v h => ?_) fun _ => by simp [Turn.complete]
    cases (woken_eq_woke h).2
  | unbuffered he hx hb => exact hsilent (by simp) fun _ => by simp [Turn.complete, hx, Entry.pops, hb]
  | kept he hx hb hinv hpop | rejected he hx hb hinv hpop =>
    exact hsilent (by simp) fun _ => by simp [Turn.complete, hx, hpop]
  | @popped x b b' block bytes cut n he hx hb hinv hpop =>
    have hc : Turn.complete ⟨e, pool, point, some (.data block n),
        woken point x.co [.data (.string bytes)], Function.update pool (.id e.id)
          (some { x with buffer := some b' })⟩ = some bytes := by
      simp [Turn.complete, hx, hpop]
    refine ⟨fun _ y bytes' hy hbytes hw => ?_, fun k v h => ?_⟩
    · obtain rfl : x = y := Option.some.inj (hx.symm.trans hy)
      obtain rfl : bytes = bytes' := Option.some.inj (hc.symm.trans hbytes)
      exact woken_eq hw
    · obtain ⟨rfl, hargs⟩ := woken_eq_woke h
      obtain rfl : Buffer.LuaValue.string bytes = v := by simpa using hargs
      exact ⟨he, x, bytes, hx, hc, rfl, rfl⟩
  | accepted he | unaccepted he | broken he =>
    refine hsilent (by simp) fun h => ?_
    cases he.symm.trans h
  | connected he | refused he =>
    refine hsilent (fun k v h => ?_) fun h => ?_
    · cases (woken_eq_woke h).2
    · cases he.symm.trans h
  | missing he =>
    refine hsilent (by simp) fun h => ?_
    rcases he with he | he | he <;> cases he.symm.trans h

/-- The account of every socket is balanced since it was started, and every message that a read event
completes is for the coroutine of its socket. -/
structure Delivered (s : State σ) : Prop where
  balanced : ∀ id x, s.pool (.id id) = some x → Balanced id [] x.unread (since id s.log)
  routed : ∀ t, .turn t ∈ s.log → t.Routed

/-- In every run, received data is delivered: in order, and to the coroutine of the socket. -/
theorem delivered (h : (script B).Reach s) : Delivered s where
  balanced _ _ hx := balanced_of_reach h hx
  routed _ ht := (handles_of_reach h ht).choose_spec.routed

/-- A coroutine connects, and reads twice: the first message comes with a part of the second. -/
def twiceSteps : List Step :=
  [.resume 1,
    .call .connect [{ count := 1 }, { ret := 5 }, { ret := 0 }, { ret := 0 }, { ret := 0 }, { ret := 0 }],
    .call (.readenable 0 true) [{ ret := 0 }],
    .call (.read 0 (.string starL)) [],
    .poll 0 [{ ret := 1, ready := [⟨5, true, false, false⟩] }],
    .dispatch 1 [{ ret := 4, bytes := [97, 42, 108, 98] }],
    .call (.read 0 (.string starL)) [],
    .poll 0 [{ ret := 1, ready := [⟨5, true, false, false⟩] }],
    .dispatch 2 [{ ret := 2, bytes := [42, 108] }]]

/-- Two messages come in two reads. -/
theorem delivered_twice : Delivered (after epoll 1 twiceSteps) :=
  delivered (reach_after (by decide +kernel))

/-- A coroutine connects and then waits for something else. -/
def otherwiseSteps : List Step :=
  [.resume 1,
    .call .connect [{ count := 1 }, { ret := 5 }, { ret := 0 }, { ret := 0 }, { ret := 0 }, { ret := 0 }],
    .call (.readenable 0 true) [{ ret := 0 }],
    .yield,
    .poll 0 [{ ret := 1, ready := [⟨5, true, false, false⟩] }],
    .dispatch 1 [{ ret := 3, bytes := [97, 42, 108] }]]

/-- A read event wakes a coroutine that is not in `socket.read`. -/
theorem not_only_reading : ¬ ∀ s : State Epoll, (script epoll).Reach s → ∀ t, .turn t ∈ s.log →
    t.event.type = .read → ∀ k v, t.verdict = .woke k [.data v] →
      t.point k = some (.reading t.event.id) := by
  intro h
  obtain ⟨t, ht, hP⟩ := exists_turn (s := after epoll 1 otherwiseSteps)
    (P := fun t => t.event.type = .read ∧ t.verdict = .woke 1 [.data (.string [97])] ∧
      t.point 1 = some .elsewhere) (by decide +kernel)
  obtain ⟨he, hv, hpoint⟩ := of_decide_eq_true hP
  cases hpoint.symm.trans (h _ (reach_after (by decide +kernel)) t ht he 1 _ hv)

end Lsocket.Lua
