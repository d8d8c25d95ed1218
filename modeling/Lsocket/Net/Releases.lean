import Lsocket.Net.Lifecycle
import Lsocket.Net.Ownership
import Lsocket.Net.Results

/-!
# Who frees a block of data

A block is freed by the call that it is handed to, with the connection that it is queued on, or by a
poll that writes its chunk to the end.
-/

namespace Lsocket

variable {σ : Type} {B : Backend σ} {w w' : World σ} {a a' : Abs σ} {i : ℕ} {c c' : Conn} {op : Op}
variable {b : Chunk} {rs : List Reply} {v : ℤ} {np np' : σ} {evs log : List Ev} {t : ℕ}
variable {post q : List Chunk}

/-! ## Waiting to be written -/

/-- The chunk of the block is still queued in front of `post`, or nothing is left but of `post`. -/
def Awaits (t : ℕ) (post q : List Chunk) : Prop :=
  (∃ pre b, q = pre ++ b :: post ∧ b.begin = some t) ∨ streams q <:+ streams post

/-- The chunk at the front is gone. -/
theorem Awaits.tail (h : Awaits t post (b :: q)) : Awaits t post q := by
  rcases h with ⟨_ | ⟨x, pre⟩, d, hq, hd⟩ | h
  · obtain ⟨rfl, rfl⟩ := List.cons.inj hq
    exact .inr List.suffix_rfl
  · obtain ⟨rfl, rfl⟩ := List.cons.inj hq
    exact .inl ⟨pre, d, rfl, hd⟩
  · exact .inr ((List.suffix_append ..).trans h)

/-- A part of the chunk at the front is gone. -/
theorem Awaits.part {b' : Chunk} (h : Awaits t post (b :: q)) (hb : b'.begin = b.begin)
    (hs : b'.stream <:+ b.stream) : Awaits t post (b' :: q) := by
  rcases h with ⟨_ | ⟨x, pre⟩, d, hq, hd⟩ | h
  · obtain ⟨rfl, rfl⟩ := List.cons.inj hq
    exact .inl ⟨[], b', rfl, hb.trans hd⟩
  · obtain ⟨rfl, rfl⟩ := List.cons.inj hq
    exact .inl ⟨b' :: pre, d, rfl, hd⟩
  · obtain ⟨s, hs⟩ := hs
    refine .inr (List.IsSuffix.trans ⟨s, ?_⟩ h)
    rw [streams_cons, streams_cons, ← List.append_assoc, hs]

/-- Draining takes off the block only with all that is before the chunks behind it. -/
theorem Drain.awaits (h : Drain i c c' evs) (hc : c.Queued) (hw : Awaits t post c.queue) :
    Awaits t post c'.queue := by
  induction h with
  | stop => exact hw
  | part hq h0 hn hp =>
    rw [hq] at hw
    have hb := hc.ok _ (hq ▸ List.mem_cons_self)
    exact hw.part rfl ⟨_, hb.wire_wrote_advance (i := 0) h0 hn hp⟩
  | next hq hd ih =>
    rw [hq] at hw
    exact ih ((Drain.next (i := 0) hq (.stop _)).flows hc).1 hw.tail

/-- The same for a write event. -/
theorem Flush.awaits (h : Flush B i c np c' np' evs) (hc : c.Queued) (hw : Awaits t post c.queue) :
    Awaits t post c'.queue := by
  cases h with
  | idle => exact hw
  | rest h => exact h.awaits hc hw
  | done _ h => exact h.awaits hc hw

/-- What a call that does not send leaves of a connection: only a poll changes its queue, and what is
gone from the queue is written. -/
structure Leaves (op : Op) (i : ℕ) (t : ℕ) (post : List Chunk) (c : Conn) (log : List Ev) (c' : Conn)
    (log' : List Ev) : Prop where
  awaits : Awaits t post c'.queue
  written : wire i log' ++ streams c'.queue = wire i log ++ streams c.queue
  same : (∃ timeout, op = .poll timeout) ∨ c'.queue = c.queue

/-- A step of a call that does not send. -/
theorem ConnStep.leaves (h : ConnStep B op v i c np c' np' evs) (log : List Ev) (hop : ¬ op.IsSend) (hc : c.Queued)
    (hw : Awaits t post c.queue) : Leaves op i t post c log c' (evs ++ log) := by
  have hopens : ∀ e ∈ evs, ¬ e.Opens i := fun e he => (h.about e he).steady.not_opens
  have hsame (hq : c'.queue = c.queue) (hsilent : wire i evs = []) :
      Leaves op i t post c log c' (evs ++ log) := by
    refine ⟨hq ▸ hw, ?_, .inr hq⟩
    rw [wire_append hopens, hsilent, List.append_nil, hq]
  cases h with
  | tune | received | half => exact hsame rfl rfl
  | enable _ h => exact hsame rfl (wire_silent h.silent)
  | whole h | start h | behind h => exact absurd h.isSend hop
  | flushed hop h =>
    refine ⟨h.awaits hc hw, ?_, .inl ⟨_, hop⟩⟩
    rw [wire_append hopens, List.append_assoc, (h.flows hc).2.1]
  | completed _ _ h =>
    refine hsame rfl ?_
    rw [wire_append fun e he => (h.silent e he).not_opens, wire_silent h.silent]
    rfl

/-- The connection in the slot is closed between the two logs. -/
def Closes (i : ℕ) (log log' : List Ev) : Prop :=
  ∃ fd mask past, .closed i fd mask :: past <:+ log' ∧ log <:+ past

/-- Closing a slot is among the events. -/
theorem closes_close (h : log <:+ a.log) : Closes i log (a.close i B c).log := by
  refine ⟨c.fd, c.mask, a.log, ?_, h⟩
  rw [Abs.close_log]
  exact List.suffix_append ..

/-- Induction over the changes of a call that does not send: the connection is closed, or what is
gone from its queue is written. -/
theorem Changes.leaves (h : Changes B op v a a') (ha : (changes B).Reach a) (hop : ¬ op.IsSend)
    (hc : a.slot i = some c) (hw : Awaits t post c.queue) :
    (∃ c', a'.slot i = some c' ∧ Leaves op i t post c a.log c' a'.log) ∨ Closes i a.log a'.log := by
  induction h with
  | refl => exact .inl ⟨c, hc, hw, rfl, .inr rfl⟩
  | @tail x y hax hxy ih =>
    rcases ih with ⟨d, hd, hl⟩ | ⟨fd, mask, past, hlog, hpast⟩
    · have hqueued := (reach_streaming (Changes.reach hax ha)).queued i d hd
      rcases hxy.fate hd with ⟨evs, hslot, hlog, hevs⟩ | hstep | hclose
      · refine .inl ⟨d, hslot, hl.awaits, ?_, hl.same⟩
        rw [hlog, wire_append fun e he => (hevs e he).not_opens, wire_elsewhere hevs, List.append_nil]
        exact hl.written
      · obtain ⟨hw', hwritten, hsame⟩ := hstep.leaves x.log hop hqueued hl.awaits
        refine .inl ⟨_, Abs.put_slot_self .., hw', hwritten.trans hl.written, ?_⟩
        rcases hsame with hpoll | hq
        · exact .inl hpoll
        · exact hl.same.imp id hq.trans
      · exact .inr (closes_close ((Changes.log_suffix hax).trans (List.suffix_append ..)))
    · exact .inr ⟨fd, mask, past, hlog.trans hxy.log_suffix, hpast⟩

/-- What a send leaves of a connection: it is closed, or its queue is still there. -/
theorem SendCall.leaves (h : SendCall B op a rs v a') (hc : a.slot i = some c) :
    (∃ c', a'.slot i = some c' ∧ owned t c.queue ≤ owned t c'.queue) ∨ Closes i a.log a'.log := by
  by_cases hi : i = op.target
  swap
  · exact .inl ⟨c, (h.slot_other hi).trans hc, le_rfl⟩
  subst hi
  cases h with
  | noSocket | status => exact .inl ⟨c, hc, le_rfl⟩
  | @sends d _ _ hd _ _ hend =>
    obtain rfl : c = d := Option.some.inj (hc.symm.trans hd)
    cases hend with
    | whole => exact .inl ⟨c, Abs.put_slot_self .., le_rfl⟩
    | queued hq => exact .inl ⟨_, Abs.put_slot_self .., by simp [hq]⟩
    | behind => exact .inl ⟨_, Abs.put_slot_self .., by rw [owned_append]; omega⟩
    | exceeded | broken => exact .inr (closes_close (List.suffix_append ..))

/-! ## Runs -/

/-- A block that is owned is that of some chunk. -/
theorem exists_owner (h : 0 < owned t q) : ∃ pre b post, q = pre ++ b :: post ∧ b.begin = some t := by
  obtain ⟨b, hb, ht⟩ := List.mem_filterMap.mp (List.count_pos_iff.mp h)
  obtain ⟨pre, post, rfl⟩ := List.append_of_mem hb
  exact ⟨pre, b, post, rfl, ht⟩

theorem owned_pos_of_owner (pre post : List Chunk) (h : b.begin = some t) :
    0 < owned t (pre ++ b :: post) := by
  rw [owned_append, owned_cons, owned_singleton, if_pos h]
  omega

/-- Who frees the block, in the call `l`: the call that it is handed to; the end of the connection that
it is queued on; or a poll that writes its chunk, and what is in front of it, to the end. -/
inductive FreedBy (l : Call) (t : ℕ) (a a' : Abs σ) : Prop
  | call (h : l.op.chunk.begin = some t)
  | close {i : ℕ} {c : Conn} (hc : a.slot i = some c) (ht : 0 < owned t c.queue)
      (h : Closes i a.log a'.log)
  | drain {i : ℕ} {c : Conn} {pre post : List Chunk} {b : Chunk} {timeout : ℤ}
      (hop : l.op = .poll timeout) (hc : a.slot i = some c) (hq : c.queue = pre ++ b :: post)
      (hb : b.begin = some t) (h : wire i a.log ++ streams (pre ++ [b]) <+: wire i a'.log)

/-- A queue that a block has left is written up to the end of its chunk. -/
theorem Leaves.written_prefix {log' : List Ev} {pre : List Chunk}
    (h : Leaves op i t post c log c' log') (hq : c.queue = pre ++ b :: post)
    (hgone : owned t c'.queue = 0) : wire i log ++ streams (pre ++ [b]) <+: wire i log' := by
  have hsuffix : streams c'.queue <:+ streams post := by
    refine h.awaits.resolve_left ?_
    rintro ⟨pre', d, hq', hd⟩
    have := owned_pos_of_owner pre' post hd
    rw [← hq'] at this
    omega
  obtain ⟨rest, hrest⟩ := hsuffix
  have hwritten := h.written
  rw [hq, show pre ++ b :: post = (pre ++ [b]) ++ post by simp, streams_append _ post, ← hrest,
    ← List.append_assoc, ← List.append_assoc] at hwritten
  exact ⟨rest, (List.append_cancel_right hwritten).symm⟩

/-- A block that a call frees was handed to it, or was queued. -/
theorem step_freedBy {l : Call} (h : (net B).Reach w) (hs : (net B).step w l w')
    (hpending : l.op.chunk.begin = some t ∨ Pending t w.abs) (hreleased : Released t w'.abs) :
    FreedBy l t w.abs w'.abs := by
  rcases hpending with hcall | ⟨-, i, c, hc, hone, -⟩
  · exact .call hcall
  obtain ⟨hrep, habs⟩ := reach_abs h
  -- a send frees only its own block, or closes the slot
  by_cases hsend : l.op.IsSend
  · obtain ⟨-, hop, rs, hrun⟩ := id hs
    rcases (reach_send h hsend hop hrun).leaves (t := t) hc with ⟨c', hc', hle⟩ | hclose
    · have := hreleased.2 i c' hc'
      omega
    · exact .close hc (by omega) hclose
  obtain ⟨pre, b, post, hq, hb⟩ := exists_owner (t := t) (q := c.queue) (by omega)
  rcases (step_changes hrep hs).2.leaves habs hsend hc (.inl ⟨pre, b, hq, hb⟩)
    with ⟨c', hc', hleaves⟩ | hclose
  · have hgone := hreleased.2 i c' hc'
    -- only a poll takes blocks off a queue without closing
    rcases hleaves.same with ⟨timeout, hop⟩ | hsame
    · exact .drain hop hc hq hb (hleaves.written_prefix hq hgone)
    · rw [hsame] at hgone
      omega
  · exact .close hc (by omega) hclose

/-- In every run in which each block handed to a send is a new one, every block handed over was freed
once and is not queued, or was not freed and is the beginning of one chunk of one connection; no
other block is freed or queued; a block is freed by the call that it is handed to, with its
connection, or when its chunk is written; and `net_free` leaves no block that was not freed. -/
theorem released_once {s : Ledger σ} (h : (ledger B).Reach s) :
    (∀ t ∈ s.handed, Released t s.world.abs ∨ Pending t s.world.abs) ∧
      (∀ t ∉ s.handed, Unknown t s.world.abs) ∧
      ∀ l s', (ledger B).step s l s' →
        (∀ t, releases t s.world.log < releases t s'.world.log →
          FreedBy l t s.world.abs s'.world.abs) ∧
        (l.op = .free → ∀ t ∈ s'.handed, Released t s'.world.abs) := by
  have hsettled {s : Ledger σ} (h : (ledger B).Reach s) {t : ℕ} (ht : t ∈ s.handed) :
      Released t s.world.abs ∨ Pending t s.world.abs :=
    released_or_pending (reach_inOrder (reach_abs (ledger_reach h)).2)
      ((ledger_charge h t).trans (if_pos ht))
  have hunknown {s : Ledger σ} (h : (ledger B).Reach s) {t : ℕ} (ht : t ∉ s.handed) :
      Unknown t s.world.abs :=
    unknown_of_charge (reach_inOrder (reach_abs (ledger_reach h)).2)
      ((ledger_charge h t).trans (if_neg ht))
  refine ⟨fun t ht => hsettled h ht, fun t ht => hunknown h ht, fun l s' hs =>
    ⟨fun t hlt => ?_, fun hop t ht => ?_⟩⟩
  -- a token whose releases have grown is neither pending nor unknown
  · have hreleased : Released t s'.world.abs := by
      by_cases ht : t ∈ s'.handed
      · refine (hsettled (h.step hs) ht).resolve_right fun hp => ?_
        have : releases t s'.world.log = 0 := hp.1
        omega
      · have : releases t s'.world.log = 0 := (hunknown (h.step hs) ht).1
        omega
    refine step_freedBy (ledger_reach h) hs.1 ?_ hreleased
    by_cases ht : t ∈ s.handed
    · refine .inr ((hsettled h ht).resolve_left fun hr => ?_)
      have h1 : releases t s.world.log = 1 := hr.1
      have h2 : releases t s'.world.log = 1 := hreleased.1
      omega
    · left
      by_contra hne
      -- not handed in before and not by this call: nothing of it can be freed
      have hnew : t ∉ s'.handed := by
        rw [hs.2.2]
        simp [ht, hne]
      have : releases t s'.world.log = 0 := (hunknown (h.step hs) hnew).1
      omega
  · refine (hsettled (h.step hs) ht).resolve_right ?_
    rintro ⟨-, i, c, hc, -⟩
    obtain ⟨⟨-, -, rs, hrun⟩, -⟩ := hs
    obtain ⟨op, v⟩ := l
    subst hop
    obtain ⟨_, ⟨-, rfl⟩, hnone⟩ := (Prog.Refines.bind does_netFree
      (T := fun _ a' => ∀ j, a'.slot j = none) fun _ _ h => .pure h.2).ok
      ((reach_abs (ledger_reach h)).1.answer rs) hrun
    cases (hnone i).symm.trans hc

/-- A block that is queued. -/
def queuedBlock : Ledger Epoll where
  world := boundTcp.next epoll (.send 0 ⟨1, [1, 2, 3]⟩ 3)
    [{ ret := -1, errno := EAGAIN }, { addr := 0 }, { ret := 0 }]
  handed := [1]

theorem released_once_queued : Released 1 queuedBlock.world.abs ∨ Pending 1 queuedBlock.world.abs := by
  refine (released_once (B := epoll) ?_).1 1 (by decide)
  refine .step (l := ⟨.send 0 ⟨1, [1, 2, 3]⟩ 3, -1⟩) (s := ⟨boundTcp, []⟩)
    (.step (l := ⟨.bind 5 0 0, 0⟩) (s := ⟨fresh epoll 1, []⟩) (.init ⟨⟨1, zeroed, rfl⟩, rfl⟩)
      ⟨?_, nofun, rfl⟩) ⟨?_, by simp, rfl⟩
  · exact step_next [{ ret := 0 }, { ret := 0 }] (by decide) (by decide) (by decide)
  · exact step_next _ (by decide) (by decide) (by decide +kernel)

end Lsocket
