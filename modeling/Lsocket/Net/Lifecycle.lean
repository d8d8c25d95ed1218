import Lsocket.Net.Stream

/-!
# The life of a connection

Between two calls a slot is free, or it holds a connection with a status that a call has settled;
a half-closed connection has something left to send. The status of a connection only advances, and
`HALFCLOSE` ends when the queue is drained, or by an error or the will of the caller.
-/

namespace Lsocket

variable {σ : Type} {B : Backend σ} {w w' : World σ} {a a' : Abs σ} {i : ℕ} {c c' : Conn} {op : Op}
variable {np np' : σ} {evs log : List Ev} {v : ℤ}

/-! ## Settled connections -/

/-- The status of a connection between two calls. -/
structure Conn.Settled (c : Conn) : Prop where
  status : c.status ≠ .invalid ∧ c.status ≠ .suspend
  half : c.status = .halfclose → c.queue ≠ []

theorem Opening.Makes.settled (h : Opening.Makes B op i c np c' np' evs) : c'.Settled := by
  cases h <;> exact ⟨by simp, nofun⟩

/-- Every step leaves the connection in one of its states, and half-closed only with a queue. -/
theorem ConnStep.settled (h : ConnStep B op v i c np c' np' evs) (hc : c.Settled) : c'.Settled := by
  cases h with
  | tune | enable => exact ⟨hc.status, hc.half⟩
  | received | whole => exact hc
  | half _ _ hq => exact ⟨by simp, fun _ => hq⟩
  | start => exact ⟨hc.status, fun _ => List.cons_ne_nil _ _⟩
  | behind => exact ⟨hc.status, fun _ => by simp⟩
  | flushed _ h hs => exact ⟨h.status ▸ hc.status, fun hh => hs (h.status ▸ hh)⟩
  | completed => exact ⟨by simp, nofun⟩

/-- In every run, every connection is in one of its states. -/
theorem reach_settled (h : (changes B).Reach a) : ∀ i c, a.slot i = some c → c.Settled := by
  refine h.invariant (I := fun a => ∀ i c, a.slot i = some c → c.Settled) ?_ fun a l a' _ ha hs => ?_
  · rintro _ ⟨max, -, rfl⟩ i c hc
    exact absurd hc.symm (Option.some_ne_none c)
  · exact hs.forall_conn ha (fun _ _ _ _ _ _ _ _ _ _ hm => hm.settled)
      fun _ _ _ _ _ _ hc hs => hs.settled hc

/-! ## How a status advances -/

/-- A status, and what it can be later on for the same connection. -/
def Status.Becomes (s s' : Status) : Prop :=
  s' = s ∨ (s = .connecting ∧ s' = .connected) ∨ s' = .halfclose

/-- A status goes on from where it got. -/
theorem Status.Becomes.trans {s s' s'' : Status} (h : s.Becomes s') (h' : s'.Becomes s'') :
    s.Becomes s'' := by
  unfold Status.Becomes at *
  rcases h' with rfl | ⟨rfl, rfl⟩ | rfl
  · exact h
  · rcases h with rfl | ⟨-, h⟩ | h
    · exact .inr (.inl ⟨rfl, rfl⟩)
    · cases h
    · cases h
  · exact .inr (.inr rfl)

/-- Half-closed is the last state. -/
theorem Status.Becomes.of_halfclose {s : Status} (h : Status.halfclose.Becomes s) : s = .halfclose := by
  rcases h with rfl | ⟨h, -⟩ | rfl
  · rfl
  · cases h
  · rfl

/-- Every step leaves the status or moves it on. -/
theorem ConnStep.becomes (h : ConnStep B op v i c np c' np' evs) : c.status.Becomes c'.status := by
  cases h with
  | half => exact .inr (.inr rfl)
  | flushed _ h => exact .inl h.status
  | completed _ hs => exact .inr (.inl ⟨hs, rfl⟩)
  | _ => exact .inl rfl

/-! ## How a half-closed connection ends -/

theorem Ev.Elsewhere.not_opens {e : Ev} (h : e.Elsewhere i) : ¬ e.Opens i := by
  cases e <;> first | exact id | exact h

/-- What is about other slots writes nothing here. -/
theorem wire_elsewhere (h : ∀ e ∈ evs, e.Elsewhere i) : wire i evs = [] := by
  refine since_eq_nil (fun e he => ⟨(h e he).not_opens, ?_⟩) fun _ _ _ => rfl
  have := h e he
  cases e <;> first | rfl | exact if_neg this

/-- Why the connection in slot `i` is closed while it is half-closed, by the call and the events
before the close. -/
inductive HalfcloseEnds (l : Call) (i : ℕ) (past : List Ev) : Prop
  /-- `socket_poll` writes the rest of the data. -/
  | drained {timeout : ℤ} {e : SocketEvent} {evs : List Ev} (hop : l.op = .poll timeout)
      (he : e.id = i ∧ e.type = .wridoneclose) (hpast : past = .raised e :: evs)
      (hall : wire i evs = supply i evs)
  /-- A write in `socket_poll` fails. -/
  | broken {timeout err : ℤ} {e : SocketEvent} {evs : List Ev} (hop : l.op = .poll timeout)
      (he : e.id = i ∧ e.type = .sockerr ∧ e.arg = some err) (herr : err ≠ 0)
      (hpast : past = .raised e :: evs)
  | forced (hop : l.op = .close i true)
  | destroyed (hop : l.op = .free)
  /-- `socket_read` finds the end of the file or an error. -/
  | unread (hop : l.op = .read i) (hret : l.ret = -1)
  /-- A send fails. -/
  | unsent (hop : (∃ data sz, l.op = .send i data sz) ∨ ∃ data sz cfd, l.op = .sendfd i data sz cfd)
      (hret : l.ret = -1)

/-- The ways in which a half-closed connection ends. -/
theorem Closing.halfclose (h : Closing B op v i c np c' np' evs) (hc : c.Settled)
    (hs : c.status = .halfclose) (hlog : History Ev.Streams (evs ++ log)) :
    HalfcloseEnds ⟨op, v⟩ i (evs ++ log) := by
  cases h with
  | forced hop => exact .forced hop
  | idle _ hq => exact absurd hq (hc.half hs)
  | destroyed hop => exact .destroyed hop
  | unread hop hv => exact .unread hop hv
  | unsent h hv =>
    refine .unsent ?_ hv
    cases h with
    | send => exact .inl ⟨_, _, rfl⟩
    | sendfd => exact .inr ⟨_, _, _, rfl⟩
  | broken hop _ herr => exact .broken hop ⟨rfl, rfl, rfl⟩ herr rfl
  | finished hop => exact .drained hop ⟨rfl, rfl⟩ rfl (hlog.1 rfl)
  | unconnected _ hcon =>
    rw [hs] at hcon
    cases hcon

/-! ## Calls -/

/-- The call `l` closes the connection in slot `i`, which has the status `s` before the call, while the
log grows from `log` to `log'`. -/
inductive Ends (l : Call) (i : ℕ) (s : Status) (log log' : List Ev) : Prop
  | closed {fd : ℤ} {mask : Mask} {past : List Ev} (hlog : .closed i fd mask :: past <:+ log')
      (hpast : log <:+ past) (hgen : generation i past = generation i log)
      (hs : s = .halfclose → HalfcloseEnds l i past)

/-- Induction over the changes of the call: as long as no change closes the connection, its status
advances and no other connection is opened in its slot. -/
theorem Changes.stays_or_ends (h : Changes B op v a a') (ha : (changes B).Reach a)
    (hc : a.slot i = some c) :
    (∃ c', a'.slot i = some c' ∧ generation i a'.log = generation i a.log ∧
      c.status.Becomes c'.status) ∨ Ends ⟨op, v⟩ i c.status a.log a'.log := by
  induction h with
  | refl => exact .inl ⟨c, hc, rfl, .inl rfl⟩
  | @tail b b' hab hch ih =>
    have hreach := Changes.reach hab ha
    have hsuffix := Changes.log_suffix hab
    have hgen : ∀ {evs : List Ev}, (∀ e ∈ evs, ¬ e.Opens i) →
        generation i (evs ++ b.log) = generation i b.log := (generation_ignores i).append
    -- still there, the connection meets the next change; once over, its end stays in the log
    rcases ih with ⟨d, hd, hg, hs⟩ | ⟨hlog, hpast, hg, hs⟩
    · rcases hch.fate hd with ⟨evs, hslot, hlog, hevs⟩ | hstep | @⟨d', np', evs, hclose⟩
      · refine .inl ⟨d, hslot, ?_, hs⟩
        rw [hlog, hgen fun e he => (hevs e he).not_opens, hg]
      · refine .inl ⟨_, Abs.put_slot_self .., ?_, hs.trans hstep.becomes⟩
        exact (hgen fun e he => (hstep.about e he).steady.not_opens).trans hg
      · have hstream := reach_streaming hreach
        have hclosed : .closed i d'.fd d'.mask :: (evs ++ b.log) <:+
            ((b.put i d' np' evs).close i B d').log := by
          rw [Abs.close_log]
          exact List.suffix_append ..
        refine .inr (.closed hclosed ?_ ?_ fun hhalf => ?_)
        · exact hsuffix.trans (List.suffix_append ..)
        · rw [hgen fun e he => (hclose.about e he).steady.not_opens, hg]
        · exact hclose.halfclose (reach_settled hreach i _ hd) (hhalf ▸ hs).of_halfclose
            (hclose.recorded hstream.log (hstream.queued i _ hd) (hstream.conn i _ hd))
    · exact .inr (.closed (hlog.trans hch.log_suffix) hpast hg hs)

/-! ## Slots -/

/-- A slot between two calls: free, with no queue, or in one of the five states of a connection. -/
structure SlotState (w : World σ) (i : ℕ) : Prop where
  free : (w.net.sockets i).status = .invalid → (w.net.sockets i).head = none
  status : (w.net.sockets i).status ∈
    [Status.invalid, .listening, .connecting, .connected, .bind, .halfclose]
  half : (w.net.sockets i).status = .halfclose → w.queue i ≠ []

/-- In every run, every slot is in one of its states between two calls. -/
theorem reach_slotState (h : (net B).Reach w) (hi : i < w.net.max) : SlotState w i := by
  obtain ⟨hrep, habs⟩ := reach_abs h
  have hset : w.Live i → ((w.net.sockets i).conn (w.queue i)).Settled :=
    fun hl => reach_settled habs i _ (if_pos hl)
  refine ⟨hrep.1.free_head i hi, ?_, fun hs => ?_⟩
  · by_cases hl : (w.net.sockets i).status = .invalid
    · simp [hl]
    · have hne : (w.net.sockets i).status ≠ .suspend := (hset ⟨hi, hl⟩).status.2
      rcases hs : (w.net.sockets i).status <;> simp_all
  · have hl : w.Live i := ⟨hi, by simp [hs]⟩
    exact (hset hl).half hs

/-- In every run each slot is free or in a settled state. In every call from there, a connection
keeps its slot and its status advances, or it is closed; if it is half-closed, then because it is
drained, by an error, or by the will of the caller. -/
theorem connection_states (h : (net B).Reach w) :
    (∀ i < w.net.max, SlotState w i) ∧
      ∀ l w', (net B).step w l w' → ∀ i, w.Live i →
        (w'.Live i ∧ generation i w'.log = generation i w.log ∧
          (w.net.sockets i).status.Becomes (w'.net.sockets i).status) ∨
        Ends l i (w.net.sockets i).status w.log w'.log := by
  refine ⟨fun i hi => reach_slotState h hi, fun l w' hs i hi => ?_⟩
  obtain ⟨hrep, habs⟩ := reach_abs h
  rcases (step_changes hrep hs).2.stays_or_ends habs (if_pos hi) with ⟨c', hc', hgen, hbec⟩ | hends
  · by_cases hl : w'.Live i
    · obtain rfl := Option.some.inj ((if_pos hl).symm.trans hc')
      exact .inl ⟨hl, hgen, hbec⟩
    · cases (if_neg hl).symm.trans hc'
  · exact .inr hends

/-- A connection is half-closed with three bytes queued. -/
def halfcloseCalls : List (Op × List Reply) :=
  [(.bind 5 0 0, [{}, {}]),
    (.send 0 ⟨1, [1, 2, 3]⟩ 3, [{ ret := -1, errno := EAGAIN }, { addr := 0 }, {}]),
    (.close 0 false, [])]

/-- The queue is drained. -/
def drainedCalls : List (Op × List Reply) :=
  halfcloseCalls ++ [(.poll 0,
    [{ ret := 1, ready := [⟨5, false, true, false⟩] }, { ret := 3 }, { ret := 0 }])]

/-- The poll that drains the queue frees the slot. -/
theorem connection_states_drained :
    (∀ i < 1, SlotState ((fresh epoll 1).after epoll halfcloseCalls) i) ∧
      (((fresh epoll 1).after epoll halfcloseCalls).net.sockets 0).status = .halfclose ∧
      (((fresh epoll 1).after epoll drainedCalls).net.sockets 0).status = .invalid := by
  have hreach : (net epoll).Reach ((fresh epoll 1).after epoll halfcloseCalls) :=
    reach_fresh (by decide)
  exact ⟨(connection_states hreach).1, by decide, by decide +kernel⟩

end Lsocket
