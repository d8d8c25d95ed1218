import Lsocket.Net.Lifecycle

/-!
# Half-closed connections

Once `socket_close` has left a connection half-closed with a queue, only that queue is to be sent and
nothing is to be read. On TCP this is so. On IPC neither `socket_sendfd` nor `_readfd` looks at the
status: it is so as long as the data of a send do not fit and a read finds no message.
-/

namespace Lsocket

open CInt

variable {σ : Type} {B : Backend σ} {w w' : World σ} {a a' : Abs σ} {i : ℕ} {c c' : Conn} {op : Op}
variable {np np' : σ} {evs log log' base : List Ev} {v : ℤ} {p : Protocol} {Q : List Chunk}

/-! ## After the half-close -/

/-- An event that does not hand data of the slot to the caller and does not report its end. -/
def Ev.Mute (i : ℕ) : Ev → Prop
  | .received j _ _ | .opened j _ _ | .closed j _ _ => j ≠ i
  | .raised e => ¬ (e.id = i ∧ e.type = .wridoneclose)
  | _ => True

theorem Ev.Mute.not_opens {e : Ev} (h : e.Mute i) : ¬ e.Opens i := by
  cases e with
  | opened => exact h
  | _ => exact id

/-- What is about another slot is mute for this one. -/
theorem Ev.Elsewhere.mute {e : Ev} (h : e.Elsewhere i) : e.Mute i := by
  cases e with
  | raised e =>
    rintro ⟨hi, ht⟩
    rcases h with h | h
    · exact h hi
    · exact h.2 ht
  | _ => first | exact h | trivial

/-- The connection in slot `i` was half-closed with the queue `Q` when the log was `base`. It is still
there, and what was written since and what is queued are `Q`. -/
inductive Held (p : Protocol) (i : ℕ) (Q : List Chunk) (base : List Ev) (a : Abs σ) : Prop
  | intro {c : Conn} {mid : List Ev} (hc : a.slot i = some c) (hs : c.status = .halfclose)
      (hp : c.protocol = p) (hlog : a.log = mid ++ base) (hmid : ∀ e ∈ mid, e.Mute i)
      (hq : wire i mid ++ streams c.queue = streams Q)

/-- The connection is closed, with a part of `Q` written; or with all of it, as the event says that is
raised before. -/
inductive Over (i : ℕ) (Q : List Chunk) (base log : List Ev) : Prop
  | cut {mid : List Ev} {fd : ℤ} {mask : Mask} (hlog : .closed i fd mask :: (mid ++ base) <:+ log)
      (hmid : ∀ e ∈ mid, e.Mute i) (hq : wire i mid <+: streams Q)
  | drained {mid : List Ev} {fd : ℤ} {mask : Mask} {e : SocketEvent}
      (hlog : .closed i fd mask :: .raised e :: (mid ++ base) <:+ log)
      (he : e.id = i ∧ e.type = .wridoneclose) (hmid : ∀ e ∈ mid, e.Mute i)
      (hq : wire i mid = streams Q)

/-- What is over stays over. -/
theorem Over.mono (h : Over i Q base log) (hlog : log <:+ log') : Over i Q base log' := by
  cases h with
  | cut h hmid hq => exact .cut (h.trans hlog) hmid hq
  | drained h he hmid hq => exact .drained (h.trans hlog) he hmid hq

/-- A call that neither queues data on an IPC connection nor reads data from it. -/
def Call.Mute (l : Call) (i : ℕ) : Prop :=
  (∀ data sz cfd, l.op = .sendfd i data sz cfd → l.ret ≠ 0) ∧ (l.op = .read i → l.ret ≤ 0)

theorem Ev.Writes.mute {e : Ev} (h : e.Writes i) : e.Mute i := by
  cases e <;> first | exact h.elim | trivial

theorem Subscribe.mute {fd r : ℤ} {old new mask : Mask}
    (h : Subscribe B i fd old new np r mask np' evs) : ∀ e ∈ evs, e.Mute i := by
  cases h <;> simp [Ev.Mute]

/-- A write event hands nothing over and reports no end. -/
theorem Flush.mute (h : Flush B i c np c' np' evs) : ∀ e ∈ evs, e.Mute i := by
  cases h with
  | idle => simp
  | rest h => exact fun e he => (h.writes e he).mute
  | done _ h _ hs =>
    intro e he
    rcases List.mem_append.mp he with he | he
    · exact hs.mute e he
    · exact (h.writes e he).mute

/-- A step of a half-closed connection writes from the front of its queue, if anything. -/
theorem ConnStep.mute (h : ConnStep B op v i c np c' np' evs) (hs : c.status = .halfclose)
    (hset : c.Settled) (hq : c.Queued) (hcall : c.protocol = .ipc → (⟨op, v⟩ : Call).Mute i) :
    c'.status = .halfclose ∧ c'.protocol = c.protocol ∧ (∀ e ∈ evs, e.Mute i) ∧
      wire i evs ++ streams c'.queue = streams c.queue := by
  have hne := hset.half hs
  cases h with
  | tune => exact ⟨hs, rfl, by simp, rfl⟩
  | received hop hv h =>
    rcases h with ⟨-, hn, -⟩ | hp
    · exact absurd hs hn
    · exact absurd ((hcall hp).2 hop) (not_le.mpr hv)
  | enable _ h => exact ⟨hs, rfl, h.mute, by rw [wire_silent h.silent]; rfl⟩
  | half => exact ⟨rfl, rfl, by simp [Ev.Mute], rfl⟩
  | whole _ hq' => exact absurd hq' hne
  | start _ hq' => exact absurd hq' hne
  | behind h hv =>
    cases h with
    | send _ _ hn => exact absurd hs hn
    | sendfd _ hp => exact absurd hv ((hcall hp).1 _ _ _ rfl)
  | flushed _ h => exact ⟨h.status.trans hs, by rw [h.eq], h.mute, (h.flows hq).2.1⟩
  | completed _ hn => rw [hs] at hn; cases hn

/-- What happens to a half-closed connection before it is closed. -/
theorem Closing.mute (h : Closing B op v i c np c' np' evs) (hs : c.status = .halfclose)
    (hset : c.Settled) (hq : c.Queued) :
    ((∀ e ∈ evs, e.Mute i) ∧ wire i evs <+: streams c.queue) ∨
      ∃ e evs', evs = .raised e :: evs' ∧ (e.id = i ∧ e.type = .wridoneclose) ∧
        (∀ e ∈ evs', e.Mute i) ∧ wire i evs' = streams c.queue := by
  have hne := hset.half hs
  cases h with
  | forced | destroyed | unread => exact .inl ⟨by simp, List.nil_prefix⟩
  | idle _ hq' => exact absurd hq' hne
  | @unsent b n h _ _ hn =>
    left
    rw [wrote_of_nonpos _ _ (hn.resolve_left hne)]
    refine ⟨fun e he => ?_, ?_⟩
    · rcases List.mem_append.mp he with he | he
      · exact (b.freed_writes e he).mute
      · exact List.mem_singleton.mp he ▸ trivial
    · rw [(flow_silent b.freed_silent _).1]
      exact List.nil_prefix
  | broken _ _ _ h =>
    refine .inl ⟨fun e he => ?_, ?_⟩
    · rcases List.mem_cons.mp he with rfl | he
      · simp [Ev.Mute]
      · exact (h.writes e he).mute
    · rw [← List.singleton_append, (flow_silent (by simp [Ev.Silent]) _).1, ← (h.flows hq).2]
      exact List.prefix_append ..
  -- the queue ran out: all of it was written, and the close is told
  | finished _ _ _ h hdone =>
    refine .inr ⟨_, _, rfl, ⟨rfl, rfl⟩, h.mute, ?_⟩
    have hflow := (h.flows hq).2.1
    rwa [hdone, streams_nil, List.append_nil] at hflow
  | unconnected _ hn => rw [hs] at hn; cases hn

/-- What mute events write is added to the wire. -/
theorem wire_mute (h : ∀ e ∈ evs, e.Mute i) (mid : List Ev) :
    wire i (evs ++ mid) = wire i mid ++ wire i evs :=
  wire_append fun e he => (h e he).not_opens

/-- A change leaves a half-closed connection so, with what it writes taken from the queue, or ends it.
-/
theorem Held.change (h : Held p i Q base a) (ha : (changes B).Reach a) (hch : Change B op v a a')
    (hcall : p = .ipc → (⟨op, v⟩ : Call).Mute i) : Held p i Q base a' ∨ Over i Q base a'.log := by
  obtain ⟨hc, hs, hp, hlog, hmid, hq⟩ := h
  have hset := reach_settled ha i _ hc
  have hqd := (reach_streaming ha).queued i _ hc
  -- another slot's event, a step of the connection, or its end
  rcases hch.fate hc with ⟨evs, hslot, hlog', hevs⟩ | hstep | @⟨c', np', evs, hclose⟩
  · have hmute : ∀ e ∈ evs, e.Mute i := fun e he => (hevs e he).mute
    refine .inl (.intro hslot hs hp ?_ (List.forall_mem_append.mpr ⟨hmute, hmid⟩) ?_)
    · rw [hlog', hlog, List.append_assoc]
    · rw [wire_mute hmute, wire_elsewhere hevs, List.append_nil, hq]
  · obtain ⟨hs', hp', hmute, hflow⟩ := hstep.mute hs hset hqd (hp ▸ hcall)
    refine .inl (.intro (Abs.put_slot_self ..) hs' (hp'.trans hp) ?_
      (List.forall_mem_append.mpr ⟨hmute, hmid⟩) ?_)
    · rw [Abs.put, hlog, List.append_assoc]
    · rw [wire_mute hmute, List.append_assoc, hflow, hq]
  · right
    rw [Abs.close_log, Abs.put, hlog]
    have hclosed : ∀ log, .closed i c'.fd c'.mask :: log <:+
        closeEvs c' ++ .closed i c'.fd c'.mask :: log := fun _ => List.suffix_append ..
    rcases hclose.mute hs hset hqd with ⟨hmute, hpre⟩ | ⟨e, evs', rfl, he, hmute, hall⟩
    · rw [← List.append_assoc]
      refine .cut (hclosed _) (List.forall_mem_append.mpr ⟨hmute, hmid⟩) ?_
      rw [wire_mute hmute, ← hq]
      exact (List.prefix_append_right_inj _).mpr hpre
    · rw [List.cons_append, ← List.append_assoc]
      refine .drained (hclosed _) he (List.forall_mem_append.mpr ⟨hmute, hmid⟩) ?_
      rw [wire_mute hmute, hall, hq]

/-- Induction over the changes of a call. -/
theorem Held.changes (h : Held p i Q base a) (ha : (changes B).Reach a) (hch : Changes B op v a a')
    (hcall : p = .ipc → (⟨op, v⟩ : Call).Mute i) : Held p i Q base a' ∨ Over i Q base a'.log := by
  induction hch with
  | refl => exact .inl h
  | tail hab hch ih =>
    rcases ih with h | h
    · exact h.change (Changes.reach hab ha) hch hcall
    · exact .inr (h.mono hch.log_suffix)

/-! ## Calls that change nothing -/

/-- Whether a `recvmsg` that answers like this, in its turn, delivers a message. -/
def delivers : List Reply → Bool
  | [] => false
  | r :: rs =>
    if r.ret < 0 then r.errno = EINTR && delivers rs
    else 0 < r.ret && !r.trunc &&
      (r.cmsgLen ≠ CMSG_LEN_INT || (r.cmsgLevel = SOL_SOCKET && r.cmsgType = SCM_RIGHTS))

/-- A call to the operating system gets the first of the answers to come. -/
theorem wp_call {ok : Reply → Prop} [DecidablePred ok] {R : Reply → World σ → Prop}
    (h : ∀ r rs errno, w.os.replies = r :: rs → ok r → R r { w with os := ⟨rs, errno⟩ }) :
    Prog.wp (call ok) R (fun _ _ => True) w := by
  refine (Prog.wp_zoom ..).mpr ?_
  unfold Prog.wp sys
  rcases hr : w.os.replies with _ | ⟨r, rs⟩
  · trivial
  · by_cases hok : ok r
    · simp only [if_pos hok]
      exact h r rs _ hr hok
    · simp only [if_neg hok]

/-- A read that fails returns no data. -/
theorem readFail_quiet (err : ℤ) (w : World σ) :
    Prog.wp (readFail B i err) (fun r _ => r.n ≤ 0) (fun _ _ => True) w := by
  refine (Prog.wp_bind ..).mpr (Prog.wp_of_forall fun _ _ => ?_)
  refine (Prog.wp_bind ..).mpr (Prog.wp_of_forall fun _ _ => ?_)
  exact (by decide : (-1 : ℤ) ≤ 0)

/-- A read that finds no message returns no data. -/
theorem readfdLoop_quiet (fuel : ℕ) (h : delivers w.os.replies = false) :
    Prog.wp (readfdLoop B i fuel) (fun r _ => r.n ≤ 0) (fun _ _ => True) w := by
  induction fuel generalizing w with
  | zero => trivial
  | succ fuel ih =>
    simp only [readfdLoop, Prog.wp_bind]
    refine wp_call fun r rs errno hr _ => ?_
    rw [hr, delivers] at h
    by_cases hneg : r.ret < 0
    · rw [if_pos hneg] at h ⊢
      split
      · exact le_rfl
      split
      -- interrupted: the loop reads on, and the answers left still deliver nothing
      · next hintr => exact ih (by simpa [hintr] using h)
      · exact readFail_quiet ..
    · rw [if_neg hneg] at h ⊢
      split
      · exact readFail_quiet ..
      split
      · exact readFail_quiet ..
      next hzero htrunc =>
      have hpos : 0 < r.ret := by omega
      simp only [hpos, htrunc] at h
      split
      · next hlen =>
        rw [if_pos ?_]
        · exact readFail_quiet ..
        · simpa [hlen, ← imp_iff_not_or] using h
      · next hlen => simp [hlen] at h

/-- Reading an occupied slot. -/
theorem wp_slotAt {R : Socket → World σ → Prop} {E : Fault → World σ → Prop} (hi : i < w.net.max)
    (h : R (w.net.sockets i) w) : Prog.wp (slotAt i) R E w := by
  simp only [slotAt, Prog.wp_bind, Prog.wp_read]
  exact (Prog.wp_check hi).mpr h

/-- `_socket` finds a slot that is occupied. -/
theorem wp_socketOf {R : Option ℕ → World σ → Prop} {E : Fault → World σ → Prop} (hi : w.Live i)
    (h : R (some i) w) : Prog.wp (socketOf i) R E w := by
  have hmax : (i : ℤ) < w.net.max := by exact_mod_cast hi.1
  simp only [socketOf, Prog.wp_bind, Prog.wp_read]
  refine (Prog.wp_check ⟨Int.natCast_nonneg i, hmax⟩).mpr ?_
  rw [Int.toNat_natCast]
  refine (Prog.wp_bind ..).mpr (wp_slotAt hi.1 ?_)
  rw [if_pos hi.2]
  exact h

/-- A read of an IPC connection that finds no message. -/
theorem socketRead_quiet (hi : w.Live i) (hp : (w.net.sockets i).protocol = .ipc)
    (h : delivers w.os.replies = false) :
    Prog.wp (socketRead B i) (fun r _ => r.n ≤ 0) (fun _ _ => True) w := by
  refine (Prog.wp_bind ..).mpr (wp_socketOf hi ?_)
  refine (Prog.wp_bind ..).mpr (wp_slotAt hi.1 ?_)
  rw [hp]
  refine (Prog.wp_bind ..).mpr (wp_slotAt hi.1 ?_)
  rw [if_neg (not_not.mpr hp)]
  exact (Prog.wp_bind ..).mpr (readfdLoop_quiet _ h)

/-- Data that do not fit behind those that are queued. -/
theorem socketSendfd_over {data : Option Block} {sz cfd : ℤ} (hi : w.Live i)
    (hp : (w.net.sockets i).protocol = .ipc) (hq : (w.net.sockets i).head ≠ none) (hsz : 0 < sz)
    (hover : (w.net.sockets i).slimit < wrap ((w.net.sockets i).sbuffersz + sz)) :
    Prog.wp (socketSendfd B i data sz cfd) (fun v _ => v = -1) (fun _ _ => True) w := by
  refine (Prog.wp_bind ..).mpr ((Prog.wp_check (.inl hsz)).mpr ?_)
  refine (Prog.wp_bind ..).mpr (wp_socketOf hi ?_)
  refine (Prog.wp_bind ..).mpr (wp_slotAt hi.1 ?_)
  rw [if_neg (not_not.mpr hp)]
  refine (Prog.wp_bind ..).mpr ((Prog.wp_write ..).mpr ?_)
  rw [if_neg hq]
  simp only [sendBehind, setSlot, Prog.wp_bind, Prog.wp_read]
  refine (Prog.wp_check hi.1).mpr ((Prog.wp_write ..).mpr ((Prog.wp_bind ..).mpr (wp_slotAt hi.1 ?_)))
  simp only [if_true]
  rw [if_pos hover]
  refine (Prog.wp_bind ..).mpr (Prog.wp_of_forall fun _ _ => ?_)
  refine (Prog.wp_bind ..).mpr (Prog.wp_of_forall fun _ _ => ?_)
  exact (Prog.wp_bind ..).mpr (Prog.wp_of_forall fun _ _ => rfl)

/-! ## Runs -/

/-- A step that, if the slot is of protocol IPC and half-closed, sends no data that fit and reads no
message that is there. -/
def Spares (B : Backend σ) (i : ℕ) (w : World σ) (l : Call) (w' : World σ) : Prop :=
  (w.net.sockets i).status = .halfclose → (w.net.sockets i).protocol = .ipc →
    (∀ data sz cfd, l.op = .sendfd i data sz cfd →
      (w.net.sockets i).slimit < wrap ((w.net.sockets i).sbuffersz + sz)) ∧
    (l.op = .read i → ∃ replies, delivers replies = false ∧
      l.op.call B (w.answer replies) = (.ok l.ret, w'))

/-- What is left of a half-close: the connection is there with the rest of `Q`, or it is over. -/
def Frozen (p : Protocol) (i : ℕ) (Q : List Chunk) (base : List Ev) (w : World σ) : Prop :=
  Held p i Q base w.abs ∨ Over i Q base w.log

/-- A step that spares the connection neither queues data on it nor reads from it. -/
theorem Spares.mute {l : Call} (h : Spares B i w l w') (hreach : (net B).Reach w)
    (hs : (net B).step w l w') (hi : w.Live i) (hst : (w.net.sockets i).status = .halfclose)
    (hp : (w.net.sockets i).protocol = .ipc) : l.Mute i := by
  obtain ⟨hover, hquiet⟩ := h hst hp
  constructor
  · intro data sz cfd hop hret
    obtain ⟨-, hallowed, replies, hrun⟩ := hs
    rw [hop] at hrun hallowed
    -- half-closed, it has a queue, so the send goes behind it and is over the limit
    have hq : (w.net.sockets i).head ≠ none := by
      intro hnil
      refine (reach_slotState hreach hi.1).half hst ?_
      rw [World.queue, hnil]
      rcases w.mem.top with _ | _ <;> rfl
    have hfail := Prog.wp_ok (socketSendfd_over (B := B) (w := w.answer replies) hi hp hq
      hallowed.2.1 (hover data sz cfd hop)) hrun
    omega
  · intro hop
    obtain ⟨replies, hdel, hrun⟩ := hquiet hop
    rw [hop] at hrun
    exact Prog.wp_ok (Q := fun n _ => n ≤ 0)
      ((Prog.wp_map ..).mpr (socketRead_quiet (w := w.answer replies) hi hp hdel)) hrun

/-- A step that spares the slot keeps what is left of a half-close: the queue may get shorter, or the
connection ends, and then stays over. -/
theorem Frozen.step {l : Call} (h : Frozen p i Q base w) (hreach : (net B).Reach w)
    (hs : (net B).step w l w') (hspares : Spares B i w l w') : Frozen p i Q base w' := by
  obtain ⟨hrep, habs⟩ := reach_abs hreach
  have hch := (step_changes hrep hs).2
  rcases h with h | h
  · refine h.changes habs hch fun hp => ?_
    obtain ⟨hc, hst, hproto, -⟩ := h
    by_cases hi : w.Live i
    · obtain rfl := Option.some.inj ((if_pos hi).symm.trans hc)
      exact hspares.mute hreach hs hi hst (hproto.trans hp)
    · cases (if_neg hi).symm.trans hc
  · exact .inr (h.mono (Changes.log_suffix hch))

/-- `socket_close` returns 1 only if it leaves the connection half-closed. -/
theorem frozen_close (hreach : (net B).Reach w) (hs : (net B).step w ⟨.close i false, 1⟩ w') :
    Frozen (w'.net.sockets i).protocol i (w'.queue i) w'.log w' := by
  obtain ⟨hrep, -⟩ := reach_abs hreach
  obtain ⟨-, hallowed, replies, hrun⟩ := hs
  obtain ⟨a', ⟨-, rfl⟩, -, hhalf⟩ :=
    (does_socketClose false (hrep.max_eq ▸ hallowed)).ok (hrep.answer replies) hrun
  obtain ⟨c, hc, hst⟩ := hhalf rfl
  by_cases hi : w'.Live i
  · obtain rfl := Option.some.inj ((if_pos hi).symm.trans hc)
    refine .inl (.intro hc hst rfl (List.nil_append _).symm ?_ rfl)
    exact fun e he => absurd he List.not_mem_nil
  · cases (if_neg hi).symm.trans hc

/-- After a half-close, in a run whose steps all spare the slot: as long as the connection is there,
what was written since and what is queued are the queue that the half-close left, and no data are
read; when it is closed, a part of the queue was written; and the whole of it if the end of the
writing is reported, which happens at most once. -/
theorem frozen_of_spares {w₁ w₀ : World σ} (h₁ : (net B).Reach w₁)
    (hclose : (net B).step w₁ ⟨.close i false, 1⟩ w₀)
    (h : (((net B).startedIn w₀).restrict (Spares B i)).Reach w) :
    Frozen (w₀.net.sockets i).protocol i (w₀.queue i) w₀.log w := by
  have h₀ : (net B).Reach w₀ := .step h₁ hclose
  refine h.invariant (I := Frozen (w₀.net.sockets i).protocol i (w₀.queue i) w₀.log) ?_
    fun w l w' hw hfrozen hs => ?_
  · rintro _ rfl
    exact frozen_close h₁ hclose
  · exact hfrozen.step (.of_startedIn h₀ hw.of_restrict) hs.1 hs.2

/-- An IPC connection with two bytes queued. -/
def queuedCalls : List (Op × List Reply) :=
  [(.bind 5 0 2, [{}, {}]),
    (.sendfd 0 (some ⟨1, [1, 2]⟩) 2 (-1), [{ ret := -1, errno := EAGAIN }, { addr := 0 }, {}])]

/-- The same, and half-closed. -/
def halfclosedIpc : World Epoll := ((fresh epoll 1).after epoll queuedCalls).next epoll (.close 0 false) []

/-- The connection of the example is left half-closed. -/
theorem halfclosedIpc_step :
    (net epoll).Reach ((fresh epoll 1).after epoll queuedCalls) ∧
      (net epoll).step ((fresh epoll 1).after epoll queuedCalls) ⟨.close (0 : ℕ) false, 1⟩
        halfclosedIpc :=
  ⟨reach_fresh (by decide +kernel),
    step_next _ (by decide +kernel) (by decide +kernel) (by decide +kernel)⟩

/-- A poll writes one of the two bytes. -/
theorem frozen_of_spares_drain :
    Frozen .ipc 0 (halfclosedIpc.queue 0) halfclosedIpc.log (halfclosedIpc.next epoll (.poll 0)
      [{ ret := 1, ready := [⟨5, false, true, false⟩] }, { ret := 1 }]) := by
  refine frozen_of_spares halfclosedIpc_step.1 halfclosedIpc_step.2 ?_
  refine .step (l := ⟨.poll 0, 0⟩) (.init rfl) ⟨step_next _ ?_ ?_ ?_, fun _ _ => ⟨nofun, nofun⟩⟩
  · decide +kernel
  · decide +kernel
  · decide +kernel

/-- Three more bytes are accepted on the half-closed connection. -/
def sentLate : World Epoll :=
  halfclosedIpc.next epoll (.sendfd 0 (some ⟨2, [3, 4, 5]⟩) 3 7) [{ addr := 1 }]

/-- The event frees a slot. -/
def Ev.frees : Ev → Bool
  | .closed .. => true
  | _ => false

theorem frozen_sentLate : ∃ w₁ w₀ w, (net epoll).Reach w₁ ∧
    (net epoll).step w₁ ⟨.close (0 : ℕ) false, 1⟩ w₀ ∧ (w₀.net.sockets 0).protocol = .ipc ∧
    (((net epoll).startedIn w₀).restrict fun _ l _ => l.op ≠ .close (0 : ℕ) true).Reach w ∧
    ¬ Frozen (w₀.net.sockets 0).protocol 0 (w₀.queue 0) w₀.log w := by
  refine ⟨_, _, sentLate, halfclosedIpc_step.1, halfclosedIpc_step.2, by decide +kernel,
    .step (l := ⟨.sendfd 0 (some ⟨2, [3, 4, 5]⟩) 3 7, 0⟩) (.init rfl)
      ⟨step_next _ (by decide +kernel) (by decide +kernel) (by decide +kernel), nofun⟩, ?_⟩
  have hopen : ∀ e ∈ sentLate.log, e.frees = false := by
    decide +kernel
  rintro (⟨hc, -, -, -, -, hq⟩ | ⟨hlog, -⟩ | ⟨hlog, -⟩)
  · have hlate : (sentLate.abs.slot 0).map (fun c => (streams c.queue).length) = some 5 := by
      decide +kernel
    have hleft : (streams (halfclosedIpc.queue 0)).length = 2 := by decide +kernel
    rw [hc, Option.map_some, Option.some.injEq] at hlate
    have hlen := congrArg List.length hq
    rw [List.length_append, hlate] at hlen
    have hlen : (wire 0 _).length + 5 = 2 := hlen.trans hleft
    omega
  · exact absurd (hopen _ (hlog.subset List.mem_cons_self)) (by simp [Ev.frees])
  · exact absurd (hopen _ (hlog.subset List.mem_cons_self)) (by simp [Ev.frees])

end Lsocket
