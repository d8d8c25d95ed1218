import Lsocket.Lib.Progress
import Lsocket.Net.HalfClose
import Lsocket.Net.Handled
import Lsocket.Net.Interest
import Lsocket.Net.Psocket
import Lsocket.Net.Reading

/-!
# A half-closed connection is closed at last

`socket_close` leaves a connection with data queued half-closed, and nobody needs to call anything for
it but `socket_poll`. It does not stay for ever: it is registered for writing as long as it lasts, and
every poll that is granted a write (`Grants`) takes bytes off its queue.
-/

namespace Lsocket

open CInt

variable {σ : Type} {B : Backend σ} {w w' : World σ} {i : ℕ} {l : Call}
variable {Q : List Chunk} {base : List Ev}

/-! ## Half-closed in a run -/

/-- Bytes of the connection in slot `i` are written. -/
def Takes (i : ℕ) (w w' : World σ) : Prop := ∃ evs, w'.log = evs ++ w.log ∧ wire i evs ≠ []

/-- How much of the queue is left. -/
def World.unsent (w : World σ) (i : ℕ) : ℕ := (streams (w.queue i)).length

/-- What a half-closed connection looks like in the world. -/
theorem Held.exists_queue {p : Protocol} (h : Held p i Q base w.abs) :
    w.Live i ∧ (w.net.sockets i).status = .halfclose ∧ ∃ mid, w.log = mid ++ base ∧
      (∀ e ∈ mid, e.Mute i) ∧ wire i mid ++ streams (w.queue i) = streams Q := by
  obtain ⟨hc, hs, -, hlog, hmid, hq⟩ := h
  by_cases hi : w.Live i
  · obtain rfl := Option.some.inj ((if_pos hi).symm.trans hc)
    exact ⟨hi, hs, _, hlog, hmid, hq⟩
  · cases (if_neg hi).symm.trans hc

/-- While a connection is half-closed, its end is not reported, nothing is handed over, and what is
written comes off its queue. -/
theorem Held.since {p : Protocol} {evs : List Ev} (h : Held p i Q base w.abs)
    (h' : Held p i Q base w'.abs) (hlog : w'.log = evs ++ w.log) :
    (∀ e ∈ evs, e.Mute i) ∧ wire i evs ++ streams (w'.queue i) = streams (w.queue i) := by
  obtain ⟨-, -, mid, hmid, -, hq⟩ := h.exists_queue
  obtain ⟨-, -, mid', hmid', hmute, hq'⟩ := h'.exists_queue
  obtain rfl : mid' = evs ++ mid := by
    rw [hmid', hmid, ← List.append_assoc] at hlog
    exact List.append_cancel_right hlog
  have hmute : ∀ e ∈ evs, e.Mute i := fun e he => hmute e (List.mem_append_left _ he)
  rw [wire_mute hmute, List.append_assoc, ← hq] at hq'
  exact ⟨hmute, List.append_cancel_left hq'⟩

/-- What is written is not left to write. -/
theorem Held.unsent_eq {p : Protocol} {evs : List Ev} (h : Held p i Q base w.abs)
    (h' : Held p i Q base w'.abs) (hlog : w'.log = evs ++ w.log) :
    (wire i evs).length + w'.unsent i = w.unsent i := by
  have hlen := congrArg List.length (h.since h' hlog).2
  rwa [List.length_append] at hlen

/-- A step of a run with a half-closed TCP connection. -/
theorem Held.step (h : Held .tcp i Q base w.abs) (hreach : (net B).Reach w) (hs : (net B).step w l w') :
    (Held .tcp i Q base w'.abs ∧ w'.unsent i ≤ w.unsent i ∧
      (Takes i w w' → w'.unsent i < w.unsent i)) ∨ Over i Q base w'.log := by
  obtain ⟨hrep, habs⟩ := reach_abs hreach
  refine (h.changes habs (step_changes hrep hs).2 nofun).imp_left fun h' => ⟨h', ?_, ?_⟩
  · obtain ⟨evs, hlog⟩ := log_suffix hreach hs
    have := h.unsent_eq h' hlog.symm
    omega
  · rintro ⟨evs, hlog, hne⟩
    have := h.unsent_eq h' hlog
    have := List.length_pos_of_ne_nil hne
    omega

/-- A half-closed connection is registered for writing, if the poller accepts every change of interest
and no connect completes with data queued. -/
theorem Held.wable {p : Protocol} (h : Held p i Q base w.abs) (hreach : (net B).Reach w)
    (hcalm : ∀ e ∈ w.log, e.Calm) : (w.net.sockets i).mask.wable = true := by
  obtain ⟨hi, hs, -⟩ := h.exists_queue
  have habs := (reach_abs hreach).2
  have hslot : w.abs.slot i = some ((w.net.sockets i).conn (w.queue i)) := if_pos hi
  have hne := (reach_settled habs i _ hslot).half hs
  refine ((reach_interested habs hcalm i _ hslot).queued fun hc => ?_).mpr hne
  cases hs.symm.trans hc

/-! ## A write that the system takes -/

/-- The first thing that comes after the events of the log is a write of bytes of slot `i`. -/
def WritesFirst (i : ℕ) (log log' : List Ev) : Prop :=
  ∃ bytes cfd, bytes ≠ [] ∧ .sent i bytes cfd :: log <:+ log'

/-- More events may come after it. -/
theorem WritesFirst.mono {log log' log'' : List Ev} (h : WritesFirst i log log') (hlog : log' <:+ log'') :
    WritesFirst i log log'' := by
  obtain ⟨bytes, cfd, hne, hsuf⟩ := h
  exact ⟨bytes, cfd, hne, hsuf.trans hlog⟩

/-- The write that comes next takes bytes, once no signal interrupts it. -/
def Granted (rs : List Reply) : Prop :=
  ∃ intr x rest, rs = intr ++ x :: rest ∧ (∀ y ∈ intr, y.Interrupted) ∧ 0 < x.ret

/-- The answer to the write is the one that takes bytes, or there is still room after it. -/
theorem Granted.head {x : Reply} {rs : List Reply} (h : Granted (x :: rs)) :
    0 < x.ret ∨ x.Interrupted ∧ Granted rs := by
  obtain ⟨intr, y, rest, heq, hintr, hy⟩ := h
  rcases intr with _ | ⟨z, intr⟩
  · obtain ⟨rfl, -⟩ := List.cons.inj heq
    exact .inl hy
  · obtain ⟨rfl, rfl⟩ := List.cons.inj heq
    exact .inr ⟨hintr _ List.mem_cons_self, intr, y, rest, rfl,
      fun z hz => hintr z (List.mem_cons_of_mem _ hz), hy⟩

/-- A write from a chunk that is in order, if it takes something. -/
theorem writesFirst_wrote {p : Protocol} {b : Chunk} {n : ℤ} (hb : b.Ok p) (hn : 0 < n) (hle : n ≤ b.sz)
    (log : List Ev) : WritesFirst i log (wrote i p b n ++ log) := by
  refine ⟨_, _, ?_, by rw [wrote, if_pos hn]; exact List.suffix_rfl⟩
  have hdata := hb.data
  rw [ne_eq, List.take_eq_nil_iff]
  rintro (hzero | hnil)
  · omega
  · rcases hp : b.ptr with _ | l <;> rw [hp] at hnil hdata
    · cases hnil
    · obtain rfl : l = [] := hnil
      simp only [Option.elim_some, List.length_nil] at hdata
      omega

/-- The loop over the queue starts with the write for the first chunk, again as long as it is
interrupted. -/
theorem doesWith_sendBufferTcp {a : Abs σ} {c : Conn} {rs : List Reply} (fuel : ℕ) (hc : a.slot i = some c)
    (hp : c.protocol = .tcp) (hne : c.queue ≠ []) (hq : c.Queued) (hroom : Granted rs) :
    DoesWith B (sendBufferTcp i fuel) (a, rs) fun _ x => WritesFirst i a.log x.1.log := by
  induction fuel generalizing rs with
  | zero => exact .fault Fault.outside_stuck
  | succ fuel ih =>
    refine doesWith_bind (does_headNode hc) (.headNode i) ?_
    rintro r a ⟨rfl, hr⟩
    rcases hcq : c.queue with _ | ⟨b', q⟩ <;> rw [hcq] at hr
    · exact absurd hcq hne
    rcases r with _ | b <;> [cases hr; skip]
    obtain rfl : b.toChunk = b' := Option.some.inj hr
    have hok : b.toChunk.Ok c.protocol := hq.ok b.toChunk (hcq ▸ List.mem_cons_self)
    refine .bind (doesWith_write (b := b.toChunk) b.sz hc (if_neg (by simp [hp]))) ?_
    rintro x ⟨_, rs'⟩ ⟨hret, rfl, rfl⟩
    refine .ite (fun hneg => ?_) fun hneg => ?_
    -- interrupted: the loop writes again, and the answer granted is still ahead
    · obtain ⟨hintr, hroom⟩ := hroom.head.resolve_left (by omega)
      rw [put_wrote_of_neg hc b.toChunk hneg, hintr.2]
      exact .ite (fun h => absurd h (by decide)) fun _ => .ite (fun _ => ih hroom) (absurd rfl)
    have hx : 0 < x.ret := hroom.head.resolve_right fun h => hneg h.1.1
    have hle := (hret.nonneg hneg).2
    have hfirst := writesFirst_wrote (i := i) hok hx hle a.log
    -- part of the chunk ends the loop; a whole chunk goes on, and the log only grows
    refine .ite (fun hlt => ?_) fun hge => ?_
    · refine (doesWith_any (does_part hcq ?_ ?_)).mono ?_
      · simp [Chunk.advance, hp]
      · exact fun _ => rfl
      · rintro _ ⟨_, _⟩ ⟨-, rfl⟩
        exact hfirst
    · obtain hsz : x.ret = b.sz := by omega
      rw [hsz] at hfirst ⊢
      refine doesWith_any (Q := fun _ a' => WritesFirst i a.log a'.log) (does_next hcq ?_)
      refine (does_sendBufferTcp (c := { c with queue := q, sbuffersz := wrap (c.sbuffersz - b.sz) }) fuel
        (Abs.put_slot_self ..) hp).mono ?_
      rintro _ _ ⟨c', evs, -, rfl⟩
      refine hfirst.mono ⟨evs ++ b.toChunk.freed, ?_⟩
      rw [Abs.put_put]
      simp [Abs.put]

/-- `_send_buffer`, with the queue of a TCP connection. -/
theorem doesWith_sendBuffer {a : Abs σ} {c : Conn} {rs : List Reply} (hc : a.slot i = some c)
    (hp : c.protocol = .tcp) (hne : c.queue ≠ []) (hq : c.Queued) (hroom : Granted rs) :
    DoesWith B (sendBuffer B i) (a, rs) fun _ x => WritesFirst i a.log x.1.log := by
  refine doesWith_bind (does_slotAt hc) (.slotAt i) ?_
  rintro s a ⟨rfl, hs⟩
  have hsp : s.protocol = .tcp := (congrArg Conn.protocol hs.conn_eq).trans hp
  refine .ite (fun h => absurd (hs.head_iff.mp h) hne) fun _ => ?_
  refine doesWith_bind does_answersLeft (.read _) ?_
  rintro fuel _ rfl
  rw [hsp]
  have hdrain := doesWith_and (doesWith_sendBufferTcp fuel hc hp hne hq hroom)
    (does_sendBufferTcp (B := B) fuel hc hp)
  refine .bind hdrain ?_
  rintro e ⟨_, rs'⟩ ⟨hfirst, c', evs, -, rfl⟩
  refine .ite (fun _ => ?_) fun _ => .pure hfirst
  refine doesWith_bind (does_slotAt (Abs.put_slot_self ..)) (.slotAt i) ?_
  rintro s' _ ⟨rfl, -⟩
  refine .ite (fun _ => ?_) fun _ => .pure hfirst
  refine .bind (doesWith_any (does_subscribe _ (Abs.put_slot_self ..))) ?_
  rintro _ ⟨_, _⟩ ⟨m, np, evs', -, rfl⟩
  refine .pure (hfirst.mono ⟨evs', ?_⟩)
  simp [Abs.put]

/-- A write event for a half-closed TCP connection starts with the write for its first chunk. -/
theorem doesWith_pollEvent {a : Abs σ} {c : Conn} {rs : List Reply} {ie : NpEvent}
    (hc : a.slot ie.ud = some c) (hs : c.status = .halfclose) (hp : c.protocol = .tcp)
    (hne : c.queue ≠ []) (hq : c.Queued) (hw : ie.write = true) (hroom : Granted rs) :
    DoesWith B (pollEvent B ie) (a, rs) fun _ x => WritesFirst ie.ud a.log x.1.log := by
  refine doesWith_bind (does_slotAt hc) (.slotAt _) ?_
  rintro s a ⟨rfl, hshow⟩
  rw [show s.status = .halfclose from (congrArg Conn.status hshow.conn_eq).trans hs]
  refine doesWith_bind (does_slotAt hc) (.slotAt _) ?_
  rintro s a ⟨rfl, -⟩
  rw [if_pos hw]
  refine .bind (doesWith_and (doesWith_sendBuffer hc hp hne hq hroom) (does_sendBuffer hc)) ?_
  rintro err ⟨a', rs'⟩ ⟨hfirst, hcases⟩
  obtain ⟨c', hc'⟩ : ∃ c', a'.slot ie.ud = some c' := by
    rcases hcases with ⟨-, c', evs, -, rfl⟩ | ⟨-, c', np, evs, -, rfl⟩
    · exact ⟨c', Abs.put_slot_self ..⟩
    · exact ⟨c', Abs.put_slot_self ..⟩
  -- an error or an empty queue closes the slot, which adds to the log behind the write
  have hend (e : SocketEvent) : Does B (do
      let es ← raise e
      closeSocket B ie.ud
      pure es) a' fun _ a'' => WritesFirst ie.ud a.log a''.log := by
    refine (does_raiseClose_eq hc').mono ?_
    rintro _ _ ⟨-, rfl⟩
    refine hfirst.mono ?_
    rw [Abs.close_log]
    exact (List.suffix_cons _ _).trans ((List.suffix_cons _ _).trans (List.suffix_append _ _))
  refine .ite (fun _ => doesWith_any (hend _)) fun _ => ?_
  refine doesWith_bind (does_slotAt hc') (.slotAt _) ?_
  rintro s' a' ⟨rfl, -⟩
  refine .ite (fun _ => doesWith_any (hend _)) fun _ => .ite (fun _ => ?_) fun _ => .pure hfirst
  refine (doesWith_any (does_raise_eq _)).mono ?_
  rintro _ ⟨_, _⟩ ⟨-, rfl⟩
  exact hfirst.mono (List.suffix_cons _ _)

/-- The loop of `socket_poll` from one event of the poller on. -/
theorem pollLoop_split {pre ies : List NpEvent} {es es' : List SocketEvent} {w₁ w₂ : World σ}
    (hall : pollLoop B (pre ++ ies) w₁ = (.ok es, w')) (hpre : pollLoop B pre w₁ = (.ok es', w₂)) :
    ∃ es'', pollLoop B ies w₂ = (.ok es'', w') := by
  induction pre generalizing w₁ es es' with
  | nil =>
    obtain ⟨-, rfl⟩ := Prod.mk.inj hpre
    exact ⟨es, hall⟩
  | cons ie pre ih =>
    obtain ⟨u, w₃, hie, hrest⟩ := Prog.bind_ok hall
    obtain ⟨u', w₃', hie', hrest'⟩ := Prog.bind_ok hpre
    obtain ⟨-, rfl⟩ := Prod.mk.inj (hie.symm.trans hie')
    obtain ⟨v, w₄, hloop, hpure⟩ := Prog.bind_ok hrest
    obtain ⟨-, rfl⟩ := Prod.mk.inj hpure
    obtain ⟨v', w₄', hloop', hpure'⟩ := Prog.bind_ok hrest'
    obtain ⟨-, rfl⟩ := Prod.mk.inj hpure'
    exact ih hloop hloop'


/-! ## A poll that is granted a write -/

/-- A `socket_poll` that returns has gone through the events of the poller. -/
theorem pollLoop_of_socketPoll {timeout : ℤ} {ies : List NpEvent} {es : List SocketEvent} {w₁ : World σ}
    (hpoll : poller (B.npPoll w.net.max timeout) w = (.ok ies, w₁))
    (hrun : socketPoll B timeout w = (.ok es, w')) : pollLoop B ies w₁ = (.ok es, w') := by
  obtain ⟨n, w₀, hread, hrun⟩ := Prog.bind_ok hrun
  cases hread
  obtain ⟨_, _, hpoll', hrun⟩ := Prog.bind_ok hrun
  cases hpoll.symm.trans hpoll'
  obtain ⟨_, _, hcheck, hrun⟩ := Prog.bind_ok hrun
  unfold Prog.check at hcheck
  split at hcheck
  · cases hcheck
    exact hrun
  · cases hcheck

/-- The call is a `socket_poll` for which the poller reports that slot `i` can be written to, and the
write that the slot is then served with takes some bytes. -/
inductive Grants (B : Backend σ) (i : ℕ) (w : World σ) (l : Call) (w' : World σ) : Prop
  | intro {timeout : ℤ} {rs : List Reply} {pre post : List NpEvent} {ie : NpEvent}
      {es : List SocketEvent} {w₁ w₂ : World σ} (hop : l.op = .poll timeout)
      (hpoll : poller (B.npPoll w.net.max timeout) (w.answer rs) = (.ok (pre ++ ie :: post), w₁))
      (hie : ie.ud = i) (hwrite : ie.write = true) (hpre : pollLoop B pre w₁ = (.ok es, w₂))
      (hroom : Granted w₂.os.replies) (hrun : l.op.call B (w.answer rs) = (.ok l.ret, w'))

/-- A connection that is held has not ended. -/
theorem Held.not_over {p : Protocol} {a : Abs σ} (h : Held p i Q base a) : ¬ Over i Q base a.log := by
  obtain ⟨-, -, -, hlog, hmute, -⟩ := h
  -- the events since the half-close report no end
  have hno {fd : ℤ} {mask : Mask} (mid : List Ev) : ¬ .closed i fd mask :: mid ++ base <:+ a.log := by
    rw [hlog]
    rintro ⟨evs, heq⟩
    rw [← List.append_assoc] at heq
    rw [← List.append_cancel_right heq] at hmute
    exact hmute _ (List.mem_append_right _ List.mem_cons_self) rfl
  rintro (⟨hsuf, -, -⟩ | ⟨hsuf, -, -, -⟩)
  · exact hno _ hsuf
  · exact hno (_ :: _) hsuf

/-- A write of the slot is seen in what was written, if no connection was opened in the slot since. -/
theorem WritesFirst.wire_ne {evs : List Ev} {log log' : List Ev} (h : WritesFirst i log log')
    (hlog : log' = evs ++ base) (hbase : base <:+ log) (hopens : ∀ e ∈ evs, ¬ e.Opens i) :
    wire i evs ≠ [] := by
  obtain ⟨bytes, cfd, hne, new, hnew⟩ := h
  obtain ⟨old, rfl⟩ := hbase
  obtain rfl : new ++ .sent i bytes cfd :: old = evs :=
    List.append_cancel_right (by rw [← hlog, ← hnew]; simp)
  rw [List.forall_mem_append] at hopens
  rw [wire_append hopens.1]
  show (wire i old ++ if i = i then tag cfd bytes else []) ++ wire i new ≠ []
  rcases bytes with _ | ⟨byte, bytes⟩
  · exact absurd rfl hne
  · simp [tag]

/-- A poll that grants a write, up to the event for the slot, with this event, and after it. -/
theorem Grants.parts (hg : Grants B i w l w') (hrep : Rep B w w.abs) : ∃ w₂ w₃ ie es,
    Rep B w₂ w₂.abs ∧ Changes B l.op 1 w.abs w₂.abs ∧
      (ie.ud = i ∧ ie.write = true ∧ Granted w₂.os.replies ∧ pollEvent B ie w₂ = (.ok es, w₃)) ∧
      w₂.log <:+ w₃.log ∧ w₃.log <:+ w'.log := by
  obtain @⟨timeout, rs, pre, post, ie, _, w₁, w₂, hop, hpoll, hie, hwrite, hpre, hroom, hrun⟩ := hg
  rw [hop] at hrun ⊢
  have hpoll₀ : Op.poll timeout = .poll timeout := rfl
  obtain ⟨_, hpolled, -⟩ := Prog.map_ok hrun
  obtain ⟨_, hloop⟩ := pollLoop_split (pollLoop_of_socketPoll hpoll hpolled) hpre
  obtain ⟨es, w₃, hevent, hrest⟩ := Prog.bind_ok hloop
  obtain ⟨_, _, hrest, hpure⟩ := Prog.bind_ok hrest
  cases hpure
  -- the report of the poller, and the events before the one for the slot
  rw [hrep.max_eq] at hpoll
  obtain ⟨_, hrep₁, hies, o, o', np, hnp, rfl⟩ := (does_npPoll timeout).ok (hrep.answer rs) hpoll
  obtain ⟨_, ⟨hinv₂, rfl⟩, hr₂⟩ := (does_pollLoop (a := { w.abs with np }) pre
    (fun e he => hies e (List.mem_append_left _ he)) hpoll₀).ok hrep₁ hpre
  have hch₂ : Changes B (.poll timeout) 1 w.abs w₂.abs :=
    (Changes.single (.polled rfl hnp)).trans (hr₂.changes 1 fun _ => by decide)
  have hlt (e : NpEvent) (he : e ∈ ie :: post) : e.ud < w₂.abs.max := by
    rw [hch₂.max_eq]
    exact hies e (List.mem_append_right _ he)
  -- the event for the slot, and those after it
  obtain ⟨_, ⟨hinv₃, rfl⟩, hr₃⟩ :=
    (does_pollEvent ie (hlt ie List.mem_cons_self) hpoll₀).ok ⟨hinv₂, rfl⟩ hevent
  have hch₃ : Changes B (.poll timeout) 1 w₂.abs w₃.abs := hr₃.changes 1 fun _ => by decide
  have hlt' (e : NpEvent) (he : e ∈ post) : e.ud < w₃.abs.max := by
    rw [hch₃.max_eq]
    exact hlt e (List.mem_cons_of_mem _ he)
  obtain ⟨_, ⟨-, rfl⟩, hr'⟩ := (does_pollLoop post hlt' hpoll₀).ok ⟨hinv₃, rfl⟩ hrest
  exact ⟨w₂, w₃, ie, es, ⟨hinv₂, rfl⟩, hch₂, ⟨hie, hwrite, hroom, hevent⟩, hch₃.log_suffix,
    (hr'.changes 1 fun _ => by decide).log_suffix⟩

/-- As long as a connection is half-closed, its bytes are written by a poll that is granted them. -/
theorem Held.takes (h : Held .tcp i Q base w.abs) (h' : Held .tcp i Q base w'.abs)
    (hreach : (net B).Reach w) (hg : Grants B i w l w') : Takes i w w' := by
  obtain ⟨hrep, habs⟩ := reach_abs hreach
  obtain ⟨w₂, w₃, ie, es, hrep₂, hch, ⟨rfl, hwrite, hroom, hevent⟩, hlog, hlog'⟩ := hg.parts hrep
  have habs₂ := hch.reach habs
  -- the connection is still half-closed when its turn comes
  have hheld : Held .tcp ie.ud Q base w₂.abs := (h.changes habs hch nofun).resolve_right fun hover =>
    h'.not_over (hover.mono (hlog.trans hlog'))
  obtain ⟨hc, hs, hp, -, -, -⟩ := hheld
  obtain ⟨⟨_, _⟩, ⟨⟨-, rfl⟩, -⟩, hfirst⟩ :=
    (doesWith_pollEvent hc hs hp ((reach_settled habs₂ _ _ hc).half hs)
      ((reach_streaming habs₂).queued _ _ hc) hwrite hroom).ok ⟨hrep₂, rfl⟩ hevent
  obtain ⟨evs, hevs⟩ := hch.log_suffix.trans (hlog.trans hlog')
  refine ⟨evs, hevs.symm, (hfirst.mono hlog').wire_ne hevs.symm hch.log_suffix fun e he => ?_⟩
  exact ((h.since h' hevs.symm).1 e he).not_opens

/-! ## Endless runs -/

/-- The slot is occupied and registered for writing. -/
def World.Writable (w : World σ) (i : ℕ) : Prop := w.Live i ∧ (w.net.sockets i).mask.wable = true

/-- The system does not forget the slot: if it is registered for writing for ever, then sooner or later
the poller reports that it can be written to, and the write takes bytes. -/
def Served (r : (net B).Endless) (i : ℕ) : Prop :=
  ∀ n, (∀ m ≥ n, (r.state m).Writable i) → ∃ m ≥ n, Grants B i (r.state m) (r.label m) (r.state (m + 1))

/-- In every endless run, with any calls: a TCP connection that `socket_close` leaves half-closed is
closed at last, if the poller accepts every change of interest, no connect completes with data queued,
and the system goes on to write what is registered for writing. -/
theorem halfclosed_ends (r : (net B).Endless) {i n : ℕ} (hclose : r.label n = ⟨.close i false, 1⟩)
    (htcp : ((r.state (n + 1)).net.sockets i).protocol = .tcp)
    (hcalm : ∀ m, ∀ e ∈ (r.state m).log, e.Accepted ∧ e.Unhurried) (hserved : Served r i) :
    ∃ m > n, Over i ((r.state (n + 1)).queue i) (r.state (n + 1)).log (r.state m).log := by
  have hfrozen := frozen_close (r.reach n) (hclose ▸ r.step n)
  rw [htcp] at hfrozen
  rcases hfrozen with hheld | hover
  swap
  · exact ⟨n + 1, n.lt_succ_self, hover⟩
  have hends := r.leads (fun w => w.unsent i) (Takes i)
    (P := fun w => Held .tcp i ((r.state (n + 1)).queue i) (r.state (n + 1)).log w.abs)
    (Q := fun w => Over i ((r.state (n + 1)).queue i) (r.state (n + 1)).log w.log)
    (fun w l w' hw hs h => h.step hw hs) (fun k hk => ?_) hheld
  · obtain ⟨m, hm, hover⟩ := hends
    exact ⟨m, (n.lt_succ_self).trans hm, hover⟩
  · obtain ⟨m, hm, hgrants⟩ := hserved k fun m hm =>
      ⟨(hk m hm).exists_queue.1, (hk m hm).wable (r.reach m) (hcalm m)⟩
    exact ⟨m, hm, (hk m hm).takes (hk (m + 1) (hm.trans m.le_succ)) (r.reach m) hgrants⟩

/-- The calls of a run, with the answers and the results: a connection is half-closed with three bytes
queued, a poll writes them, and the others fail. -/
def drainCall (n : ℕ) : Op × List Reply × ℤ :=
  [(.bind 5 0 0, [{}, {}], 0),
    (.send 0 ⟨1, [1, 2, 3]⟩ 3, [{ ret := -1, errno := EAGAIN }, { addr := 0 }, {}], -1),
    (.close 0 false, [], 1),
    (.poll 0, [{ ret := 1, ready := [⟨5, false, true, false⟩] }, { ret := 3 }, { ret := 0 }], 1)].getD n
    (.poll 0, [{ ret := -1, errno := EINTR }], 0)

def drainState : ℕ → World Epoll
  | 0 => fresh epoll 1
  | n + 1 => (drainState n).next epoll (drainCall n).1 (drainCall n).2.1

/-- A poll that fails changes nothing. -/
theorem next_failed (w : World Epoll) :
    Op.call epoll (.poll 0) (w.answer [{ ret := -1, errno := EINTR }]) =
      (.ok 0, { w with os := ⟨[], EINTR⟩ }) := by
  rfl

/-- After the fourth call nothing happens any more. -/
theorem drainState_idle (n : ℕ) :
    (drainState (n + 4)).log = (drainState 4).log ∧ (drainState (n + 4)).net = (drainState 4).net := by
  induction n with
  | zero => exact ⟨rfl, rfl⟩
  | succ n ih =>
    have hnext : drainState (n + 1 + 4) = { drainState (n + 4) with os := ⟨[], EINTR⟩ } :=
      congrArg Prod.snd (next_failed (drainState (n + 4)))
    rw [hnext]
    exact ih

/-- The run. -/
def drainRun : (net epoll).Endless where
  state := drainState
  label n := ⟨(drainCall n).1, (drainCall n).2.2⟩
  init := ⟨1, zeroed, rfl⟩
  step n := by
    match n with
    | 0 | 1 | 2 | 3 =>
      exact step_next _ (by decide +kernel) (by decide +kernel) (by decide +kernel)
    | n + 4 =>
      refine step_next _ ?_ trivial (congrArg Prod.fst (next_failed (drainState (n + 4))))
      rw [(drainState_idle n).1]
      decide +kernel

/-- The connection is closed in this run: the third byte is written by the first poll. -/
theorem halfclosed_ends_drained :
    ∃ m > 2, Over 0 ((drainState 3).queue 0) (drainState 3).log (drainState m).log := by
  have hcalm (m : ℕ) : ∀ e ∈ (drainState m).log, e.Accepted ∧ e.Unhurried := by
    match m with
    | 0 | 1 | 2 | 3 => decide +kernel
    | m + 4 =>
      rw [(drainState_idle m).1]
      decide +kernel
  -- the slot is free after the fourth call
  have hserved : Served drainRun 0 := fun n hn => by
    have hlive : (drainState (n + 4)).Live 0 := (hn (n + 4) (n.le_add_right 4)).1
    rw [World.Live, (drainState_idle n).2] at hlive
    exact absurd hlive (by decide +kernel)
  exact halfclosed_ends drainRun (n := 2) rfl (by decide +kernel) hcalm hserved

end Lsocket
