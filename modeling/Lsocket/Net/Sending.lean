import Lsocket.Net.Answers
import Lsocket.Net.Change

/-!
# Sending

`_subscribe`, the functions that write, and the loops that drain a queue.
-/

namespace Lsocket

open CInt

variable {σ : Type} {B : Backend σ} {a a' : Abs σ} {i : ℕ} {c : Conn} {op : Op}
variable {rs : List Reply}

/-! ## Putting -/

namespace Abs

/-- A connection put where it is changes nothing. -/
theorem put_self (hc : a.slot i = some c) : a.put i c a.np [] = a := by
  have : Function.update a.slot i (some c) = a.slot := by
    rw [← hc, Function.update_eq_self]
  rw [put, this, List.nil_append]

@[simp] theorem put_slot_self (np : σ) (evs : List Ev) : (a.put i c np evs).slot i = some c :=
  Function.update_self ..

@[simp] theorem put_put (c' : Conn) (np np' : σ) (evs evs' : List Ev) :
    (a.put i c np evs).put i c' np' evs' = a.put i c' np' (evs' ++ evs) := by
  simp [put]

@[simp] theorem put_set (c' : Conn) (np : σ) (evs : List Ev) :
    (a.put i c np evs).set i c' = a.put i c' np evs := by
  simp [put, set]

/-- Recording an event of a slot that stays as it is. -/
theorem put_emit_self (hc : a.slot i = some c) (np : σ) (e : Ev) :
    a.put i c np [e] = ({ a with np } : Abs σ).emit e := by
  have : Function.update a.slot i (some c) = a.slot := by
    rw [← hc, Function.update_eq_self]
  rw [put, this]
  rfl

theorem set_eq_put (c : Conn) : a.set i c = a.put i c a.np [] := rfl

@[simp] theorem put_emit (np : σ) (evs : List Ev) (e : Ev) :
    (a.put i c np evs).emit e = a.put i c np (e :: evs) := rfl

@[simp] theorem put_np (np : σ) (evs : List Ev) : (a.put i c np evs).np = np := rfl

@[simp] theorem put_freeData (np : σ) (evs : List Ev) (b : Chunk) :
    (a.put i c np evs).freeData [b] = a.put i c np (b.freed ++ evs) := by
  unfold freeData Chunk.freed freedLog put
  rcases b.begin with _ | token <;> rfl

@[simp] theorem close_slot : (a.close i B c).slot = Function.update a.slot i none := by
  unfold close
  split <;> rfl

/-- The queue is all of a connection that closing it reads, apart from its descriptor and mask. -/
theorem close_put (np : σ) (evs : List Ev) (c' : Conn) (hfd : c'.fd = c.fd) (hm : c'.mask = c.mask)
    (hq : c'.queue = c.queue) :
    (a.put i c' np evs).close i B c' = (a.put i c np evs).close i B c := by
  simp only [close, hfd, hm, hq, emit, closeFd, freeData, remove, put]
  split <;> simp

end Abs

/-! ## Chains -/

/-- A change in front of a chain. -/
theorem does_after {α : Type} {p : NetM σ α} {f : α → ℤ} (h : ∀ v, Changes B op v a a')
    (hp : Does B p a' fun r a'' => Changes B op (f r) a' a'') :
    Does B p a' fun r a'' => Changes B op (f r) a a'' :=
  hp.mono fun r _ hr => (h (f r)).trans hr

/-- One change is a chain. -/
theorem Changes.single {v : ℤ} (h : Change B op v a a') : Changes B op v a a' :=
  Relation.ReflTransGen.single h

/-! ## Masks -/

/-- The call of the poller that `_subscribe` makes. -/
theorem does_calls (mask : Mask) (hc : a.slot i = some c) :
    Does B (poller (if mask = .none then B.npDel c.fd
        else if c.mask = .none then B.npAdd c.fd mask i else B.npMod c.fd mask i))
      a fun r a' => ∃ np, B.Calls i c.fd c.mask mask a.np r np ∧ a' = { a with np } := by
  intro w hw
  have hi : i < a.max := hw.max_eq ▸ hw.lt_max hc
  have hadd : ∀ s : σ × Os, (∀ u, B.known s.1 u → u < a.max) → ∀ t : σ × Os,
      (∀ u, B.known t.1 u → B.known s.1 u ∨ u = i) → ∀ u, B.known t.1 u → u < a.max := by
    intro s hs t ht u hu
    rcases ht u hu with h | rfl
    · exact hs u h
    · exact hi
  have hcalls := does_poller (B := B) (a := a) (p := if mask = .none then B.npDel c.fd
    else if c.mask = .none then B.npAdd c.fd mask i else B.npMod c.fd mask i) (fun s hs => by
      split
      · exact Prog.wp_mono (B.known_del c.fd s) fun _ t ht u hu => hs u (ht u hu)
      · split
        · exact Prog.wp_mono (B.known_add c.fd mask i s) fun _ t ht => hadd s hs t ht
        · exact Prog.wp_mono (B.known_mod c.fd mask i s) fun _ t ht => hadd s hs t ht)
  refine hcalls.mono ?_ w hw
  rintro r _ ⟨o, o', np, hp, rfl⟩
  exact ⟨np, ⟨o, o', hp⟩, rfl⟩

/-- `_subscribe`. -/
theorem does_subscribe (mask : Mask) (hc : a.slot i = some c) :
    Does B (subscribe B i mask) a fun r a' => ∃ m np evs,
      Subscribe B i c.fd c.mask mask a.np r m np evs ∧ a' = a.put i { c with mask := m } np evs := by
  unfold subscribe
  refine .bind (does_slotAt hc) ?_
  rintro s a ⟨rfl, hs⟩
  have hfd : s.fd = c.fd := congrArg Conn.fd hs.conn_eq
  have hm : s.mask = c.mask := congrArg Conn.mask hs.conn_eq
  rw [hfd, hm]
  refine .ite (fun h => ?_) fun h => ?_
  · exact .pure ⟨_, _, _, .same h, (Abs.put_self hc).symm⟩
  · refine .bind (does_calls mask hc) ?_
    rintro r _ ⟨np, hcalls, rfl⟩
    refine .bind (does_emit _) ?_
    rintro _ _ rfl
    by_cases hr : r = 0
    · subst hr
      rw [if_pos rfl]
      refine .bind (does_setSlot (fun c => { c with mask }) (c := c) hc (fun _ _ => rfl)
        (fun _ => ⟨rfl, rfl⟩) id rfl) ?_
      rintro _ _ rfl
      exact .pure ⟨_, _, _, .done h hcalls, rfl⟩
    · rw [if_neg hr]
      exact .pure ⟨_, _, _, .failed h hr hcalls, (Abs.put_emit_self hc np _).symm⟩

/-! ## Writing -/

/-- What a write of `sz` bytes can return. -/
def Reply.Written (r : Reply) (sz : ℤ) : Prop := r.Failed ∨ (0 ≤ r.ret ∧ r.ret ≤ sz)

/-- A write from the chunk `b`, with the answer that it gets. -/
theorem doesWith_write {b : Chunk} {cfd : ℤ} (sz : ℤ) (hc : a.slot i = some c)
    (hcfd : b.cfd c.protocol = cfd) :
    DoesWith B (do
        let r ← call fun r => r.Failed ∨ (0 ≤ r.ret ∧ r.ret ≤ sz)
        if 0 < r.ret then emit (.sent i ((b.ptr.getD [0]).take r.ret.toNat) cfd)
        pure r)
      (a, rs) fun r x => r.Written sz ∧ x.1 = a.put i c a.np (wrote i c.protocol b r.ret) ∧
        rs = r :: x.2 := by
  refine .bind (doesWith_call _) ?_
  rintro r ⟨_, rs'⟩ ⟨hr, rfl, rfl⟩
  refine .ite (fun h => ?_) fun h => ?_
  · refine .bind (doesWith_same (does_emit _) (.emit _)) ?_
    rintro _ ⟨_, rs''⟩ ⟨rfl, rfl⟩
    refine .pure ⟨hr, ?_, rfl⟩
    rw [wrote, if_pos h, hcfd, Abs.put_emit_self hc]
  · refine .pure ⟨hr, ?_, rfl⟩
    rw [wrote, if_neg h, Abs.put_self hc]

/-- `write` from a chunk of a connection that is not of protocol IPC. -/
theorem does_socketWrite (b : Chunk) (sz : ℤ) (hc : a.slot i = some c) (hp : c.protocol ≠ .ipc) :
    Does B (socketWrite i (b.ptr.getD [0]) sz) a fun r a' =>
      r.Written sz ∧ a' = a.put i c a.np (wrote i c.protocol b r.ret) :=
  does_of_with fun _ => (doesWith_write sz hc (if_neg hp)).mono fun _ _ h => ⟨h.1, h.2.1⟩

/-- `sendmsg` from a chunk of a connection of protocol IPC. -/
theorem does_sendfd (b : Chunk) (sz : ℤ) (hc : a.slot i = some c) (hp : c.protocol = .ipc) :
    Does B (sendfd i b.ptr sz b.fd) a fun r a' =>
      r.Written sz ∧ a' = a.put i c a.np (wrote i c.protocol b r.ret) :=
  does_of_with fun _ => (doesWith_write sz hc (if_pos hp)).mono fun _ _ h => ⟨h.1, h.2.1⟩

/-- A write that does not fail writes some part of what it is given. -/
theorem Reply.Written.nonneg {r : Reply} {sz : ℤ} (hr : r.Written sz) (h : ¬ r.ret < 0) :
    0 ≤ r.ret ∧ r.ret ≤ sz := by
  rcases hr with hr | hr
  · have := hr.1
    omega
  · exact hr

/-- A write that fails, or writes nothing, leaves no event. -/
theorem wrote_of_nonpos (p : Protocol) (b : Chunk) {n : ℤ} (hn : n ≤ 0) : wrote i p b n = [] :=
  if_neg (by omega)

/-- A write that fails changes nothing. -/
theorem put_wrote_of_neg (hc : a.slot i = some c) (b : Chunk) {n : ℤ} (hn : n < 0) :
    a.put i c a.np (wrote i c.protocol b n) = a := by
  rw [wrote_of_nonpos _ _ hn.le, Abs.put_self hc]

/-- The bookkeeping after a write of a part of the first chunk. -/
theorem does_part {f : SBuffer → SBuffer} {n : ℤ} {b : Chunk} {q : List Chunk} {evs : List Ev}
    {np : σ} (hq : c.queue = b :: q) (hf : ∀ m, (f m).toChunk = m.toChunk.advance c.protocol n)
    (hnext : ∀ m, (f m).next = m.next) :
    Does B (do
        setHead i f
        setSlot i fun s => { s with sbuffersz := wrap (s.sbuffersz - n) }
        pure 0)
      (a.put i c np evs) fun e a' => e = (0 : ℤ) ∧ a' = a.put i { c with
        queue := b.advance c.protocol n :: q, sbuffersz := wrap (c.sbuffersz - n) } np evs := by
  refine .bind (does_setHead (Chunk.advance c.protocol n) (Abs.put_slot_self ..) hq hf hnext) ?_
  rintro _ _ rfl
  refine .bind (does_setSlot (fun c => { c with sbuffersz := wrap (c.sbuffersz - n) })
    (Abs.set_slot_self ..) (fun _ _ => rfl) (fun _ => ⟨rfl, rfl⟩) id rfl) ?_
  rintro _ _ rfl
  exact .pure ⟨rfl, by simp⟩

/-- The bookkeeping after a write of the whole first chunk, before the function `p` goes on. -/
theorem does_next {α : Type} {p : NetM σ α} {n : ℤ} {b : Chunk} {q : List Chunk} {evs : List Ev}
    {np : σ} {Q : α → Abs σ → Prop} (hq : c.queue = b :: q)
    (hp : Does B p (a.put i { c with queue := q, sbuffersz := wrap (c.sbuffersz - n) } np
      (b.freed ++ evs)) Q) :
    Does B (do
        setSlot i fun s => { s with sbuffersz := wrap (s.sbuffersz - n) }
        popHead i
        p)
      (a.put i c np evs) Q := by
  refine .bind (does_setSlot (fun c => { c with sbuffersz := wrap (c.sbuffersz - n) })
    (Abs.put_slot_self ..) (fun _ _ => rfl) (fun _ => ⟨rfl, rfl⟩) id rfl) ?_
  rintro _ _ rfl
  refine .bind (does_popHead (Abs.set_slot_self ..) (b := b) (q := q) hq) ?_
  rintro _ _ rfl
  rw [Abs.put_set, Abs.put_freeData, Abs.put_set]
  exact hp

/-- `_send_buffer_tcp`. -/
theorem does_sendBufferTcp (fuel : ℕ) (hc : a.slot i = some c) (hp : c.protocol = .tcp) :
    Does B (sendBufferTcp i fuel) a fun _ a' =>
      ∃ c' evs, Drain i c c' evs ∧ a' = a.put i c' a.np evs := by
  induction fuel generalizing a c with
  | zero => exact .fault Fault.outside_stuck
  | succ fuel ih =>
    have hstop : a = a.put i c a.np [] := (Abs.put_self hc).symm
    refine .bind (does_headNode hc) ?_
    rintro r a ⟨rfl, hr⟩
    rcases r with _ | b
    · exact .pure ⟨_, _, .stop c, hstop⟩
    obtain ⟨q, hq⟩ : ∃ q, c.queue = b.toChunk :: q := by
      rcases hcq : c.queue with _ | ⟨b', q⟩ <;> rw [hcq] at hr
      · cases hr
      · exact ⟨q, by rw [Option.some.inj hr]⟩
    refine .bind (does_socketWrite b.toChunk b.sz hc (by rw [hp]; decide)) ?_
    rintro r _ ⟨hret, rfl⟩
    refine .ite (fun hneg => ?_) fun hneg => ?_
    · rw [put_wrote_of_neg hc b.toChunk hneg]
      refine .ite (fun _ => .pure ⟨_, _, .stop c, hstop⟩) fun _ => .ite (fun _ => ih hc hp) fun _ => ?_
      exact .pure ⟨_, _, .stop c, hstop⟩
    have hret := hret.nonneg hneg
    refine .ite (fun hlt => ?_) fun hge => ?_
    · refine (does_part hq ?_ ?_).mono ?_
      · simp [Chunk.advance, hp]
      · exact fun _ => rfl
      · rintro _ _ ⟨-, rfl⟩
        exact ⟨_, _, .part hq hret.1 hlt (by simp [hp]), rfl⟩
    · obtain hsz : r.ret = b.sz := by omega
      rw [hsz]
      refine does_next hq ((ih (c := { c with queue := q, sbuffersz := wrap (c.sbuffersz - b.sz) })
        (Abs.put_slot_self ..) hp).mono ?_)
      rintro _ _ ⟨c', evs, hd, rfl⟩
      exact ⟨c', _, .next hq hd, by simp⟩

/-- `_send_buffer_ipc`. -/
theorem does_sendBufferIpc (fuel : ℕ) (hc : a.slot i = some c) (hp : c.protocol = .ipc) :
    Does B (sendBufferIpc i fuel) a fun _ a' =>
      ∃ c' evs, Drain i c c' evs ∧ a' = a.put i c' a.np evs := by
  induction fuel generalizing a c with
  | zero => exact .fault Fault.outside_stuck
  | succ fuel ih =>
    have hstop : a = a.put i c a.np [] := (Abs.put_self hc).symm
    refine .bind (does_headNode hc) ?_
    rintro r a ⟨rfl, hr⟩
    rcases r with _ | b
    · exact .pure ⟨_, _, .stop c, hstop⟩
    obtain ⟨q, hq⟩ : ∃ q, c.queue = b.toChunk :: q := by
      rcases hcq : c.queue with _ | ⟨b', q⟩ <;> rw [hcq] at hr
      · cases hr
      · exact ⟨q, by rw [Option.some.inj hr]⟩
    refine .bind (does_sendfd b.toChunk b.sz hc hp) ?_
    rintro r _ ⟨hret, rfl⟩
    refine .ite (fun hneg => ?_) fun hneg => ?_
    · rw [put_wrote_of_neg hc b.toChunk hneg]
      refine .ite (fun _ => .pure ⟨_, _, .stop c, hstop⟩) fun _ => .ite (fun _ => ih hc hp) fun _ => ?_
      exact .pure ⟨_, _, .stop c, hstop⟩
    have hret := hret.nonneg hneg
    refine .ite (fun hzero => ?_) fun hzero => ?_
    -- `sendmsg` took nothing: the source stops here, where the TCP loop has no such case
    · rw [hzero, wrote_of_nonpos _ _ le_rfl, ← hstop]
      exact .pure ⟨_, _, .stop c, hstop⟩
    refine .ite (fun hlt => ?_) fun hge => ?_
    · refine (does_part hq ?_ ?_).mono ?_
      · simp [Chunk.advance, hp]
      · exact fun _ => rfl
      · rintro _ _ ⟨-, rfl⟩
        exact ⟨_, _, .part hq hret.1 hlt fun _ => by omega, rfl⟩
    · obtain hsz : r.ret = b.sz := by omega
      rw [hsz]
      refine does_next hq ((ih (c := { c with queue := q, sbuffersz := wrap (c.sbuffersz - b.sz) })
        (Abs.put_slot_self ..) hp).mono ?_)
      rintro _ _ ⟨c', evs, hd, rfl⟩
      exact ⟨c', _, .next hq hd, by simp⟩

/-- The drain of a queue, by the protocol of the slot. -/
theorem does_sendBufferBy {s : Socket} (fuel : ℕ) (hs : s.conn c.queue = c)
    (hc : a.slot i = some c) :
    Does B (sendBufferBy i fuel s.protocol) a fun _ a' =>
      ∃ c' evs, Drain i c c' evs ∧ a' = a.put i c' a.np evs := by
  have hp : s.protocol = c.protocol := congrArg Conn.protocol hs
  rcases h : s.protocol with _ | _ | _ <;> rw [h] at hp
  · exact does_sendBufferTcp fuel hc hp.symm
  · exact .pure ⟨_, _, .stop c, (Abs.put_self hc).symm⟩
  · exact does_sendBufferIpc fuel hc hp.symm

/-- Draining changes the queue and its size alone. -/
theorem Drain.eq {c c' : Conn} {evs : List Ev} (h : Drain i c c' evs) :
    c' = { c with queue := c'.queue, sbuffersz := c'.sbuffersz } := by
  induction h with
  | stop => rfl
  | part => rfl
  | next hq h ih => rw [ih]

/-- Draining does not change the mask. -/
theorem Drain.mask {c c' : Conn} {evs : List Ev} (h : Drain i c c' evs) : c'.mask = c.mask := by
  rw [h.eq]

theorem Drain.fd {c c' : Conn} {evs : List Ev} (h : Drain i c c' evs) : c'.fd = c.fd := by
  rw [h.eq]

/-- `_send_buffer`: an error, or none. -/
theorem does_sendBuffer (hc : a.slot i = some c) :
    Does B (sendBuffer B i) a fun e a' =>
      (e ≠ 0 ∧ ∃ c' evs, Drain i c c' evs ∧ a' = a.put i c' a.np evs) ∨
        (e = 0 ∧ ∃ c' np evs, Flush B i c a.np c' np evs ∧ a' = a.put i c' np evs) := by
  unfold sendBuffer
  refine .bind (does_slotAt hc) ?_
  rintro s a ⟨rfl, hs⟩
  refine .ite (fun h => ?_) fun h => ?_
  · exact .pure (.inr ⟨rfl, _, _, _, .idle (hs.head_iff.mp h), (Abs.put_self hc).symm⟩)
  have hne : c.queue ≠ [] := fun hq => h (hs.head_iff.mpr hq)
  refine .bind does_answersLeft ?_
  rintro fuel _ rfl
  refine .bind (does_sendBufferBy fuel hs.conn_eq hc) ?_
  rintro e _ ⟨c', evs, hd, rfl⟩
  refine .ite (fun he => ?_) fun he => .pure (.inl ⟨he, _, _, hd, rfl⟩)
  subst he
  -- without an error, write interest is dropped once the queue is empty
  refine .bind (does_slotAt (Abs.put_slot_self ..)) ?_
  rintro s' _ ⟨rfl, hs'⟩
  refine .ite (fun h => ?_) fun h => ?_
  · have hm : s'.mask = c.mask := (congrArg Conn.mask hs'.conn_eq).trans hd.mask
    rw [hm]
    refine .bind (does_subscribe _ (Abs.put_slot_self ..)) ?_
    rintro r _ ⟨m, np, evs', hsub, rfl⟩
    rw [hd.mask, hd.fd] at hsub
    refine .pure (.inr ⟨rfl, _, _, _, .done hne hd (hs'.head_iff.mp h) hsub, by simp⟩)
  · exact .pure (.inr ⟨rfl, _, _, _, .rest hd fun hq => h (hs'.head_iff.mpr hq), rfl⟩)

end Lsocket
