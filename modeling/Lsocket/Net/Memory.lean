import Lsocket.Net.Abs

/-!
# The primitives

What the functions that touch memory do to the net that a world represents. Everything that a
function changes in one slot and its queue is one case of `Rep.write`; creating and closing a slot
also move it out of and into the list of free slots.
-/

namespace Lsocket

open CInt

variable {σ : Type} {B : Backend σ} {w w' : World σ} {a : Abs σ} {i : ℕ} {c : Conn}

/-! ## Lists in memory -/

/-- The nodes of a slot, from any list that is linked from its head. -/
theorem nodes_eq {l : List (ℕ × SBuffer)}
    (h : Linked w.mem.cell SBuffer.next (w.net.sockets i).head l) : w.nodes i = l :=
  Linked.walk_eq h h.length_le_top

/-- The free slots, from any list that is linked from `free_socket`. -/
theorem freeSlots_eq {l : List (ℕ × Socket)} (h : Linked w.slots Socket.link w.net.freeSocket l) :
    w.freeSlots = l := by
  refine Linked.walk_eq h (h.length_le fun j hj => ?_)
  rw [World.slots, if_neg (not_lt.mpr hj)]

/-- A slot within the array can be read. -/
theorem slots_eq (hi : i < w.net.max) : w.slots i = some (w.net.sockets i) := if_pos hi

/-! ## Rep and the parts of the world -/

/-- The poller, the answers, the log and the error number are not in memory. -/
theorem Rep.frame (h : Rep B w a) (np : σ) (os : Os) (err : ℤ) (log : List Ev)
    (hk : ∀ u, B.known np u → u < w.net.max) :
    Rep B { w with net := { w.net with err }, np, os, log } { a with np, err, log } := by
  obtain ⟨h, rfl⟩ := h
  exact ⟨⟨h.free, h.free_iff, h.free_fd, h.free_head, h.live_fd, h.queue, h.apart, hk⟩, rfl⟩

theorem Rep.max_eq (h : Rep B w a) : w.net.max = a.max := by
  obtain ⟨-, rfl⟩ := h
  rfl

/-- An occupied slot, in the world. -/
theorem Rep.live (h : Rep B w a) (hc : a.slot i = some c) :
    w.Live i ∧ (w.net.sockets i).conn (w.queue i) = c := by
  obtain ⟨-, rfl⟩ := h
  have hc : (if w.Live i then some ((w.net.sockets i).conn (w.queue i)) else none) = some c := hc
  split at hc
  · exact ⟨‹_›, Option.some.inj hc⟩
  · cases hc

/-- A slot that is not occupied. -/
theorem Rep.not_live (h : Rep B w a) (hc : a.slot i = none) (hi : i < a.max) :
    i < w.net.max ∧ (w.net.sockets i).status = .invalid := by
  obtain ⟨-, rfl⟩ := h
  have hc : (if w.Live i then some ((w.net.sockets i).conn (w.queue i)) else none) = none := hc
  split at hc
  · cases hc
  · next hn => exact ⟨hi, by_contra fun hs => hn ⟨hi, hs⟩⟩

/-- An occupied slot is within the array. -/
theorem Rep.lt_max (h : Rep B w a) (hc : a.slot i = some c) : i < w.net.max := (h.live hc).1.1

/-- The head pointer of an occupied slot is null exactly if its queue is empty. -/
theorem Rep.head_eq_none_iff (h : Rep B w a) (hc : a.slot i = some c) :
    (w.net.sockets i).head = none ↔ c.queue = [] := by
  obtain ⟨⟨hi, -⟩, rfl⟩ := h.live hc
  have hq := (h.1.queue i hi).linked
  rw [← hq.eq_nil_iff]
  show _ ↔ w.queue i = []
  rw [World.queue_eq, List.map_eq_nil_iff]

/-- A world represents the net that its lists show, whatever list they are found to be. -/
theorem Rep.of_lists (F : List (ℕ × Socket)) (N : ℕ → List (ℕ × SBuffer))
    (hF : Queue w.slots Socket.link w.net.freeSocket w.net.tailSocket F)
    (hN : ∀ i < w.net.max, Queue w.mem.cell SBuffer.next (w.net.sockets i).head
      (w.net.sockets i).tail (N i))
    (hiff : ∀ i, i ∈ F.map Prod.fst ↔ i < w.net.max ∧ (w.net.sockets i).status = .invalid)
    (hfd : ∀ i < w.net.max, -1 ≤ (w.net.sockets i).fd)
    (hlive : ∀ i, w.Live i → 0 ≤ (w.net.sockets i).fd)
    (hnil : ∀ i < w.net.max, (w.net.sockets i).status = .invalid → N i = [])
    (hapart : ∀ i < w.net.max, ∀ j < w.net.max, i ≠ j → ∀ x ∈ N i, ∀ y ∈ N j, x.1 ≠ y.1)
    (hknown : ∀ u, B.known w.np u → u < w.net.max)
    (hslot : ∀ i, (if w.Live i then some ((w.net.sockets i).conn ((N i).map fun x => x.2.toChunk))
      else none) = a.slot i)
    (hrest : (w.net.max, F.map Prod.fst, w.np, w.net.err, w.log)
      = (a.max, a.free, a.np, a.err, a.log)) : Rep B w a := by
  have hfree : w.freeSlots = F := freeSlots_eq hF.linked
  have hnodes : ∀ i < w.net.max, w.nodes i = N i := fun i hi => nodes_eq (hN i hi).linked
  refine ⟨⟨?_, ?_, hfd, ?_, hlive, ?_, ?_, hknown⟩, ?_⟩
  · rw [hfree]
    exact hF
  · rw [hfree]
    exact hiff
  · intro i hi hs
    exact (hN i hi).linked.eq_nil_iff.mp (hnil i hi hs)
  · intro i hi
    rw [hnodes i hi]
    exact hN i hi
  · intro i hi j hj hij
    rw [hnodes i hi, hnodes j hj]
    exact hapart i hi j hj hij
  · have hslot' : w.abs.slot = a.slot := by
      funext i
      rw [← hslot i]
      show (if w.Live i then some ((w.net.sockets i).conn (w.queue i)) else none) = _
      by_cases hi : w.Live i
      · rw [if_pos hi, if_pos hi, World.queue_eq, hnodes i hi.1]
      · rw [if_neg hi, if_neg hi]
    simp only [Prod.mk.injEq] at hrest
    obtain ⟨h1, h2, h3, h4, h5⟩ := hrest
    rw [← Abs.eta w.abs, ← Abs.eta a, hslot', ← h1, ← h2, ← h3, ← h4, ← h5]
    show Abs.mk w.net.max a.slot (w.freeSlots.map Prod.fst) _ _ _ = _
    rw [hfree]
    rfl

/-- The world with one slot and the heap of nodes rewritten. -/
def World.write (w : World σ) (i : ℕ) (s : Socket) (mem : Heap SBuffer) : World σ :=
  { w with
    mem
    net := { w.net with sockets := fun j => if j = i then s else w.net.sockets j } }

@[simp] theorem write_sockets_self (w : World σ) (i : ℕ) (s : Socket) (mem : Heap SBuffer) :
    (w.write i s mem).net.sockets i = s :=
  if_pos rfl

/-- The other slots keep their fields. -/
theorem write_sockets_ne (w : World σ) (s : Socket) (mem : Heap SBuffer) {j : ℕ} (hj : j ≠ i) :
    (w.write i s mem).net.sockets j = w.net.sockets j :=
  if_neg hj

theorem write_slots_ne (w : World σ) (s : Socket) (mem : Heap SBuffer) {j : ℕ} (hj : j ≠ i) :
    (w.write i s mem).slots j = w.slots j := by
  unfold World.slots
  rw [write_sockets_ne w s mem hj]
  rfl

/-- The other slots stay occupied or free. -/
theorem write_live_ne (w : World σ) (s : Socket) (mem : Heap SBuffer) {j : ℕ} (hj : j ≠ i) :
    (w.write i s mem).Live j ↔ w.Live j := by
  unfold World.Live
  rw [write_sockets_ne w s mem hj]
  rfl

/-- The net, read off slot by slot. -/
theorem Rep.slot_eq (h : Rep B w a) (j : ℕ) :
    a.slot j = if w.Live j then some ((w.net.sockets j).conn (w.queue j)) else none := by
  obtain ⟨-, rfl⟩ := h
  rfl

/-- An occupied slot is rewritten together with its queue, and stays occupied. -/
theorem Rep.write (h : Rep B w a) (hi : w.Live i) {s : Socket} {mem : Heap SBuffer}
    {l : List (ℕ × SBuffer)} (hs : s.status ≠ .invalid) (hfd : 0 ≤ s.fd)
    (hq : Queue mem.cell SBuffer.next s.head s.tail l)
    (hkeep : ∀ j < w.net.max, j ≠ i → ∀ x ∈ w.nodes j,
      mem.cell x.1 = w.mem.cell x.1 ∧ ∀ y ∈ l, y.1 ≠ x.1) :
    Rep B (w.write i s mem) (a.set i (s.conn (l.map fun x => x.2.toChunk))) := by
  have hslots := h.slot_eq
  have hinv := h.1
  have hne : ∀ x ∈ w.freeSlots, x.1 ≠ i := by
    rintro x hx rfl
    exact hi.2 ((hinv.free_iff x.1).mp (List.mem_map_of_mem hx)).2
  have hN : ∀ j < w.net.max, j ≠ i → (if j = i then l else w.nodes j) = w.nodes j :=
    fun j _ hji => if_neg hji
  refine Rep.of_lists w.freeSlots (fun j => if j = i then l else w.nodes j)
    (hinv.free.congr fun x hx => write_slots_ne w s mem (hne x hx)) ?_ ?_ ?_ ?_ ?_ ?_ hinv.known ?_ ?_
  · intro j hj
    by_cases hji : j = i
    · subst hji
      rw [write_sockets_self, if_pos rfl]
      exact hq
    · rw [write_sockets_ne w s mem hji, if_neg hji]
      exact (hinv.queue j hj).congr fun x hx => (hkeep j hj hji x hx).1
  · intro j
    rw [hinv.free_iff]
    by_cases hji : j = i
    · subst hji
      rw [write_sockets_self]
      exact iff_of_false (fun hj => hi.2 hj.2) fun hj => hs hj.2
    · rw [write_sockets_ne w s mem hji]
      rfl
  · intro j hj
    by_cases hji : j = i
    · subst hji
      rw [write_sockets_self]
      omega
    · rw [write_sockets_ne w s mem hji]
      exact hinv.free_fd j hj
  · intro j hj
    by_cases hji : j = i
    · subst hji
      rwa [write_sockets_self]
    · rw [write_sockets_ne w s mem hji]
      exact hinv.live_fd j ((write_live_ne w s mem hji).mp hj)
  · intro j hj hst
    by_cases hji : j = i
    · subst hji
      rw [write_sockets_self] at hst
      exact absurd hst hs
    · rw [write_sockets_ne w s mem hji] at hst
      rw [if_neg hji]
      exact (hinv.queue j hj).linked.eq_nil_iff.mpr (hinv.free_head j hj hst)
  · intro j hj k hk hjk x hx y hy
    by_cases hji : j = i
    · rw [if_pos hji] at hx
      rw [if_neg fun hki => hjk (hji.trans hki.symm)] at hy
      exact (hkeep k hk (fun hki => hjk (hji.trans hki.symm)) y hy).2 x hx
    · rw [if_neg hji] at hx
      by_cases hki : k = i
      · rw [if_pos hki] at hy
        exact ((hkeep j hj hji x hx).2 y hy).symm
      · rw [if_neg hki] at hy
        exact hinv.apart j hj k hk hjk x hx y hy
  · intro j
    by_cases hji : j = i
    · subst hji
      have hlive : (w.write j s mem).Live j := ⟨hi.1, by rwa [write_sockets_self]⟩
      rw [if_pos hlive, write_sockets_self, if_pos rfl, Abs.set_slot_self]
    · rw [if_congr (write_live_ne w s mem hji) rfl rfl, write_sockets_ne w s mem hji, if_neg hji]
      exact (hslots j).symm.trans (Function.update_of_ne hji ..).symm
  · obtain ⟨-, rfl⟩ := h
    rfl

/-! ## Calls to the outside -/

theorem does_emit (e : Ev) : Does B (emit e) a fun _ a' => a' = a.emit e := by
  rintro w ⟨h, rfl⟩
  exact ⟨_, Rep.frame ⟨h, rfl⟩ w.np w.os w.net.err (e :: w.log) h.known, rfl⟩

theorem does_setErr (err : ℤ) : Does B (setErr err) a fun _ a' => a' = a.setErr err := by
  rintro w ⟨h, rfl⟩
  exact ⟨_, Rep.frame ⟨h, rfl⟩ w.np w.os err w.log h.known, rfl⟩

/-- A call to the system changes nothing of the net. -/
theorem does_call (ok : Reply → Prop) [DecidablePred ok] :
    Does B (call ok) a fun r a' => ok r ∧ a' = a := by
  rintro w ⟨h, rfl⟩
  refine (Prog.wp_zoom ..).mpr (wp_sys (fun r o hr => ?_) Fault.outside_stuck)
  exact ⟨_, Rep.frame ⟨h, rfl⟩ w.np o w.net.err w.log h.known, hr, rfl⟩

theorem does_socketErrno : Does B socketErrno a fun _ a' => a' = a :=
  fun _ hw => ⟨a, hw, rfl⟩

theorem does_answersLeft : Does B answersLeft a fun _ a' => a' = a :=
  fun _ hw => ⟨a, hw, rfl⟩

theorem does_net : Does B (Prog.read World.net) a fun n a' => a' = a ∧ n.max = a.max ∧ n.err = a.err := by
  rintro w ⟨h, rfl⟩
  exact ⟨_, ⟨h, rfl⟩, rfl, rfl, rfl⟩

/-- Reading the net shows the size of the array. -/
theorem does_max : Does B (Prog.read World.net) a fun n a' =>
    a' = a ∧ n.max = a.max ∧ ∀ j, a.max ≤ j → a.slot j = none := by
  rintro w ⟨h, rfl⟩
  exact ⟨_, ⟨h, rfl⟩, rfl, rfl, fun j hj => if_neg fun hl => not_lt.mpr hj hl.1⟩

/-- A call of the poller, from a state that knows slots of the array only to another such state. -/
theorem does_poller {α : Type} {p : Prog Fault (σ × Os) α}
    (hk : ∀ s, (∀ u, B.known s.1 u → u < a.max) →
      Prog.wp p (fun _ t => ∀ u, B.known t.1 u → u < a.max) (fun e _ => e.OfPoller) s) :
    Does B (poller p) a fun v a' => ∃ o o' np, p (a.np, o) = (.ok v, (np, o')) ∧ a' = { a with np } := by
  rintro w ⟨h, rfl⟩
  refine (Prog.wp_zoom ..).mpr ?_
  have hp := hk (w.np, w.os) h.known
  unfold Prog.wp at hp ⊢
  have hn : w.abs.np = w.np := rfl
  rw [hn]
  rcases hr : p (w.np, w.os) with ⟨e | v, np, o⟩ <;> rw [hr] at hp
  · exact Fault.OfPoller.outside hp
  · exact ⟨_, Rep.frame ⟨h, rfl⟩ np o w.net.err w.log hp, w.os, o, np, hr, rfl⟩

/-! ## Slots -/

/-- What reading an occupied slot shows of its connection. -/
structure Socket.Shows (s : Socket) (c : Conn) : Prop where
  conn_eq : s.conn c.queue = c
  head_iff : s.head = none ↔ c.queue = []
  status : c.status ≠ .invalid
  fd : 0 ≤ c.fd

/-- The fields of a slot are those of its connection. -/
theorem Rep.shows (h : Rep B w a) (hc : a.slot i = some c) : (w.net.sockets i).Shows c := by
  obtain ⟨hlive, rfl⟩ := h.live hc
  exact ⟨rfl, h.head_eq_none_iff hc, hlive.2, h.1.live_fd i hlive⟩

/-- A read of an occupied slot. -/
theorem does_slotAt (hc : a.slot i = some c) :
    Does B (slotAt i) a fun s a' => a' = a ∧ s.Shows c := by
  intro w hw
  simp only [slotAt, Prog.wp_bind, Prog.wp_read, Prog.wp_check (hw.lt_max hc), Prog.wp_pure]
  exact ⟨a, hw, rfl, hw.shows hc⟩

/-- A slot that is not occupied is invalid. -/
theorem does_slotAt_free (hc : a.slot i = none) (hi : i < a.max) :
    Does B (slotAt i) a fun s a' => a' = a ∧ s.status = .invalid := by
  intro w hw
  obtain ⟨hi', hs⟩ := hw.not_live hc hi
  simp only [slotAt, Prog.wp_bind, Prog.wp_read, Prog.wp_check hi', Prog.wp_pure]
  exact ⟨a, hw, rfl, hs⟩

theorem does_queue (hc : a.slot i = some c) :
    Does B (Prog.read fun w => w.queue i) a fun q a' => a' = a ∧ q = c.queue := by
  intro w hw
  obtain ⟨-, rfl⟩ := hw.live hc
  exact ⟨a, hw, rfl, rfl⟩

/-- Writing fields of an occupied slot other than its descriptor and its queue. -/
theorem does_setSlot {f : Socket → Socket} (g : Conn → Conn) (hc : a.slot i = some c)
    (hfg : ∀ s q, (f s).conn q = g (s.conn q)) (hp : ∀ s, (f s).head = s.head ∧ (f s).tail = s.tail)
    (hs : c.status ≠ .invalid → (g c).status ≠ .invalid) (hfd : (g c).fd = c.fd) :
    Does B (setSlot i f) a fun _ a' => a' = a.set i (g c) := by
  intro w hw
  obtain ⟨hlive, hcw⟩ := hw.live hc
  simp only [setSlot, Prog.wp_bind, Prog.wp_read, Prog.wp_check hlive.1, Prog.wp_write]
  have hconn : (f (w.net.sockets i)).conn (w.queue i) = g c := by rw [hfg, hcw]
  have hst : (f (w.net.sockets i)).status = (g c).status := by rw [← hconn]; rfl
  have hfd' : (f (w.net.sockets i)).fd = c.fd := by rw [← hfd, ← hconn]; rfl
  have hst₀ := (hw.shows hc).status
  have hfd₀ := (hw.shows hc).fd
  have hkeep : ∀ j < w.net.max, j ≠ i → ∀ x ∈ w.nodes j,
      w.mem.cell x.1 = w.mem.cell x.1 ∧ ∀ y ∈ w.nodes i, y.1 ≠ x.1 := fun j hj hji x hx =>
    ⟨rfl, fun y hy => hw.1.apart i hlive.1 j hj hji.symm y hy x hx⟩
  refine ⟨_, hw.write hlive (s := f (w.net.sockets i)) (hst ▸ hs hst₀) (hfd' ▸ hfd₀) ?_ hkeep, ?_⟩
  · rw [(hp _).1, (hp _).2]
    exact hw.1.queue i hlive.1
  · rw [← World.queue_eq, hconn]

/-- `_socket`. -/
theorem does_socketOf {id : ℤ} (h0 : 0 ≤ id) (hmax : id < a.max) :
    Does B (socketOf id) a fun r a' =>
      (r = none ∧ a.slot id.toNat = none ∧ a' = a.setErr LS_ERR_NOSOCK) ∨
        ∃ c, r = some id.toNat ∧ a.slot id.toNat = some c ∧ a' = a := by
  unfold socketOf
  refine .bind does_net ?_
  rintro n _ ⟨rfl, hn, -⟩
  refine .bind (.check (Q := fun _ a' => a' = _) ⟨h0, by omega⟩ rfl) ?_
  rintro _ _ rfl
  rcases hc : Abs.slot _ id.toNat with _ | c
  · refine .bind (does_slotAt_free hc (by omega)) ?_
    rintro s _ ⟨rfl, hs⟩
    rw [if_neg (by simpa using hs)]
    refine .bind (does_setErr _) ?_
    rintro _ _ rfl
    exact .pure (.inl ⟨rfl, rfl, rfl⟩)
  · refine .bind (does_slotAt hc) ?_
    rintro s _ ⟨rfl, hs⟩
    have hst : s.status ≠ .invalid := by
      have := hs.status
      rwa [← hs.conn_eq] at this
    rw [if_pos hst]
    exact .pure (.inr ⟨c, rfl, rfl, rfl⟩)

/-! ## Queues -/

/-- The queue of a slot is rewritten within its own nodes and memory that was not in use. -/
theorem Rep.writeQueue (h : Rep B w a) (hc : a.slot i = some c) {s : Socket} (mem : Heap SBuffer)
    {l : List (ℕ × SBuffer)} (hs : ∀ q, s.conn q = { c with queue := q })
    (hq : Queue mem.cell SBuffer.next s.head s.tail l)
    (hmem : ∀ p, p ∉ (w.nodes i).map Prod.fst → w.mem.cell p ≠ none → mem.cell p = w.mem.cell p)
    (hl : ∀ y ∈ l, y.1 ∈ (w.nodes i).map Prod.fst ∨ w.mem.cell y.1 = none) :
    Rep B (w.write i s mem) (a.set i { c with queue := l.map fun x => x.2.toChunk }) := by
  have hlive := (h.live hc).1
  have hshow := h.shows hc
  have hst : s.status ≠ .invalid := by
    have := congrArg Conn.status (hs [])
    exact fun h' => hshow.status (this.symm.trans h')
  have hfd : 0 ≤ s.fd := by
    rw [show s.fd = c.fd from congrArg Conn.fd (hs [])]
    exact hshow.fd
  rw [← hs]
  refine h.write hlive hst hfd hq fun j hj hji x hx => ?_
  have hcell : w.mem.cell x.1 = some x.2 := Seg.get_of_mem (h.1.queue j hj).linked hx
  -- a node of another slot is none of this queue's, and it is not a fresh cell either
  have hout : x.1 ∉ (w.nodes i).map Prod.fst := by
    intro hmem
    obtain ⟨y, hy, hyx⟩ := List.mem_map.mp hmem
    exact h.1.apart i hlive.1 j hj hji.symm y hy x hx hyx
  refine ⟨hmem x.1 hout (by rw [hcell]; simp), fun y hy hyx => ?_⟩
  rcases hl y hy with hin | hnone
  · exact hout (hyx ▸ hin)
  · rw [hyx, hcell] at hnone
    cases hnone

/-- The first node of a queue. -/
theorem Rep.exists_head (h : Rep B w a) (hc : a.slot i = some c) {b : Chunk} {q : List Chunk}
    (hq : c.queue = b :: q) :
    ∃ p n l, w.nodes i = (p, n) :: l ∧ (w.net.sockets i).head = some p ∧ w.mem.cell p = some n ∧
      n.toChunk = b ∧ l.map (fun x => x.2.toChunk) = q := by
  obtain ⟨hlive, rfl⟩ := h.live hc
  have hlink := (h.1.queue i hlive.1).linked
  have hq' : (w.nodes i).map (fun x => x.2.toChunk) = b :: q := hq
  rcases hn : w.nodes i with _ | ⟨⟨p, n⟩, l⟩ <;> rw [hn] at hq' hlink
  · cases hq'
  · obtain ⟨hhead, hp, -⟩ := Seg.cons_iff.mp hlink
    obtain ⟨rfl, hl⟩ := List.cons.inj hq'
    exact ⟨p, n, l, rfl, hhead, hp, rfl, hl⟩

/-- A read of the first node of a queue. -/
theorem does_headNode (hc : a.slot i = some c) :
    Does B (headNode i) a fun r a' => a' = a ∧ r.map SBuffer.toChunk = c.queue.head? := by
  intro w hw
  have hi := hw.lt_max hc
  simp only [headNode, slotAt, Prog.wp_bind, Prog.wp_read, Prog.wp_check hi, Prog.wp_pure]
  rcases hq : c.queue with _ | ⟨b, q⟩
  · rw [(hw.head_eq_none_iff hc).mpr hq]
    exact ⟨a, hw, rfl, rfl⟩
  · obtain ⟨p, n, l, -, hhead, hp, rfl, -⟩ := hw.exists_head hc hq
    simp only [hhead, nodeAt, Prog.wp_bind, Prog.wp_read, Option.bind_some, hp, Prog.wp_demand_some,
      Prog.wp_pure]
    exact ⟨a, hw, rfl, rfl⟩

/-- Rewriting the heap alone. -/
theorem write_self (w : World σ) (i : ℕ) (mem : Heap SBuffer) :
    w.write i (w.net.sockets i) mem = { w with mem } := by
  have : (fun j => if j = i then w.net.sockets i else w.net.sockets j) = w.net.sockets := by
    funext j
    split
    · next h => rw [h]
    · rfl
  rw [World.write, this]

/-- Writing fields of the first node other than its link. -/
theorem does_setHead {f : SBuffer → SBuffer} (g : Chunk → Chunk) {b : Chunk} {q : List Chunk}
    (hc : a.slot i = some c) (hq : c.queue = b :: q) (hfg : ∀ n, (f n).toChunk = g n.toChunk)
    (hnext : ∀ n, (f n).next = n.next) :
    Does B (setHead i f) a fun _ a' => a' = a.set i { c with queue := g b :: q } := by
  intro w hw
  obtain ⟨hlive, hcw⟩ := hw.live hc
  obtain ⟨p, n, l, hn, hhead, hp, rfl, rfl⟩ := hw.exists_head hc hq
  simp only [setHead, slotAt, Prog.wp_bind, Prog.wp_read, Prog.wp_check hlive.1, Prog.wp_pure, hhead,
    Prog.wp_demand_some, nodeAt, Option.bind_some, hp, setNode, Prog.wp_write]
  have hqueue := hw.1.queue i hlive.1
  rw [hn, hhead] at hqueue
  obtain ⟨-, -, hl⟩ := Seg.cons_iff.mp hqueue.linked
  have hnd := hqueue.linked.nodup
  rw [List.map_cons, List.nodup_cons] at hnd
  have hne : ∀ x ∈ l, x.1 ≠ p := by
    rintro x hx rfl
    exact hnd.1 (show x.1 ∈ l.map Prod.fst from List.mem_map_of_mem hx)
  have hq' : Queue (w.mem.store p (f n)).cell SBuffer.next (w.net.sockets i).head
      (w.net.sockets i).tail ((p, f n) :: l) := by
    rw [hhead]
    refine ⟨.cons (Heap.store_cell_self ..) ?_, fun x hx => ?_⟩
    · rw [hnext]
      exact hl.congr fun x hx => Heap.store_cell_ne _ _ (hne x hx)
    · refine hqueue.tail_eq (x.1, if l = [] then n else x.2) ?_
      rcases l with _ | ⟨y, l⟩
      · obtain rfl : (p, f n) = x := by simpa using hx
        rfl
      · simpa using hx
  have hconn : ∀ q, (w.net.sockets i).conn q = { c with queue := q } := fun q => by
    rw [← hcw]
    rfl
  have hrep := hw.writeQueue hc _ hconn hq'
    (fun x hx _ => Heap.store_cell_ne _ _ fun hxp => hx (by simp [hn, hxp]))
    (fun y hy => .inl (by
      rw [hn]
      rcases List.mem_cons.mp hy with rfl | hy
      · exact List.mem_cons_self
      · exact List.mem_cons_of_mem _ (List.mem_map_of_mem hy)))
  rw [write_self, List.map_cons, hfg] at hrep
  exact ⟨_, hrep, rfl⟩

/-- Freeing the block of a chunk, if it has one. -/
theorem does_freeData (b : Chunk) :
    Does B (freeData b.begin) a fun _ a' => a' = a.freeData [b] := by
  unfold freeData Abs.freeData freedLog
  rcases b.begin with _ | token
  · exact .pure rfl
  · exact does_emit _

/-- Taking the first node off frees its block and drops its chunk. -/
theorem does_popHead {b : Chunk} {q : List Chunk} (hc : a.slot i = some c) (hq : c.queue = b :: q) :
    Does B (popHead i) a fun _ a' => a' = (a.freeData [b]).set i { c with queue := q } := by
  intro w hw
  obtain ⟨hlive, hcw⟩ := hw.live hc
  obtain ⟨p, n, l, hn, hhead, hp, rfl, rfl⟩ := hw.exists_head hc hq
  have hqueue := hw.1.queue i hlive.1
  rw [hn, hhead] at hqueue
  have hnd := hqueue.linked.nodup
  rw [List.map_cons, List.nodup_cons] at hnd
  have hne : ∀ x ∈ l, x.1 ≠ p := by
    rintro x hx rfl
    exact hnd.1 (show x.1 ∈ l.map Prod.fst from List.mem_map_of_mem hx)
  have hconn : ∀ q, ({ w.net.sockets i with head := n.next } : Socket).conn q
      = { c with queue := q } := fun q => by
    rw [← hcw]
    rfl
  have hrep := hw.writeQueue hc (s := { w.net.sockets i with head := n.next })
    (w.mem.free p) hconn (hqueue.pop.congr fun x hx => Heap.free_cell_ne _ (hne x hx))
    (fun x hx _ => Heap.free_cell_ne _ fun hxp => hx (by simp [hn, hxp]))
    (fun y hy => .inl (by
      rw [hn]
      exact List.mem_cons_of_mem _ (List.mem_map_of_mem hy)))
  obtain ⟨h, rfl⟩ := hw
  simp only [popHead, slotAt, Prog.wp_bind, Prog.wp_read, Prog.wp_check hlive.1, Prog.wp_pure, hhead,
    Prog.wp_demand_some, nodeAt, Option.bind_some, hp, setSlot, Prog.wp_write]
  unfold freeData Abs.freeData freedLog
  -- a descriptor sent without data has no block to free
  rcases n.begin with _ | token
  · simp only [Prog.wp_pure, freeNode, Prog.wp_write]
    exact ⟨_, hrep, rfl⟩
  · simp only [emit, freeNode, Prog.wp_write]
    exact ⟨_, hrep.frame w.np w.os w.net.err (.freed token :: w.log) h.known, rfl⟩

/-- A new node becomes the queue. -/
theorem does_startQueue (b : Chunk) (hc : a.slot i = some c) :
    Does B (startQueue i b) a fun _ a' => a' = a.set i { c with queue := [b] } := by
  intro w hw
  obtain ⟨hlive, hcw⟩ := hw.live hc
  simp only [startQueue, mallocNode, call, Prog.wp_bind, Prog.wp_read]
  refine (Prog.wp_zoom ..).mpr (wp_sys (fun r o hr => ?_) Fault.outside_stuck)
  have hconn : ∀ q, ({ w.net.sockets i with head := some r.addr, tail := some r.addr } : Socket).conn q
      = { c with queue := q } := fun q => by
    rw [← hcw]
    rfl
  have hrep := hw.writeQueue hc (l := [(r.addr, { b with next := none })])
    (s := { w.net.sockets i with head := some r.addr, tail := some r.addr })
    (w.mem.store r.addr { b with next := none }) hconn
    (.singleton (Heap.store_cell_self ..) rfl)
    (fun x _ hx => Heap.store_cell_ne _ _ fun hxr => hx (hxr ▸ hr))
    (fun y hy => .inr (by
      obtain rfl := List.mem_singleton.mp hy
      exact hr))
  obtain ⟨h, rfl⟩ := hw
  simp only [setNode, setSlot, Prog.wp_bind, Prog.wp_write, Prog.wp_pure, Prog.wp_read,
    Prog.wp_check hlive.1]
  exact ⟨_, hrep.frame w.np o w.net.err w.log h.known, rfl⟩

/-- A node behind the last one; the assertions about the tail hold. -/
theorem does_appendQueue (b : Chunk) (hc : a.slot i = some c) (hq : c.queue ≠ []) :
    Does B (appendQueue i b) a fun _ a' => a' = a.set i { c with queue := c.queue ++ [b] } := by
  intro w hw
  obtain ⟨hlive, hcw⟩ := hw.live hc
  have hqueue := hw.1.queue i hlive.1
  have hne : w.nodes i ≠ [] := by
    intro hnil
    refine hq ?_
    rw [← hcw]
    show (w.nodes i).map _ = []
    rw [hnil, List.map_nil]
  obtain ⟨m, t, n, hn, htail, ht, hnext⟩ := hqueue.exists_tail hne
  simp only [appendQueue, mallocNode, call, Prog.wp_bind, Prog.wp_read]
  refine (Prog.wp_zoom ..).mpr (wp_sys (fun r o hr => ?_) Fault.outside_stuck)
  have hr : w.mem.cell r.addr = none := hr
  -- `malloc` gives a cell that no node occupies
  have htr : t ≠ r.addr := by
    rintro rfl
    rw [hr] at ht
    cases ht
  have hm : ∀ x ∈ m, x.1 ≠ r.addr ∧ x.1 ≠ t := by
    intro x hx
    refine ⟨?_, ?_⟩
    · intro hxr
      have := Seg.get_of_mem hqueue.linked (hn ▸ List.mem_append_left _ hx)
      rw [hxr, hr] at this
      cases this
    · have hnd := hqueue.linked.nodup
      rw [hn, List.map_append, List.nodup_append] at hnd
      exact hnd.2.2 _ (List.mem_map_of_mem hx) _ (by simp)
  rw [hn] at hqueue
  have hconn : ∀ q, ({ w.net.sockets i with tail := some r.addr } : Socket).conn q
      = { c with queue := q } := fun q => by
    rw [← hcw]
    rfl
  have hrep := hw.writeQueue hc (s := { w.net.sockets i with tail := some r.addr })
    ((w.mem.store r.addr { b with next := none }).store t { n with next := some r.addr })
    hconn
    (hqueue.push (d := { n with next := some r.addr }) (c := { b with next := none })
      (fun x hx => by rw [Heap.store_cell_ne _ _ (hm x hx).2, Heap.store_cell_ne _ _ (hm x hx).1])
      (Heap.store_cell_self ..) rfl
      (by rw [Heap.store_cell_ne _ _ htr.symm, Heap.store_cell_self]) rfl)
    (fun x hx hcell => by
      have hxt : x ≠ t := fun hxt => hx (by simp [hn, hxt])
      have hxr : x ≠ r.addr := by
        rintro rfl
        exact hcell hr
      rw [Heap.store_cell_ne _ _ hxt, Heap.store_cell_ne _ _ hxr])
    (fun y hy => by
      rw [hn]
      simp only [List.mem_append, List.mem_cons, List.not_mem_nil, or_false] at hy
      rcases hy with hy | rfl | rfl
      · exact .inl (List.mem_map_of_mem (List.mem_append_left _ hy))
      · exact .inl (by simp)
      · exact .inr hr)
  have hqueue' : c.queue = m.map (fun x => x.2.toChunk) ++ [n.toChunk] := by
    rw [← hcw]
    show (w.nodes i).map _ = _
    rw [hn, List.map_append]
    rfl
  obtain ⟨h, rfl⟩ := hw
  simp only [setNode, slotAt, setSlot, nodeAt, Prog.wp_bind, Prog.wp_write, Prog.wp_pure,
    Prog.wp_read, Prog.wp_check hlive.1, htail, Prog.wp_demand_some, Option.bind_some,
    Heap.store_cell_ne _ _ htr, ht, Prog.wp_check hnext]
  refine ⟨_, hrep.frame w.np o w.net.err w.log h.known, ?_⟩
  rw [hqueue', List.append_assoc, List.map_append]
  rfl

end Lsocket
