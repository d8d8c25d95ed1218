import Lsocket.Net.Fate
import Lsocket.Net.Epoll

/-!
# The list of free slots

The slots are handed out in the order in which they became free. `fifo` is the queue that the log
describes; the links from `free_socket` run through exactly this queue, and every slot that was ever
opened was at its front.
-/

namespace Lsocket

variable {σ : Type} {B : Backend σ} {w : World σ} {a a' : Abs σ} {i j max : ℕ} {log : List Ev}

/-! ## The queue of the log -/

/-- The free slots, the one that has been free longest in front. -/
def fifo (max : ℕ) : List Ev → List ℕ
  | [] => List.range max
  | .opened _ _ _ :: log => (fifo max log).tail
  | .closed i _ _ :: log => fifo max log ++ [i]
  | _ :: log => fifo max log

/-- The place in the log where a slot was freed last, zero if it never was occupied. -/
def freedAt (i : ℕ) : List Ev → ℕ
  | [] => 0
  | .closed j _ _ :: log => if j = i then log.length + 1 else freedAt i log
  | _ :: log => freedAt i log

/-- A slot is taken from the front, only an occupied one is freed, and none is refused while one is
free. -/
def Ev.Queues (max : ℕ) : Ev → List Ev → Prop
  | .opened i _ _, past => ∃ rest, fifo max past = i :: rest
  | .closed i _ _, past => i < max ∧ i ∉ fifo max past
  | .refused, past => fifo max past = []
  | _, _ => True

/-- Only opening and closing change the queue of free slots. -/
theorem fifo_ignores (max : ℕ) : Ignores (fifo max) Ev.Steady := by
  intro e log he
  cases e <;> first | rfl | exact he.elim

theorem Ev.Steady.queues {e : Ev} (h : e.Steady) (past : List Ev) : e.Queues max past := by
  cases e <;> trivial

/-- No slot is in the queue twice. -/
theorem fifo_nodup (h : History (Ev.Queues max) log) : (fifo max log).Nodup := by
  induction log with
  | nil => exact List.nodup_range
  | cons e log ih =>
    obtain ⟨he, h⟩ := h
    cases e with
    | opened i fd p => exact (ih h).tail
    | closed i fd m =>
      refine List.nodup_append.mpr ⟨ih h, List.nodup_singleton i, fun x hx y hy hxy => he.2 ?_⟩
      rwa [← List.mem_singleton.mp hy, ← hxy]
    | _ => exact ih h

/-- The queue holds exactly the slots that are not occupied. -/
theorem mem_fifo (h : History (Ev.Queues max) log) :
    i ∈ fifo max log ↔ i < max ∧ occupied i log = false := by
  induction log with
  | nil => simp [fifo, occupied]
  | cons e log ih =>
    have hnd := fifo_nodup h.2
    obtain ⟨he, h⟩ := h
    cases e with
    | opened k fd p =>
      obtain ⟨rest, hrest⟩ := he
      rw [hrest, List.nodup_cons] at hnd
      have ih := ih h
      rw [hrest, List.mem_cons] at ih
      simp only [fifo, occupied, hrest, List.tail_cons, Bool.or_eq_false_iff, decide_eq_false_iff_not]
      by_cases hk : k = i
      · subst hk
        exact iff_of_false hnd.1 fun hi => hi.2.1 rfl
      · rw [and_left_comm, ← ih, and_iff_right hk]
        exact (or_iff_right fun hi => hk hi.symm).symm
    | closed k fd m =>
      simp only [fifo, occupied, List.mem_append, List.mem_singleton, ih h, Bool.and_eq_false_iff,
        decide_eq_false_iff_not, not_not]
      by_cases hk : k = i
      · subst hk
        exact iff_of_true (.inr rfl) ⟨he.1, .inl rfl⟩
      · have hk' : i ≠ k := Ne.symm hk
        simp [hk, hk']
    | _ => exact ih h

/-- Only slots of the array are ever occupied. -/
theorem occupied_lt (h : History (Ev.Queues max) log) (hi : occupied i log) : i < max := by
  induction log with
  | nil => cases hi
  | cons e log ih =>
    obtain ⟨he, h⟩ := h
    cases e with
    | opened k fd p =>
      simp only [occupied, Bool.or_eq_true, decide_eq_true_eq] at hi
      rcases hi with rfl | hi
      · obtain ⟨rest, hrest⟩ := he
        exact ((mem_fifo h).mp (hrest ▸ List.mem_cons_self)).1
      · exact ih h hi
    | closed k fd m =>
      simp only [occupied, Bool.and_eq_true] at hi
      exact ih h hi.2
    | _ => exact ih h hi

/-- A slot was freed no later than now. -/
theorem freedAt_le (i : ℕ) (log : List Ev) : freedAt i log ≤ log.length := by
  induction log with
  | nil => exact le_rfl
  | cons e log ih =>
    cases e with
    | closed k fd m =>
      simp only [freedAt]
      split
      · exact le_rfl
      · exact ih.trans (Nat.le_succ _)
    | _ => exact ih.trans (Nat.le_succ _)

/-- The queue is in the order in which the slots were freed. -/
theorem fifo_sorted (h : History (Ev.Queues max) log) :
    (fifo max log).Pairwise fun j k => freedAt j log ≤ freedAt k log := by
  induction log with
  | nil => exact List.pairwise_of_forall fun _ _ => le_rfl
  | cons e log ih =>
    obtain ⟨he, h⟩ := h
    cases e with
    | opened k fd p => exact (ih h).tail
    | closed k fd m =>
      -- the slot that is freed now was in use, so none of those that wait
      have hne : ∀ j ∈ fifo max log, freedAt j (.closed k fd m :: log) = freedAt j log := by
        intro j hj
        have hk : k ≠ j := fun hk => he.2 (hk ▸ hj)
        exact if_neg hk
      refine List.pairwise_append.mpr ⟨?_, List.pairwise_singleton .., fun j hj x hx => ?_⟩
      · refine (ih h).imp_of_mem fun hj hk hjk => ?_
        rwa [hne _ hj, hne _ hk]
      · obtain rfl := List.mem_singleton.mp hx
        rw [hne j hj, show freedAt x (.closed x fd m :: log) = log.length + 1 from if_pos rfl]
        exact (freedAt_le j log).trans (Nat.le_succ _)
    | _ => exact ih h

/-! ## The net follows the queue -/

/-- The free slots of a net are the queue of its log. -/
structure InOrder (a : Abs σ) : Prop where
  free : a.free = fifo a.max a.log
  slot : ∀ i, a.slot i = none ↔ occupied i a.log = false
  log : History (Ev.Queues a.max) a.log

namespace InOrder

/-- What neither opens nor closes a slot keeps the order. -/
theorem keep (h : InOrder a) (evs : List Ev) (hmax : a'.max = a.max) (hfree : a'.free = a.free)
    (hslot : ∀ i, a'.slot i = none ↔ a.slot i = none) (hlog : a'.log = evs ++ a.log)
    (hevs : ∀ e ∈ evs, e.Steady) : InOrder a' where
  free := by rw [hfree, h.free, hmax, hlog, (fifo_ignores a.max).append hevs]
  slot i := by rw [hslot, h.slot, hlog, (occupied_ignores i).append hevs]
  log := by
    rw [hmax, hlog]
    exact h.log.append fun e he past => (hevs e he).queues past

/-- Changing what an occupied slot holds. -/
theorem put (h : InOrder a) {c c' : Conn} {np : σ} {evs : List Ev} (hc : a.slot i = some c)
    (hevs : ∀ e ∈ evs, e.Steady) : InOrder (a.put i c' np evs) := by
  refine h.keep _ rfl rfl (fun j => ?_) rfl hevs
  by_cases hj : j = i
  · subst hj
    rw [Abs.put_slot_self, hc]
    simp
  · exact iff_of_eq (congrArg (· = none) (Function.update_of_ne hj ..))

/-- A slot that is opened is the first of the free ones. -/
theorem create (h : InOrder a) {rest : List ℕ} {c : Conn} (hf : a.free = i :: rest) :
    InOrder (a.create i rest c) where
  free := by
    show rest = (fifo a.max a.log).tail
    rw [← h.free, hf, List.tail_cons]
  slot j := by
    show Function.update a.slot i (some c) j = none ↔ (decide (i = j) || occupied j a.log) = false
    by_cases hj : j = i
    · subst hj
      simp
    · rw [Function.update_of_ne hj, h.slot]
      simp [Ne.symm hj]
  log := ⟨⟨rest, h.free ▸ hf⟩, h.log⟩

/-- A slot that is closed comes behind the free ones. -/
theorem close (h : InOrder a) {c : Conn} (hc : a.slot i = some c) : InOrder (a.close i B c) := by
  have hocc : occupied i a.log = true := by
    have := (h.slot i).not.mp (by simp [hc])
    simpa using this
  have hmax := occupied_lt h.log hocc
  refine ⟨?_, fun j => ?_, ?_⟩
  · rw [Abs.close_free, Abs.close_max, Abs.close_log, (fifo_ignores a.max).append closeEvs_steady,
      h.free]
    rfl
  · rw [Abs.close_slot, Abs.close_log, (occupied_ignores j).append closeEvs_steady]
    show _ ↔ (decide (i ≠ j) && occupied j a.log) = false
    by_cases hj : j = i
    · subst hj
      simp
    · rw [Function.update_of_ne hj, h.slot]
      simp [Ne.symm hj]
  · rw [Abs.close_max, Abs.close_log]
    refine History.append ⟨⟨hmax, fun hi => ?_⟩, h.log⟩ fun e he past =>
      (closeEvs_steady e he).queues past
    rw [mem_fifo h.log, hocc] at hi
    exact absurd hi.2 (by simp)

/-- Every change keeps the order. -/
theorem change {op : Op} {v : ℤ} (h : InOrder a) (hch : Change B op v a a') : InOrder a' := by
  cases hch with
  | err => exact h.keep [] rfl rfl (fun _ => Iff.rfl) rfl (by simp)
  | @note e he _ =>
    exact h.keep [e] rfl rfl (fun _ => Iff.rfl) rfl (by simpa using he.steady)
  | @raised e => exact h.keep [.raised e] rfl rfl (fun _ => Iff.rfl) rfl (by simp [Ev.Steady])
  | refused hf =>
    exact ⟨h.free, h.slot, h.free.symm.trans hf, h.log⟩
  | polled => exact h.keep [] rfl rfl (fun _ => Iff.rfl) rfl (by simp)
  | @drop fd =>
    exact h.keep [.released fd] rfl rfl (fun _ => Iff.rfl) rfl (by simp [Ev.Steady])
  | conn hc hs => exact h.put hc fun e he => (hs.about e he).steady
  | close hc hs =>
    exact (h.put hc fun e he => (hs.about e he).steady).close (Abs.put_slot_self ..)
  | opened _ hf _ _ hm => exact (h.create hf).put (Function.update_self ..) fun e he => (hm.events_local e he).steady
  | bounced _ hf _ _ hs =>
    exact ((h.create hf).put (Function.update_self ..) fun e he =>
      (hs.events_local e he).steady).close (Abs.put_slot_self ..)
  | destroyed =>
    exact h.keep [.destroyed] rfl rfl (fun _ => Iff.rfl) rfl (by simp [Ev.Steady])

end InOrder

/-- In every run, the free slots are in the order in which they were freed. -/
theorem reach_inOrder (h : (changes B).Reach a) : InOrder a := by
  refine h.invariant ?_ fun a l a' _ ha hs => ha.change hs
  rintro _ ⟨max, -, rfl⟩
  exact ⟨rfl, fun i => by simp [Abs.initial, occupied], trivial⟩

/-! ## The list in memory -/

/-- What the log says of a slot when it is opened, closed or refused: it is opened only when it is
free, and has been for at least as long as any other; it is closed only when it is occupied; and an
opening is refused only if no slot is free. -/
def Ev.InTurn (max : ℕ) : Ev → List Ev → Prop
  | .opened i _ _, past => i < max ∧ occupied i past = false ∧
    ∀ j < max, occupied j past = false → freedAt i past ≤ freedAt j past
  | .closed i _ _, past => i < max ∧ occupied i past = true
  | .refused, past => ∀ i < max, occupied i past = true
  | _, _ => True

/-- A queue of free slots opens, closes and refuses in turn. -/
theorem inTurn_of_queues (h : History (Ev.Queues max) log) : History (Ev.InTurn max) log := by
  induction log with
  | nil => trivial
  | cons e log ih =>
    obtain ⟨he, h⟩ := h
    refine ⟨?_, ih h⟩
    cases e with
    | opened i fd p =>
      obtain ⟨rest, hrest⟩ := he
      -- the head of a sorted list was freed no later than any other free slot
      have hsorted := fifo_sorted h
      have hi := (mem_fifo (i := i) h).mp (hrest ▸ List.mem_cons_self)
      refine ⟨hi.1, hi.2, fun j hj hfree => ?_⟩
      have hmem := (mem_fifo h).mpr ⟨hj, hfree⟩
      rw [hrest] at hsorted hmem
      rcases List.mem_cons.mp hmem with rfl | hmem
      · exact le_rfl
      · exact List.rel_of_pairwise_cons hsorted hmem
    | closed i fd m =>
      have hi := (mem_fifo (i := i) h).not.mp he.2
      exact ⟨he.1, by simpa using fun hf => hi ⟨he.1, hf⟩⟩
    | refused =>
      intro i hi
      have hmem := (mem_fifo (i := i) h).not.mp (by rw [show fifo max log = [] from he]; simp)
      simpa using fun hf => hmem ⟨hi, hf⟩
    | _ => trivial

/-- The list of free slots is the queue of the log, in memory. -/
structure FifoList (w : World σ) : Prop where
  /-- The links from `free_socket` visit the slots of the queue, in its order, and end there. -/
  path : Linked w.slots Socket.link w.net.freeSocket
    ((fifo w.net.max w.log).map fun i => (i, w.net.sockets i))
  /-- No slot is visited twice. -/
  once : (fifo w.net.max w.log).Nodup
  /-- The slots visited are those with status `STATUS_INVALID`. -/
  free : ∀ i, i ∈ fifo w.net.max w.log ↔ i < w.net.max ∧ (w.net.sockets i).status = .invalid
  /-- The last one is `tail_socket`, with link -1. -/
  last : ∀ i ∈ (fifo w.net.max w.log).getLast?,
    w.net.tailSocket = some i ∧ (w.net.sockets i).fd = -1
  /-- `free_socket` is null exactly if every slot is occupied. -/
  full : w.net.freeSocket = none ↔ ∀ i < w.net.max, (w.net.sockets i).status ≠ .invalid
  /-- The log says so, too. -/
  live : ∀ i < w.net.max, occupied i w.log = true ↔ (w.net.sockets i).status ≠ .invalid
  /-- Every slot was opened, closed and refused in its turn. -/
  turn : History (Ev.InTurn w.net.max) w.log

/-- The list from `free_socket` runs through the free slots in that order, and ends at `tail_socket`.
-/
theorem fifoList_of_rep (hrep : Rep B w w.abs) (h : InOrder w.abs) : FifoList w := by
  have hlog : History (Ev.Queues w.net.max) w.log := h.log
  have hfree : w.freeSlots.map Prod.fst = fifo w.net.max w.log := h.free
  -- the walk from `free_socket` reads each slot as it is in the array
  have hcells : w.freeSlots = (fifo w.net.max w.log).map fun i => (i, w.net.sockets i) := by
    rw [← hfree, List.map_map]
    refine (List.map_id _).symm.trans (List.map_congr_left fun x hx => ?_)
    have hget := Seg.get_of_mem hrep.1.free.linked hx
    have hmax := ((hrep.1.free_iff x.1).mp (List.mem_map_of_mem hx)).1
    rw [slots_eq hmax] at hget
    exact Prod.ext rfl (Option.some.inj hget).symm
  have hiff : ∀ i, i ∈ fifo w.net.max w.log ↔ i < w.net.max ∧ (w.net.sockets i).status = .invalid := by
    intro i
    rw [← hfree]
    exact hrep.1.free_iff i
  refine ⟨?_, fifo_nodup hlog, hiff, ?_, ?_, ?_, inTurn_of_queues hlog⟩
  · rw [← hcells]
    exact hrep.1.free.linked
  · intro i hi
    have hmem : (i, w.net.sockets i) ∈ w.freeSlots.getLast? := by
      rw [hcells, List.getLast?_map]
      exact Option.mem_map_of_mem _ hi
    refine ⟨hrep.1.free.tail_eq _ hmem, ?_⟩
    have hne : w.freeSlots ≠ [] := by
      rintro hnil
      rw [hnil] at hmem
      cases hmem
    obtain ⟨m, t, s, hm, -, -, hlink⟩ := hrep.1.free.exists_tail hne
    rw [hm, List.getLast?_concat] at hmem
    obtain ⟨rfl, rfl⟩ := Prod.mk.inj (Option.some.inj hmem)
    have hmax := ((hiff t).mp (List.mem_of_getLast? hi)).1
    have := hrep.1.free_fd t hmax
    unfold Socket.link at hlink
    split at hlink
    · cases hlink
    · omega
  · rw [← hrep.1.free.linked.eq_nil_iff, hcells, List.map_eq_nil_iff, List.eq_nil_iff_forall_not_mem]
    exact forall_congr' fun i => by rw [hiff, not_and]
  · intro i hi
    rw [← not_iff_not, Bool.not_eq_true, not_not, ← (mem_fifo hlog).trans (and_iff_right hi), hiff]
    exact and_iff_right hi

/-- In every run the free slots form a queue, and the assertions about its tail hold. -/
theorem freeList_fifo (h : (net B).Reach w) : FifoList w ∧
    ∀ op : Op, op.Allowed w.net.max → ∀ replies e w',
      op.call B (w.answer replies) = (.error e, w') → e ≠ .tailSocket := by
  obtain ⟨hrep, habs⟩ := reach_abs h
  refine ⟨fifoList_of_rep hrep (reach_inOrder habs), fun op hop replies e w' he htail => ?_⟩
  subst htail
  rcases reach_fault h hop replies he with h | h | h <;> cases h

/-- A net for two sockets: a third is refused, and the slot freed is used again. -/
def reuseCalls : List (Op × List Reply) :=
  [(.bind 3 0 0, [{}, {}]), (.bind 4 0 0, [{}, {}]), (.bind 5 0 0, []), (.close 0 true, []),
    (.bind 6 0 0, [{}, {}])]

/-- The theorem at work on such a run. -/
theorem freeList_fifo_reuse :
    FifoList ((fresh epoll 2).after epoll reuseCalls) ∧
      (((fresh epoll 2).after epoll reuseCalls).net.sockets 0).fd = 6 :=
  ⟨(freeList_fifo (reach_fresh (by decide))).1, by decide⟩

end Lsocket
