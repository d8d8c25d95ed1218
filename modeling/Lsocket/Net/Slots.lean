import Lsocket.Net.Memory

/-!
# Creating and closing slots

`_create_socket` takes the first free slot, `_close_socket` frees a slot with all that is queued on
it and appends it to the free ones; its assertions about the tail of that list hold. `_subscribe`
changes the mask of a slot if the poller agrees.
-/

namespace Lsocket

open CInt

variable {σ : Type} {B : Backend σ} {w w' : World σ} {a : Abs σ} {i : ℕ} {c : Conn}

/-! ## Creating -/

/-- `_create_socket` fails if no slot is free, and else takes the first free one. -/
theorem does_createSocket {fd : ℤ} (slimit udata protocol : ℤ) (hfd : 0 ≤ fd) :
    Does B (createSocket fd slimit udata protocol) a fun r a' =>
      (r = none ∧ a.free = [] ∧ a' = a.emit .refused) ∨
        ∃ i rest rlimit, r = some i ∧ a.free = i :: rest ∧ a.slot i = none ∧ i < a.max ∧
          a' = a.create i rest (newConn fd slimit udata protocol rlimit) := by
  rintro w ⟨h, rfl⟩
  simp only [createSocket, Prog.wp_bind, Prog.wp_check hfd, Prog.wp_read]
  have hF := h.free
  rcases hf : w.freeSlots with _ | ⟨⟨i, s⟩, l⟩ <;> rw [hf] at hF
  · rw [hF.linked.eq_nil_iff.mp rfl]
    refine Prog.Refines.bind (does_emit .refused) (fun _ a' ha' => .pure ?_) w ⟨h, rfl⟩
    exact .inl ⟨rfl, congrArg (List.map Prod.fst) hf, ha'⟩
  · obtain ⟨hhead, hs, -⟩ := Seg.cons_iff.mp hF.linked
    have hnd := hF.linked.nodup
    rw [List.map_cons, List.nodup_cons] at hnd
    have hmem : i ∈ w.freeSlots.map Prod.fst := by simp [hf]
    obtain ⟨hi, hst⟩ := (h.free_iff i).mp hmem
    obtain rfl : w.net.sockets i = s := by
      rw [slots_eq hi] at hs
      exact Option.some.inj hs
    have hnone : w.abs.slot i = none := if_neg fun hl => hl.2 hst
    simp only [hhead, slotAt, setSlot, emit, Prog.wp_bind, Prog.wp_read, Prog.wp_check hi,
      Prog.wp_pure, Prog.wp_write]
    refine ⟨_, ?_, .inr ⟨i, l.map Prod.fst, (w.net.sockets i).rlimit, rfl,
      congrArg (List.map Prod.fst) hf, hnone, hi, rfl⟩⟩
    have hne : ∀ x ∈ l, x.1 ≠ i := by
      rintro x hx rfl
      exact hnd.1 (show x.1 ∈ l.map Prod.fst from List.mem_map_of_mem hx)
    have hnodes : w.nodes i = [] :=
      (h.queue i hi).linked.eq_nil_iff.mpr (h.free_head i hi hst)
    refine Rep.of_lists l w.nodes ?_ ?_ ?_ ?_ ?_ ?_ h.apart h.known ?_ rfl
    · refine hF.pop.congr fun x hx => ?_
      simp only [World.slots, if_neg (hne x hx)]
    · intro j hj
      by_cases hji : j = i
      · subst hji
        rw [hnodes]
        simp only [if_true]
        exact .empty
      · simp only [if_neg hji]
        exact h.queue j hj
    · intro j
      have hfree := h.free_iff j
      rw [hf, List.map_cons, List.mem_cons] at hfree
      by_cases hji : j = i
      · subst hji
        simp only [if_true]
        exact iff_of_false hnd.1 (by simp)
      · simp only [if_neg hji]
        simpa [hji] using hfree
    · intro j hj
      by_cases hji : j = i
      · subst hji
        simp only [if_true]
        omega
      · simp only [if_neg hji]
        exact h.free_fd j hj
    · intro j hj
      by_cases hji : j = i
      · subst hji
        simpa using hfd
      · simp only [World.Live, if_neg hji] at hj ⊢
        exact h.live_fd j hj
    · intro j hj hst'
      by_cases hji : j = i
      · exact hji ▸ hnodes
      · simp only [if_neg hji] at hst'
        exact (h.queue j hj).linked.eq_nil_iff.mpr (h.free_head j hj hst')
    · intro j
      by_cases hji : j = i
      · subst hji
        -- its `rlimit` is the one field that is not set
        simp only [World.Live, if_true, hnodes, Abs.create, Function.update_self]
        rw [if_pos ⟨hi, by simp⟩]
        rfl
      · simp only [World.Live, if_neg hji, Abs.create, Function.update_of_ne hji]
        rfl

/-! ## Closing -/

/-- `_socket_close`. -/
theorem does_socketCloseFd (fd : ℤ) :
    Does B (socketCloseFd B fd) a fun _ a' => a' = a.closeFd B fd := by
  rintro w ⟨h, rfl⟩
  refine ⟨_, Rep.frame ⟨h, rfl⟩ (B.closed fd w.np) w.os w.net.err (.released fd :: w.log) ?_, rfl⟩
  exact fun u hu => h.known u (B.known_closed fd w.np u hu)

/-- A heap with the nodes of a list freed. -/
def freeNodes (l : List (ℕ × SBuffer)) (mem : Heap SBuffer) : Heap SBuffer :=
  l.foldl (fun mem x => mem.free x.1) mem

/-- The nodes that are freed leave the others alone. -/
theorem freeNodes_cell (l : List (ℕ × SBuffer)) (mem : Heap SBuffer) {p : ℕ}
    (hp : ∀ x ∈ l, x.1 ≠ p) : (freeNodes l mem).cell p = mem.cell p := by
  induction l generalizing mem with
  | nil => rfl
  | cons x l ih =>
    rw [freeNodes, List.foldl_cons]
    refine (ih _ fun y hy => hp y (List.mem_cons_of_mem _ hy)).trans ?_
    exact Heap.free_cell_ne _ (hp x List.mem_cons_self).symm

/-- The world with the queue of a slot freed. -/
def World.dropQueue (w : World σ) (i : ℕ) (l : List (ℕ × SBuffer)) : World σ :=
  { w.write i { w.net.sockets i with head := none } (freeNodes l w.mem) with
    log := freedLog (l.map fun x => x.2.toChunk) w.log }

/-- The loop of `_close_socket` frees the whole queue. -/
theorem freeQueue_run {l : List (ℕ × SBuffer)} (hi : i < w.net.max)
    (hl : Linked w.mem.cell SBuffer.next (w.net.sockets i).head l) {fuel : ℕ}
    (hf : l.length < fuel) : freeQueue i fuel w = (.ok (), w.dropQueue i l) := by
  induction l generalizing w fuel with
  | nil =>
    obtain ⟨fuel, rfl⟩ : ∃ f, fuel = f + 1 := ⟨fuel - 1, by simp at hf; omega⟩
    have hhead : (w.net.sockets i).head = none := Seg.nil_iff.mp hl
    have hw : w.dropQueue i [] = w := by
      have hs : ({ w.net.sockets i with head := none } : Socket) = w.net.sockets i := by
        rw [← hhead]
      rw [World.dropQueue, hs, freeNodes, List.foldl_nil, write_self]
      rfl
    simp only [freeQueue, slotAt, Prog.bind_apply, Prog.read_apply, Prog.check_apply hi,
      Prog.pure_apply, hhead, hw]
  | cons x l ih =>
    obtain ⟨fuel, rfl⟩ : ∃ f, fuel = f + 1 := ⟨fuel - 1, by simp at hf; omega⟩
    obtain ⟨p, n⟩ := x
    obtain ⟨hhead, hp, hl'⟩ := Seg.cons_iff.mp hl
    have hnd := hl.nodup
    rw [List.map_cons, List.nodup_cons] at hnd
    have hne : ∀ x ∈ l, x.1 ≠ p := by
      rintro x hx rfl
      exact hnd.1 (show x.1 ∈ l.map Prod.fst from List.mem_map_of_mem hx)
    -- the world after one round, and what is left of the queue there
    let w₁ : World σ :=
      { w.write i { w.net.sockets i with head := n.next } (w.mem.free p) with
        log := freedLog [n.toChunk] w.log }
    have hlink : Linked w₁.mem.cell SBuffer.next (w₁.net.sockets i).head l := by
      have hsock : (w₁.net.sockets i).head = n.next := by simp [w₁]
      rw [hsock]
      exact hl'.congr fun x hx => Heap.free_cell_ne _ (hne x hx)
    have hrest := ih (w := w₁) hi hlink (Nat.lt_of_succ_lt_succ hf)
    have hround : freeQueue i (fuel + 1) w = freeQueue i fuel w₁ := by
      rcases hb : n.begin with _ | token <;>
      · simp only [freeQueue, slotAt, setSlot, nodeAt, Lsocket.freeNode, Prog.bind_apply,
          Prog.read_apply, Prog.check_apply hi, Prog.pure_apply, hhead, Option.bind_some, hp,
          Prog.demand_some_apply, Prog.write_apply, hb, freeData, emit]
        simp only [w₁, freedLog, hb]
        rfl
    rw [hround, hrest]
    have hsockets : (fun j => if j = i then ({ w₁.net.sockets i with head := none } : Socket)
        else w₁.net.sockets j)
        = fun j => if j = i then { w.net.sockets i with head := none } else w.net.sockets j := by
      funext j
      by_cases hji : j = i
      · simp [hji, w₁]
      · simp [hji, w₁, write_sockets_ne]
    have hlog : freedLog (l.map fun x => x.2.toChunk) w₁.log
        = freedLog (((p, n) :: l).map fun x => x.2.toChunk) w.log := by
      simp only [w₁, List.map_cons, freedLog]
      rcases n.begin with _ | token <;> rfl
    simp only [World.dropQueue, World.write, hsockets, hlog]
    rfl

/-- The end of `_close_socket`, on the memory of the array alone: the slot `i`, invalid and without
a queue, goes behind the free slots. -/
theorem appendFree_spec {E : Fault → World σ → Prop} {F : List (ℕ × Socket)} (hi : i < w.net.max)
    (hF : Queue w.slots Socket.link w.net.freeSocket w.net.tailSocket F)
    (hiF : ∀ x ∈ F, x.1 ≠ i) (hmax : ∀ x ∈ F, -1 ≤ x.2.fd) (hfd : (w.net.sockets i).fd = -1) :
    Prog.wp (appendFree i) (fun _ w' => ∃ F' n, w' = { w with net := n } ∧
      Queue w'.slots Socket.link n.freeSocket n.tailSocket F' ∧
      F'.map Prod.fst = F.map Prod.fst ++ [i] ∧ n.max = w.net.max ∧ n.err = w.net.err ∧
      n.sockets i = w.net.sockets i ∧
      ∀ j, ∃ fd, n.sockets j = { w.net.sockets j with fd } ∧
        (fd = (w.net.sockets j).fd ∨ (j ∈ F.map Prod.fst ∧ 0 ≤ fd))) E w := by
  have hlink : (w.net.sockets i).link = none := by
    rw [Socket.link, hfd]
    rfl
  simp only [appendFree, Prog.wp_bind, Prog.wp_read]
  -- an empty list gets a new head; else the tail's `fd` becomes the index of the slot
  rcases List.eq_nil_or_concat F with rfl | ⟨m, x, rfl⟩
  · rw [if_pos (hF.linked.eq_nil_iff.mp rfl)]
    simp only [Prog.wp_bind, Prog.wp_write]
    refine ⟨[(i, w.net.sockets i)], _, rfl, .singleton (slots_eq hi) hlink, rfl, rfl, rfl, rfl,
      fun j => ⟨_, rfl, .inl rfl⟩⟩
  · rw [List.concat_eq_append] at hF hiF hmax ⊢
    have hne : w.net.freeSocket ≠ none := fun hnone => by
      have := hF.linked.eq_nil_iff.mpr hnone
      simp at this
    obtain ⟨m', t, s, hm, htail, hs, hlast⟩ := hF.exists_tail (by simp)
    obtain ⟨rfl, hx⟩ := List.append_inj_left' hm rfl, List.append_inj_right' hm rfl
    obtain rfl := (List.cons.inj hx).1
    have hti : t ≠ i := hiF (t, s) (by simp)
    have htmax : t < w.net.max := by
      by_contra hge
      rw [World.slots, if_neg hge] at hs
      cases hs
    obtain rfl : w.net.sockets t = s := by
      rw [slots_eq htmax] at hs
      exact Option.some.inj hs
    -- the source asserts this of the tail
    have hfdt : (w.net.sockets t).fd = -1 := by
      have := hmax (t, w.net.sockets t) (by simp)
      unfold Socket.link at hlast
      split at hlast
      · cases hlast
      · simp only at this
        omega
    have hold : ∀ y ∈ m, y.1 ≠ t := by
      have hnd := hF.linked.nodup
      rw [List.map_append, List.nodup_append] at hnd
      exact fun y hy => hnd.2.2 _ (List.mem_map_of_mem hy) _ (by simp)
    rw [if_neg hne]
    simp only [htail, slotAt, setSlot, Prog.wp_bind, Prog.wp_demand_some, Prog.wp_read,
      Prog.wp_check htmax, Prog.wp_pure, Prog.wp_check hfdt, Prog.wp_write]
    refine ⟨m ++ [(t, { w.net.sockets t with fd := (i : ℤ) }), (i, w.net.sockets i)], _, rfl,
      hF.push (fun y hy => ?_) ?_ ?_ ?_ hlink, by simp, rfl, rfl, if_neg hti.symm, fun j => ?_⟩
    · simp only [World.slots, if_neg (hold y hy)]
    · simp only [World.slots, htmax, if_true]
    · simp [Socket.link]
    · simp only [World.slots, hi, if_true, if_neg hti.symm]
    · by_cases hjt : j = t
      · subst hjt
        exact ⟨i, by simp, .inr ⟨by simp, by omega⟩⟩
      · exact ⟨_, by simp only [if_neg hjt], .inl rfl⟩

/-- The world with a slot invalid and its queue freed. -/
def World.clear (w : World σ) (i : ℕ) (l : List (ℕ × SBuffer)) : World σ :=
  { w.write i { w.net.sockets i with
      fd := -1, status := .invalid, udata := 0, head := none, tail := none, sbuffersz := 0 }
      (freeNodes l w.mem) with
    log := freedLog (l.map fun x => x.2.toChunk) w.log }

/-- The end of `_close_socket` up to where the slot is appended to the free ones. -/
theorem wp_releaseSlot {Q : Unit → World σ → Prop} {E : Fault → World σ → Prop}
    {l : List (ℕ × SBuffer)} (hi : i < w.net.max)
    (hl : Linked w.mem.cell SBuffer.next (w.net.sockets i).head l) :
    Prog.wp (releaseSlot i) Q E w ↔ Prog.wp (appendFree i) Q E (w.clear i l) := by
  simp only [releaseSlot, setSlot, Prog.wp_bind, Prog.wp_read, Prog.wp_check hi, Prog.wp_write]
  -- the world when the loop over the queue starts
  let w₁ : World σ :=
    w.write i { w.net.sockets i with fd := -1, status := .invalid, udata := 0 } w.mem
  have hrun : freeQueue i (w.mem.top + 1) w₁ = (.ok (), w₁.dropQueue i l) := by
    refine freeQueue_run (w := w₁) hi ?_ (Nat.lt_succ_of_le hl.length_le_top)
    rw [write_sockets_self]
    exact hl
  refine (Prog.wp_of_run hrun).trans ?_
  have hi₂ : i < (w₁.dropQueue i l).net.max := hi
  simp only [Prog.wp_bind, Prog.wp_read, Prog.wp_check hi₂, Prog.wp_write]
  have hsockets : (fun j => if j = i then ({ (w₁.dropQueue i l).net.sockets i with
        tail := none, sbuffersz := 0 } : Socket)
      else (w₁.dropQueue i l).net.sockets j) = (w.clear i l).net.sockets := by
    funext j
    by_cases hji : j = i
    · simp [hji, World.dropQueue, World.clear, w₁]
    · simp [hji, World.dropQueue, World.clear, w₁, write_sockets_ne]
  rw [hsockets]
  rfl

/-- What represents the net once the slot is among the free ones: its queue is freed, and of the
other slots at most the link of a free one is written. -/
theorem Rep.release (h : Rep B w a) (hc : a.slot i = some c) {F : List (ℕ × Socket)} {n : Net}
    (hF : Queue (World.slots { w.clear i (w.nodes i) with net := n }) Socket.link
      n.freeSocket n.tailSocket F)
    (hmap : F.map Prod.fst = w.freeSlots.map Prod.fst ++ [i]) (hmax : n.max = w.net.max)
    (herr : n.err = w.net.err) (hself : n.sockets i = (w.clear i (w.nodes i)).net.sockets i)
    (hother : ∀ j, j ≠ i → ∃ fd, n.sockets j = { w.net.sockets j with fd } ∧
      (fd = (w.net.sockets j).fd ∨ (j ∈ w.freeSlots.map Prod.fst ∧ 0 ≤ fd))) :
    Rep B { w.clear i (w.nodes i) with net := n } ((a.freeData c.queue).remove i) := by
  obtain ⟨hlive, rfl⟩ := h.live hc
  obtain ⟨h, rfl⟩ := h
  have hi := hlive.1
  have hfree : (n.sockets i).fd = -1 ∧ (n.sockets i).status = .invalid ∧
      (n.sockets i).head = none ∧ (n.sockets i).tail = none := by
    rw [hself, World.clear, write_sockets_self]
    exact ⟨rfl, rfl, rfl, rfl⟩
  obtain ⟨hfd, hst, hhead, htail⟩ := hfree
  -- of the other slots at most the `fd` changes, and only of one that is free
  have hlink : ∀ j, j ≠ i → (n.sockets j).head = (w.net.sockets j).head ∧
      (n.sockets j).tail = (w.net.sockets j).tail ∧
      (n.sockets j).status = (w.net.sockets j).status := by
    intro j hji
    obtain ⟨fd, hj, -⟩ := hother j hji
    rw [hj]
    exact ⟨rfl, rfl, rfl⟩
  refine Rep.of_lists F (fun j => if j = i then [] else w.nodes j) hF ?_ ?_ ?_ ?_ ?_ ?_ ?_ ?_ ?_
  · intro j hj
    by_cases hji : j = i
    · subst hji
      rw [if_pos rfl]
      show Queue _ _ (n.sockets j).head (n.sockets j).tail []
      rw [hhead, htail]
      exact .empty
    · obtain ⟨hhead, htail, -⟩ := hlink j hji
      rw [if_neg hji]
      show Queue _ _ (n.sockets j).head (n.sockets j).tail _
      rw [hhead, htail]
      -- the nodes freed are not those of another slot
      refine (h.queue j (hmax ▸ hj)).congr fun x hx => freeNodes_cell _ _ fun y hy => ?_
      exact h.apart i hi j (hmax ▸ hj) (Ne.symm hji) y hy x hx
  · intro j
    rw [hmap, List.mem_append, List.mem_singleton, h.free_iff]
    show _ ↔ j < n.max ∧ (n.sockets j).status = _
    by_cases hji : j = i
    · subst hji
      exact iff_of_true (.inr rfl) ⟨hmax.symm ▸ hi, hst⟩
    · rw [(hlink j hji).2.2, hmax]
      exact or_iff_left hji
  · intro j hj
    show -1 ≤ (n.sockets j).fd
    by_cases hji : j = i
    · rw [hji, hfd]
    · obtain ⟨fd, hj', rfl | ⟨-, hfd'⟩⟩ := hother j hji <;> rw [hj']
      · exact h.free_fd j (hmax ▸ hj)
      · exact le_trans (by decide) hfd'
  · rintro j ⟨hj, hstj⟩
    show 0 ≤ (n.sockets j).fd
    have hji : j ≠ i := by
      rintro rfl
      exact hstj hst
    obtain ⟨fd, hj', rfl | ⟨-, hfd'⟩⟩ := hother j hji <;> rw [hj']
    · exact h.live_fd j ⟨hmax ▸ hj, fun hs => hstj ((hlink j hji).2.2.trans hs)⟩
    · exact hfd'
  · intro j hj hstj
    by_cases hji : j = i
    · rw [if_pos hji]
    · rw [if_neg hji]
      refine (h.queue j (hmax ▸ hj)).linked.eq_nil_iff.mpr (h.free_head j (hmax ▸ hj) ?_)
      exact (hlink j hji).2.2.symm.trans hstj
  · intro j hj k hk hjk x hx y hy
    by_cases hji : j = i
    · rw [if_pos hji] at hx
      cases hx
    · by_cases hki : k = i
      · rw [if_pos hki] at hy
        cases hy
      · rw [if_neg hji] at hx
        rw [if_neg hki] at hy
        exact h.apart j (hmax ▸ hj) k (hmax ▸ hk) hjk x hx y hy
  · intro u hu
    exact hmax.symm ▸ h.known u hu
  · intro j
    by_cases hji : j = i
    · subst hji
      have hremove : ((w.abs.freeData (w.queue j)).remove j).slot j = none := Function.update_self ..
      exact (if_neg fun hl => hl.2 hst).trans hremove.symm
    · have hremove : ((w.abs.freeData (w.queue i)).remove i).slot j = w.abs.slot j :=
        Function.update_of_ne hji ..
      have hiff : World.Live { w.clear i (w.nodes i) with net := n } j ↔ w.Live j := by
        show (j < n.max ∧ (n.sockets j).status ≠ _) ↔ _
        rw [hmax, (hlink j hji).2.2]
        rfl
      refine Eq.trans ?_ hremove.symm
      rw [if_neg hji]
      by_cases hl : w.Live j
      swap
      · rw [if_neg fun hl' => hl (hiff.mp hl')]
        exact (if_neg hl).symm
      rw [if_pos (hiff.mpr hl)]
      refine Eq.trans ?_ (if_pos hl).symm
      -- a slot in use is not on the free list, so its `fd` is untouched
      have hnot : j ∉ w.freeSlots.map Prod.fst := fun hj => hl.2 ((h.free_iff j).mp hj).2
      obtain ⟨fd, hj, hfd'⟩ := hother j hji
      obtain rfl := hfd'.resolve_right fun hj => hnot hj.1
      show some ((n.sockets j).conn _) = _
      rw [hj]
      rfl
  · show (n.max, F.map Prod.fst, w.np, n.err, freedLog _ w.log) = _
    rw [hmap, hmax, herr]
    rfl

/-- The slot is freed with its queue. -/
theorem does_releaseSlot (hc : a.slot i = some c) :
    Does B (releaseSlot i) a fun _ a' => a' = (a.freeData c.queue).remove i := by
  intro w hw
  obtain ⟨hlive, -⟩ := hw.live hc
  have h := hw.1
  have hi := hlive.1
  refine (wp_releaseSlot hi (h.queue i hi).linked).mpr ?_
  have hne : ∀ x ∈ w.freeSlots, x.1 ≠ i := by
    rintro x hx rfl
    exact hlive.2 ((h.free_iff x.1).mp (List.mem_map_of_mem hx)).2
  have hfd : ∀ x ∈ w.freeSlots, -1 ≤ x.2.fd := by
    intro x hx
    have hx' := Seg.get_of_mem h.free.linked hx
    have hxmax := ((h.free_iff x.1).mp (List.mem_map_of_mem hx)).1
    rw [slots_eq hxmax] at hx'
    rw [← Option.some.inj hx']
    exact h.free_fd x.1 hxmax
  have hself : ((w.clear i (w.nodes i)).net.sockets i).fd = -1 := by
    rw [World.clear, write_sockets_self]
  refine Prog.wp_mono (appendFree_spec (F := w.freeSlots) hi
    (h.free.congr fun x hx => write_slots_ne w _ (freeNodes (w.nodes i) w.mem) (hne x hx)) hne hfd
    hself) ?_
  rintro - _ ⟨F, n, rfl, hF, hmap, hmax, herr, hni, hother⟩
  refine ⟨_, hw.release hc hF hmap hmax herr hni fun j hji => ?_, rfl⟩
  have hj := hother j
  rwa [show (w.clear i (w.nodes i)).net.sockets j = w.net.sockets j from
    write_sockets_ne w _ (freeNodes (w.nodes i) w.mem) hji] at hj

/-- `_close_socket` of an occupied slot. -/
theorem does_closeSocket (hc : a.slot i = some c) :
    Does B (closeSocket B i) a fun _ a' => a' = a.close i B c := by
  unfold closeSocket
  refine .bind (does_slotAt hc) ?_
  rintro s a ⟨rfl, hs⟩
  have hfd : s.fd = c.fd := congrArg Conn.fd hs.conn_eq
  have hmask : s.mask = c.mask := congrArg Conn.mask hs.conn_eq
  rw [if_neg (by have := hs.fd; omega), hfd, hmask]
  refine .bind (does_emit _) ?_
  rintro _ _ rfl
  split
  · next hfd' =>
    refine .bind (does_socketCloseFd c.fd) ?_
    rintro _ _ rfl
    refine (does_releaseSlot (a := (a.emit _).closeFd B c.fd) hc).mono ?_
    rintro _ _ rfl
    simp only [Abs.close, if_pos hfd']
  · next hfd' =>
    refine (does_releaseSlot (a := a.emit _) hc).mono ?_
    rintro _ _ rfl
    simp only [Abs.close, if_neg hfd']

end Lsocket
