import Lsocket.Buffer.Behave

/-!
# Handing out the whole buffer

`ldetach` copies all unread bytes into one block and drops the nodes with `freebuffer`, whose second
argument is an index within the node given. `ldetach` passes it the number of bytes of the whole
buffer; that is where the last node ends exactly if it is the only one and unread. In any other
buffer the block is right, but the last node stays.
-/

namespace Lsocket.Buffer

open CInt

variable {b b' : Buf} {l l₁ : List (ℕ × BufferNode)} {a : ℕ} {nd : BufferNode} {v : LuaValue}

/-! ## Runs with `detach` -/

/-- A call of the Lua interface, `detach` included. -/
inductive DetachOp
  | call (op : Op)
  | detach

/-- The calls on a buffer made by `lnew`, `detach` included. -/
def detachCalls : System Buf DetachOp where
  init := calls.init
  step b op b' := match op with
    | .call op => calls.step b op b'
    | .detach => ∃ v, ldetach b = (.ok v, b')

/-- A buffer that holds bytes holds them in one node, and none of them was read. -/
def Whole (b : Buf) : Prop := 0 < b.sb.size → (nodes b).length = 1 ∧ b.sb.offset = 0

instance (b : Buf) : Decidable (Whole b) :=
  inferInstanceAs (Decidable (0 < b.sb.size → _ ∧ _))

/-- The runs that detach whole buffers only. -/
def wholeDetach : System Buf DetachOp :=
  detachCalls.restrict fun b op _ => op = .detach → Whole b

/-- `detach` hands out everything and empties the buffer. -/
structure DetachesAll (b : Buf) : Prop where
  full : 0 < b.sb.size → ∃ b', ldetach b = (.ok (.block (content b) b.sb.size), b') ∧
    b.sb.size = (content b).length ∧ b'.sb.head = none ∧ b'.sb.size = 0 ∧ b'.sb.offset = 0 ∧
    Alike b' lnew
  empty : b.sb.size = 0 → ldetach b = (.ok .nil, b)

/-! ## What `detach` leaves -/

/-- Nothing is detached from a buffer whose `size` is not positive. -/
theorem ldetach_empty (h : b.sb.size ≤ 0) : ldetach b = (.ok .nil, b) := by
  simp [ldetach, h]

/-- A `detach` that returns has run `freebuffer` on the last node with `size` as the index. -/
theorem ldetach_ok (hpos : 0 < b.sb.size) (hr : ldetach b = (.ok v, b')) :
    freebuffer b.sb.tail b.sb.size b = (.ok (), b') := by
  simp only [ldetach, Prog.bind_apply, Prog.read_apply, id, if_neg (not_le.mpr hpos),
    Prog.lift_apply] at hr
  rcases hloop : detachLoop b.mem b.sb.size (b.mem.top + 1) b.sb.head b.sb.offset 0
    with e | ⟨bs, diff⟩ <;> rw [hloop] at hr
  · cases hr
  · by_cases hdiff : diff = b.sb.size
    · simp only [Prog.check_apply hdiff] at hr
      rcases hfree : freebuffer b.sb.tail b.sb.size b with ⟨_ | _, c⟩ <;> rw [hfree] at hr
      · cases hr
      · cases hr
        rfl
    · simp [Prog.check, hdiff] at hr

/-- The nodes that stay, if `detach` returns: the last one, unless it ends at the index `size`. -/
theorem ldetach_nodes (h : Inv b) (hn : nodes b = l₁ ++ [(a, nd)]) (hpos : 0 < b.sb.size)
    (hr : ldetach b = (.ok v, b')) : nodes b' = afterCut a nd [] b.sb.size := by
  have hfree := ldetach_ok hpos hr
  have hq := h.queue
  have hlen := hq.linked.length_le_top
  have htail : b.sb.tail = some a := hq.tail_eq (a, nd) (by simp [hn])
  rw [hn] at hq hlen
  have hfuel : l₁.length < b.mem.top + 1 := by
    simp only [List.length_append, List.length_singleton] at hlen
    omega
  have hsize : wrap (b.sb.size + b.sb.offset) = wrap (total (l₁ ++ [(a, nd)])) := by
    rw [h.size_eq, hn, wrap_wrap_add, sub_add_cancel]
  have hspec := freebufferLoop_spec (E := fun _ _ => True) b.sb.size
    (b := { b with sb := { b.sb with size := wrap (b.sb.size + b.sb.offset) } }) hq hsize hfuel
  rw [htail] at hfree
  exact nodes_eq (Prog.wp_ok hspec hfree).1.linked

/-- The block holds all bytes of a single node that is unread, and the node is dropped. -/
theorem ldetach_single (h : Inv b) (hn : nodes b = [(a, nd)]) (hoff : b.sb.offset = 0) :
    ∃ b', ldetach b = (.ok (.block (content b) b.sb.size), b') ∧ Inv b' ∧ nodes b' = [] := by
  have hnode : NodeOk nd := h.node_ok (a, nd) (by simp [hn])
  have hpos := hnode.pos
  have hlink := h.queue.linked
  rw [hn] at hlink
  obtain ⟨hhead, ha, hnext⟩ := Seg.cons_iff.mp hlink
  have hnone : nd.next = none := Seg.nil_iff.mp hnext
  have htail : b.sb.tail = some a := h.queue.tail_eq (a, nd) (by simp [hn])
  have hsize : b.sb.size = nd.sz := by
    rw [h.size_eq, hn, hoff]
    simpa using wrap_of_nonneg hpos.le hnode.le_max
  have hcut : Cut b [] a nd [] nd.sz := ⟨hn, hpos.le, le_refl _, fun _ => by omega⟩
  obtain ⟨u, c, hfree, hinv, -, hnodes, -⟩ := Prog.exists_ok_of_wp (freebuffer_spec h hcut)
  rw [afterCut, if_pos rfl] at hnodes
  have hd : deref b.mem (some a) = .ok nd := by simp [deref, ha]
  have htop : 1 ≤ b.mem.top := by
    have := h.queue.linked.length_le_top
    rwa [hn] at this
  obtain ⟨fuel, hfuel⟩ : ∃ f, b.mem.top = f + 1 := ⟨b.mem.top - 1, by omega⟩
  have hcont : content b = nd.bytes := by simp [content, hn, hoff]
  have hle := hnode.le_length
  have hloop : detachLoop b.mem nd.sz (b.mem.top + 1) b.sb.head b.sb.offset 0
      = .ok (nd.bytes, nd.sz) := by
    rw [hhead, hoff, hfuel]
    have hguard : ¬ (nd.sz < 0 ∨ (nd.p.length : ℤ) < nd.sz) := by omega
    simp [detachLoop, hpos, hd, bind, Except.bind, hguard, hnone, pure, Except.pure,
      wrap_of_nonneg hpos.le hnode.le_max, BufferNode.bytes]
  refine ⟨c, ?_, hinv, hnodes⟩
  simp [ldetach, hsize, hpos.not_ge, hloop, htail, Prog.check_apply, hfree, hcont]

/-- `detach` hands out everything exactly if the buffer is whole. -/
theorem detachesAll_iff_of_inv (h : Inv b) : DetachesAll b ↔ Whole b := by
  constructor
  · intro hd hpos
    obtain ⟨b', hr, hsize, hhead, -⟩ := hd.full hpos
    have hne : nodes b ≠ [] := by
      intro hnil
      rw [hsize, h.content_eq_nil_iff.mpr hnil] at hpos
      exact lt_irrefl 0 hpos
    obtain ⟨l₁, a, nd, hn, -⟩ := h.queue.exists_tail hne
    have hnodes := ldetach_nodes h hn hpos hr
    -- the last node was dropped, so all bytes of the buffer are bytes of this node
    have hempty : nodes b' = [] := nodes_eq (Seg.nil_iff.mpr hhead)
    have hend : nd.sz = b.sb.size := by
      by_contra hne
      rw [hempty, afterCut, if_neg hne] at hnodes
      cases hnodes
    have hlen := h.length_content
    rw [hn, total_append, total_cons, total_nil] at hlen
    have hlen' : ((content b).length : ℤ) = total l₁ + (nd.sz + 0) - b.sb.offset := hlen
    rcases l₁ with _ | ⟨x, l₁⟩
    · rw [total_nil] at hlen'
      exact ⟨by simp [hn], by omega⟩
    · have hlt := h.offset_lt x (by simp [hn])
      have htot : 0 ≤ total l₁ := total_nonneg fun y hy => h.node_ok y (by simp [hn, hy])
      rw [total_cons] at hlen'
      omega
  · intro hw
    refine ⟨fun hpos => ?_, fun hzero => ldetach_empty hzero.le⟩
    obtain ⟨hone, hoff⟩ := hw hpos
    obtain ⟨⟨a, nd⟩, hn⟩ := List.length_eq_one_iff.mp hone
    obtain ⟨b', hr, hinv, hnil⟩ := ldetach_single h hn hoff
    have hnode := h.node_ok (a, nd) (by simp [hn])
    have hoff' := hinv.offset_nil hnil
    refine ⟨b', hr, ?_, hinv.nodes_eq_nil_iff.mp hnil, ?_, hoff', ?_⟩
    · refine h.size_eq_length ?_
      rw [hn]
      simpa using hnode.le_max
    · rw [hinv.size_eq, hnil, hoff']
      rfl
    · refine alike_of_chunks hinv inv_lnew ?_
      rw [chunks_lnew, chunks_eq_nil_iff.mpr hnil]

/-- The invariant is kept by runs that detach whole buffers. -/
theorem inv_of_wholeDetach (h : wholeDetach.Reach b) : Inv b := by
  refine h.invariant ?_ fun s op s' _ hi hs => ?_
  · rintro _ rfl
    exact inv_lnew
  · obtain ⟨hstep, hwhole⟩ := hs
    cases op with
    | call op => exact hi.call hstep.1 hstep.2
    | detach =>
      obtain ⟨v, hr⟩ := hstep
      -- on an empty buffer `ldetach` returns before it touches the queue
      rcases le_or_gt s.sb.size 0 with hle | hpos
      · rw [ldetach_empty hle] at hr
        cases hr
        exact hi
      · obtain ⟨hone, hoff⟩ := hwhole rfl hpos
        obtain ⟨⟨a, nd⟩, hn⟩ := List.length_eq_one_iff.mp hone
        obtain ⟨c, hr', hinv, -⟩ := ldetach_single hi hn hoff
        rw [hr'] at hr
        cases hr
        exact hinv

/-- In every state reached by pushes, pops and `detach` of whole buffers, `detach` hands out
everything and empties the buffer exactly if the buffer is whole. -/
theorem detachesAll_iff (h : wholeDetach.Reach b) : DetachesAll b ↔ Whole b :=
  detachesAll_iff_of_inv (inv_of_wholeDetach h)

/-- One block, `ab`. -/
def oneBlock : Buf := (lpush 0 (some [97, 98]) 2 lnew).2

theorem detachesAll_iff_oneBlock : DetachesAll oneBlock ∧ Whole oneBlock := by
  have hreach : wholeDetach.Reach oneBlock :=
    .step (l := .call (.push 0 (some [97, 98]) 2)) (.init rfl)
      ⟨⟨by decide, .inl ⟨.integer 2, rfl⟩⟩, nofun⟩
  have hwhole : Whole oneBlock := by decide
  exact ⟨(detachesAll_iff hreach).mpr hwhole, hwhole⟩

/-- Of two blocks, `detach` keeps the second: `size` becomes negative. -/
theorem detach_twoBlocks : detachCalls.Reach twoBlocks ∧ ¬ DetachesAll twoBlocks := by
  have hreach : detachCalls.Reach twoBlocks :=
    .step (l := .call (.push 1 (some [99, 100]) 2))
      (.step (l := .call (.push 0 (some [97, 98]) 2)) (.init rfl)
        ⟨by decide, .inl ⟨.integer 2, rfl⟩⟩)
      ⟨by decide, .inl ⟨.integer 4, rfl⟩⟩
  refine ⟨hreach, fun hd => ?_⟩
  obtain ⟨b', hr, -, -, hsize, -⟩ := hd.full (by decide)
  have hleft : (ldetach twoBlocks).2.sb.size = -2 := by decide
  rw [hr] at hleft
  rw [hleft] at hsize
  cases hsize

end Lsocket.Buffer
