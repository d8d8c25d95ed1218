import Lsocket.Buffer.Model

/-!
# The buffer is a flat byte queue

`Inv` is what every operation keeps: the nodes form a list whose last one `tail` points to, the
head is not read to its end, and `size` counts the unread bytes (modulo the range of `int`).

`pushpack` and `freebuffer` work up to a cut, an index `stop` in some node; in terms of the bytes
of all nodes (`raw`) the cut is a single number, `total` of the nodes before plus `stop`. Their two
specifications say that one returns the unread bytes before the cut and the other leaves those
after it, wherever the cut falls.
-/

namespace Lsocket.Buffer

open CInt

variable {b : Buf} {l l₁ l₂ : List (ℕ × BufferNode)} {a : ℕ} {nd : BufferNode} {stop : ℤ}

/-! ## Byte counts -/

@[simp] theorem total_nil : total [] = 0 := rfl

@[simp] theorem total_cons (x : ℕ × BufferNode) (l : List (ℕ × BufferNode)) :
    total (x :: l) = x.2.sz + total l := by
  simp [total]

@[simp] theorem total_append (l l' : List (ℕ × BufferNode)) :
    total (l ++ l') = total l + total l' := by
  simp [total]

@[simp] theorem raw_nil : raw [] = [] := rfl

@[simp] theorem raw_cons (x : ℕ × BufferNode) (l : List (ℕ × BufferNode)) :
    raw (x :: l) = x.2.bytes ++ raw l := by
  simp [raw]

@[simp] theorem raw_append (l l' : List (ℕ × BufferNode)) : raw (l ++ l') = raw l ++ raw l' := by
  simp [raw]

/-- A node is in order: its size is a positive `int`, and its block is that long. -/
structure NodeOk (nd : BufferNode) : Prop where
  pos : 0 < nd.sz
  le_max : nd.sz ≤ INT_MAX
  le_length : nd.sz ≤ nd.p.length

/-- A node that is in order has as many bytes as its size says. -/
theorem NodeOk.length_bytes (h : NodeOk nd) : (nd.bytes.length : ℤ) = nd.sz := by
  have := h.pos
  have := h.le_length
  simp only [BufferNode.bytes, List.length_take]
  omega

/-- The part of a node's block that an unread range of it names. -/
theorem NodeOk.drop_take (h : NodeOk nd) {offset : ℤ} (ho : 0 ≤ offset) (hs : stop ≤ nd.sz) :
    (nd.p.drop offset.toNat).take (stop - offset).toNat = (nd.bytes.take stop.toNat).drop offset.toNat := by
  have := h.pos
  rw [BufferNode.bytes, List.take_take, List.drop_take]
  congr 1
  omega

/-- A copy within a node that is in order. -/
theorem addlstring_ok (h : NodeOk nd) {offset : ℤ} (ho : 0 ≤ offset) (hos : offset ≤ stop)
    (hs : stop ≤ nd.sz) :
    addlstring nd.p offset (stop - offset) = .ok ((nd.bytes.take stop.toNat).drop offset.toNat) := by
  have := h.le_length
  rw [addlstring, if_neg (by omega), if_neg (by omega), h.drop_take ho hs]

/-- The bytes of the nodes are as many as their sizes together. -/
theorem length_raw (h : ∀ x ∈ l, NodeOk x.2) : ((raw l).length : ℤ) = total l := by
  induction l with
  | nil => rfl
  | cons x l ih =>
    have hx := (h x List.mem_cons_self).length_bytes
    have hl := ih fun y hy => h y (List.mem_cons_of_mem _ hy)
    rw [raw_cons, List.length_append, total_cons]
    push_cast
    omega

theorem total_nonneg (h : ∀ x ∈ l, NodeOk x.2) : 0 ≤ total l := by
  rw [← length_raw h]
  omega

/-! ## The invariant -/

/-- What every operation on a buffer keeps. -/
structure Inv (b : Buf) : Prop where
  queue : Queue b.mem.cell BufferNode.next b.sb.head b.sb.tail (nodes b)
  node_ok : ∀ x ∈ nodes b, NodeOk x.2
  offset_nonneg : 0 ≤ b.sb.offset
  offset_lt : ∀ x ∈ (nodes b).head?, b.sb.offset < x.2.sz
  offset_nil : nodes b = [] → b.sb.offset = 0
  size_eq : b.sb.size = wrap (total (nodes b) - b.sb.offset)

/-- The nodes of a buffer are whatever list its head pointer starts. -/
theorem nodes_eq (h : Linked b.mem.cell BufferNode.next b.sb.head l) : nodes b = l :=
  Linked.walk_eq h h.length_le_top

/-- The invariant, of a given list of nodes. -/
theorem Inv.of_queue (hq : Queue b.mem.cell BufferNode.next b.sb.head b.sb.tail l)
    (hok : ∀ x ∈ l, NodeOk x.2) (h0 : 0 ≤ b.sb.offset) (hlt : ∀ x ∈ l.head?, b.sb.offset < x.2.sz)
    (hnil : l = [] → b.sb.offset = 0) (hs : b.sb.size = wrap (total l - b.sb.offset)) : Inv b := by
  obtain rfl := nodes_eq hq.linked
  exact ⟨hq, hok, h0, hlt, hnil, hs⟩

/-- In an empty buffer the head pointer is null, and conversely. -/
theorem Inv.nodes_eq_nil_iff (h : Inv b) : nodes b = [] ↔ b.sb.head = none :=
  h.queue.linked.eq_nil_iff

/-- The offset stays within the bytes held. -/
theorem Inv.offset_le_total (h : Inv b) : b.sb.offset ≤ total (nodes b) := by
  rcases hn : nodes b with _ | ⟨x, l⟩
  · simp [h.offset_nil hn]
  · have := h.offset_lt x (by simp [hn])
    have := total_nonneg fun y hy => h.node_ok y (hn ▸ List.mem_cons_of_mem x hy)
    rw [total_cons]
    omega

/-- What is unread is as long as the nodes without what was read of the first one. -/
theorem Inv.length_content (h : Inv b) :
    ((content b).length : ℤ) = total (nodes b) - b.sb.offset := by
  have := h.offset_nonneg
  have := h.offset_le_total
  have := length_raw h.node_ok
  rw [content, List.length_drop]
  omega

/-- A buffer has no unread bytes only if it holds no nodes. -/
theorem Inv.content_eq_nil_iff (h : Inv b) : content b = [] ↔ nodes b = [] := by
  constructor
  · intro hempty
    have hlen := h.length_content
    rcases hn : nodes b with _ | ⟨x, l⟩
    · rfl
    · have hlt := h.offset_lt x (by simp [hn])
      have hl : 0 ≤ total l := total_nonneg fun y hy => h.node_ok y (by simp [hn, hy])
      rw [hempty, hn, total_cons, List.length_nil] at hlen
      omega
  · intro hn
    simp [content, hn]

/-- As long as the nodes held add up to an `int`, `size` is the number of unread bytes. -/
theorem Inv.size_eq_length (h : Inv b) (hheld : total (nodes b) ≤ INT_MAX) :
    b.sb.size = (content b).length := by
  have := h.offset_nonneg
  have := h.offset_le_total
  rw [h.size_eq, h.length_content, wrap_of_nonneg (by omega) (by omega)]

/-- A new buffer is in order. -/
theorem inv_lnew : Inv lnew :=
  .of_queue .empty (by simp) (le_refl _) (by simp) (fun _ => rfl) rfl

/-! ## The two halves of a cut -/

/-- `pushpack` returns the unread bytes before the cut. -/
theorem pushpackLoop_ok {mem : Heap BufferNode} {p : Option ℕ} {offset : ℤ}
    (hl : Linked mem.cell BufferNode.next p (l₁ ++ (a, nd) :: l₂))
    (hok : ∀ x ∈ l₁ ++ (a, nd) :: l₂, NodeOk x.2) (h0 : 0 ≤ offset)
    (hlt : ∀ x ∈ l₁.head?, offset < x.2.sz) (hstart : l₁ = [] → offset ≤ stop) (hstop : 0 ≤ stop)
    (hend : stop ≤ nd.sz) {fuel : ℕ} (hf : l₁.length < fuel) :
    pushpackLoop mem (some a) stop fuel p offset
      = .ok (((raw l₁ ++ nd.bytes).take (total l₁ + stop).toNat).drop offset.toNat) := by
  induction l₁ generalizing p offset fuel with
  | nil =>
    obtain ⟨fuel, rfl⟩ : ∃ f, fuel = f + 1 := ⟨fuel - 1, by simp at hf; omega⟩
    obtain ⟨rfl, ha, _⟩ := Seg.cons_iff.mp hl
    have hd : deref mem (some a) = .ok nd := by simp [deref, ha]
    have hnd := hok (a, nd) (by simp)
    simp only [pushpackLoop, ne_eq, not_true_eq_false, if_false, hd, bind, Except.bind]
    rw [addlstring_ok hnd h0 (hstart rfl) hend]
    simp
  | cons x l₁ ih =>
    obtain ⟨fuel, rfl⟩ : ∃ f, fuel = f + 1 := ⟨fuel - 1, by simp at hf; omega⟩
    obtain ⟨a', c⟩ := x
    have hne : a' ≠ a := by
      have hnd := hl.nodup
      simp only [List.cons_append, List.map_cons, List.nodup_cons, List.map_append, List.mem_append,
        List.mem_cons, not_or] at hnd
      exact hnd.1.2.1
    obtain ⟨rfl, ha, hl'⟩ := Seg.cons_iff.mp hl
    have hc : NodeOk c := hok (a', c) (by simp)
    have hclt : offset < c.sz := hlt (a', c) (by simp)
    have hd : deref mem (some a') = .ok c := by simp [deref, ha]
    have hrec := ih hl' (fun y hy => hok y (List.mem_cons_of_mem _ hy)) (le_refl 0)
      (fun y hy => (hok y (by simp [List.mem_of_mem_head? hy])).pos) (fun _ => hstop)
      (Nat.lt_of_succ_lt_succ hf)
    have hlen := hc.length_bytes
    have htot : 0 ≤ total l₁ := total_nonneg fun y hy => hok y (by simp [hy])
    simp only [pushpackLoop, ne_eq, Option.some.injEq, hne, not_false_eq_true, if_true, hd, bind,
      Except.bind, hrec, addlstring_ok hc h0 hclt.le (le_refl _), pure, Except.pure]
    -- the first node is taken whole, and the cut falls in what the rest of the loop copies
    have hsplit : (c.bytes ++ (raw l₁ ++ nd.bytes)).take (c.sz + total l₁ + stop).toNat
        = c.bytes ++ (raw l₁ ++ nd.bytes).take (total l₁ + stop).toNat := by
      rw [List.take_append, List.take_of_length_le (by omega)]
      congr 2
      omega
    rw [Int.toNat_zero, List.drop_zero, raw_cons, total_cons, List.append_assoc, hsplit,
      List.drop_append_of_le_length (by omega), List.take_of_length_le (by omega)]

/-- A place in the list of nodes where an operation cuts it: an index of a node, not before the
first unread byte. -/
structure Cut (b : Buf) (l₁ : List (ℕ × BufferNode)) (a : ℕ) (nd : BufferNode)
    (l₂ : List (ℕ × BufferNode)) (stop : ℤ) : Prop where
  nodes_eq : nodes b = l₁ ++ (a, nd) :: l₂
  nonneg : 0 ≤ stop
  le_sz : stop ≤ nd.sz
  offset_le : l₁ = [] → b.sb.offset ≤ stop

/-- How many unread bytes lie before a cut. -/
def cutPos (b : Buf) (l₁ : List (ℕ × BufferNode)) (stop : ℤ) : ℕ :=
  (total l₁ + stop - b.sb.offset).toNat

/-- A cut lies behind what has been read. -/
theorem Cut.offset_le_total (hc : Cut b l₁ a nd l₂ stop) (h : Inv b) :
    b.sb.offset ≤ total l₁ + stop := by
  rcases l₁ with _ | ⟨x, l₁⟩
  · simpa using hc.offset_le rfl
  · have hx := h.offset_lt x (by simp [hc.nodes_eq])
    have h0 := hc.nonneg
    rw [total_cons]
    have : 0 ≤ total l₁ := total_nonneg fun y hy => h.node_ok y (by simp [hc.nodes_eq, hy])
    omega

/-- A cut lies within the unread bytes. -/
theorem Cut.cutPos_le (hc : Cut b l₁ a nd l₂ stop) (h : Inv b) :
    cutPos b l₁ stop ≤ (content b).length := by
  have hlc := h.length_content
  have hl₂ : 0 ≤ total l₂ := total_nonneg fun y hy => h.node_ok y (by simp [hc.nodes_eq, hy])
  have hle := hc.le_sz
  have hoff := hc.offset_le_total h
  rw [hc.nodes_eq, total_append, total_cons] at hlc
  have hlc' : ((content b).length : ℤ) = total l₁ + (nd.sz + total l₂) - b.sb.offset := hlc
  rw [cutPos]
  omega

/-- `pushpack` returns the unread bytes before the cut and changes nothing. -/
theorem pushpack_spec (h : Inv b) (hc : Cut b l₁ a nd l₂ stop) :
    pushpack (some a) stop b = (.ok ((content b).take (cutPos b l₁ stop)), b) := by
  have hlink := h.queue.linked
  have hlen := hlink.length_le_top
  have hok := h.node_ok
  have hlt := h.offset_lt
  have hle := hc.offset_le_total h
  have h0 := h.offset_nonneg
  rw [content, hc.nodes_eq]
  rw [hc.nodes_eq] at hlink hlen hok hlt
  have hfuel : l₁.length < b.mem.top + 1 := by
    simp only [List.length_append, List.length_cons] at hlen
    omega
  have hhead : ∀ x ∈ l₁.head?, b.sb.offset < x.2.sz := by
    intro x hx
    refine hlt x ?_
    rcases l₁ with _ | ⟨y, l₁⟩
    · cases hx
    · simpa using hx
  have hloop := pushpackLoop_ok hlink hok h0 hhead hc.offset_le hc.nonneg hc.le_sz hfuel
  have hnd : (nd.bytes.length : ℤ) = nd.sz := (hok (a, nd) (by simp)).length_bytes
  have hl₁ : ((raw l₁).length : ℤ) = total l₁ := length_raw fun y hy => hok y (by simp [hy])
  have hs := hc.le_sz
  simp only [pushpack, Prog.bind_apply, Prog.read_apply, Prog.lift_apply, id, hloop]
  simp only [raw_append, raw_cons, ← List.append_assoc, Prod.mk.injEq, Except.ok.injEq, and_true]
  -- counted from the start of the head, the cut lies `offset` further on
  have hpos : b.sb.offset.toNat + cutPos b l₁ stop = (total l₁ + stop).toNat := by
    rw [cutPos]
    omega
  have htake : (raw l₁ ++ nd.bytes ++ raw l₂).take (total l₁ + stop).toNat
      = (raw l₁ ++ nd.bytes).take (total l₁ + stop).toNat :=
    List.take_append_of_le_length (by rw [List.length_append]; omega)
  rw [List.take_drop, hpos, htake]

/-- The part of a node list that a cut leaves. -/
def afterCut (a : ℕ) (nd : BufferNode) (l₂ : List (ℕ × BufferNode)) (stop : ℤ) :
    List (ℕ × BufferNode) :=
  if nd.sz = stop then l₂ else (a, nd) :: l₂

/-- `b'` is what `b` leaves when its first `k` unread bytes are cut off. -/
def Taken (b b' : Buf) (k : ℕ) : Prop :=
  ∃ l₁ a nd l₂ stop, Cut b l₁ a nd l₂ stop ∧ cutPos b l₁ stop = k ∧ nodes b' = afterCut a nd l₂ stop

/-- The unread bytes of nodes, node by node, if the first `off` bytes were read. -/
def unread (off : ℤ) : List (ℕ × BufferNode) → List (List UInt8)
  | [] => []
  | x :: l => x.2.bytes.drop off.toNat :: l.map fun x => x.2.bytes

/-- Without an offset, everything is unread. -/
theorem unread_zero (l : List (ℕ × BufferNode)) : unread 0 l = l.map fun x => x.2.bytes := by
  cases l <;> rfl

/-- The chunks of a buffer are what is unread of its nodes. -/
theorem chunks_eq_unread (b : Buf) : chunks b = unread b.sb.offset (nodes b) := by
  rw [chunks]
  cases nodes b <;> rfl

/-- The loop of `readn` over chunks: where it stops, with the running sum `w` and `q` bytes before
the chunks. -/
def reachScan (n : ℤ) : ℤ → ℕ → List (List UInt8) → Option ℕ
  | _, _, [] => none
  | w, q, x :: xs =>
    let w := wrap (w + x.length)
    if w ≥ n then some (q + (x.length - (w - n).toNat)) else reachScan n w (q + x.length) xs

/-- A cut leaves no more than there was. -/
theorem Cut.total_afterCut_le (hc : Cut b l₁ a nd l₂ stop) (h : Inv b) :
    total (afterCut a nd l₂ stop) ≤ total (nodes b) := by
  have hpos : 0 < nd.sz := (h.node_ok (a, nd) (by simp [hc.nodes_eq])).pos
  have hl₁ : 0 ≤ total l₁ := total_nonneg fun y hy => h.node_ok y (by simp [hc.nodes_eq, hy])
  rw [hc.nodes_eq, total_append, total_cons, afterCut]
  split
  · show total l₂ ≤ total l₁ + (nd.sz + total l₂)
    omega
  · rw [total_cons]
    omega

/-- The loop of `freebuffer` leaves the nodes from the cut on. It runs while `size` counts the
bytes of all nodes, read or not. -/
theorem freebufferLoop_spec {E : Fault → Buf → Prop} (stop : ℤ)
    (hq : Queue b.mem.cell BufferNode.next b.sb.head b.sb.tail (l₁ ++ (a, nd) :: l₂))
    (hsize : b.sb.size = wrap (total (l₁ ++ (a, nd) :: l₂)))
    {fuel : ℕ} (hf : l₁.length < fuel) :
    Prog.wp (freebufferLoop (some a) stop fuel)
      (fun _ b' => Queue b'.mem.cell BufferNode.next b'.sb.head b'.sb.tail (afterCut a nd l₂ stop) ∧
        b'.sb.offset = (if nd.sz = stop then 0 else stop) ∧
        b'.sb.size = wrap (total ((a, nd) :: l₂) - stop) ∧ b'.cmps = b.cmps) E b := by
  induction l₁ generalizing b fuel with
  | nil =>
    obtain ⟨fuel, rfl⟩ : ∃ f, fuel = f + 1 := ⟨fuel - 1, by simp at hf; omega⟩
    obtain ⟨hhead, ha, _⟩ := Seg.cons_iff.mp hq.linked
    have hnot : ∀ x ∈ l₂, x.1 ≠ a := by
      have hnd := hq.linked.nodup
      simp only [List.nil_append, List.map_cons, List.nodup_cons, List.mem_map] at hnd
      exact fun x hx hxa => hnd.1 ⟨x, hx, hxa⟩
    simp only [freebufferLoop, Prog.wp_bind, Prog.wp_read, hhead, Prog.wp_demand_some, load,
      Option.bind_some, ha, if_true]
    -- the node of the cut is the head; it goes only if it is read to its end
    split
    · next hs =>
      simp only [setBuf, release, Prog.wp_bind, Prog.wp_write, afterCut, hs, if_true, true_and]
      refine ⟨hq.pop.congr fun x hx => Heap.free_cell_ne _ (hnot x hx), ?_, trivial⟩
      rw [hsize]
      simp [← hs]
    · next hs =>
      simp only [setBuf, Prog.wp_write, afterCut, hs, if_false, true_and]
      refine ⟨hq, ?_, trivial⟩
      rw [hsize]
      simp
  | cons x l₁ ih =>
    obtain ⟨fuel, rfl⟩ : ∃ f, fuel = f + 1 := ⟨fuel - 1, by simp at hf; omega⟩
    obtain ⟨a', c⟩ := x
    obtain ⟨hhead, ha, _⟩ := Seg.cons_iff.mp hq.linked
    have hnd := hq.linked.nodup
    simp only [List.cons_append, List.map_cons, List.nodup_cons, List.mem_map] at hnd
    have hne : a' ≠ a := fun h => hnd.1 ⟨(a, nd), by simp, h.symm⟩
    simp only [freebufferLoop, Prog.wp_bind, Prog.wp_read, hhead, Prog.wp_demand_some, load,
      Option.bind_some, ha, Option.some.injEq, hne, if_false, setBuf, release, Prog.wp_write]
    -- a node before the cut is freed, and its bytes come off `size`
    refine ih ?_ ?_ (by simpa using hf)
    · exact hq.pop.congr fun x hx => Heap.free_cell_ne _ fun h => hnd.1 ⟨x, hx, h⟩
    · simp only [hsize, List.cons_append, total_cons, wrap_wrap_sub]
      congr 1
      omega

/-- `freebuffer` leaves the unread bytes after the cut. -/
theorem freebuffer_spec {E : Fault → Buf → Prop} (h : Inv b) (hc : Cut b l₁ a nd l₂ stop) :
    Prog.wp (freebuffer (some a) stop)
      (fun _ b' => Inv b' ∧ content b' = (content b).drop (cutPos b l₁ stop) ∧
        nodes b' = afterCut a nd l₂ stop ∧ b'.cmps = b.cmps) E b := by
  have hq := h.queue
  have hok := h.node_ok
  have hlen := hq.linked.length_le_top
  have hle := hc.offset_le_total h
  have h0 := h.offset_nonneg
  have hsz := hc.le_sz
  have hn := hc.nodes_eq
  have hst := hc.nonneg
  rw [hn] at hq hok hlen
  have hnd := hok (a, nd) (by simp)
  have hl₁ : ((raw l₁).length : ℤ) = total l₁ := length_raw fun y hy => hok y (by simp [hy])
  simp only [freebuffer, setBuf, Prog.wp_bind, Prog.wp_write, Prog.wp_read, id]
  have hfuel : l₁.length < b.mem.top + 1 := by
    simp only [List.length_append, List.length_cons] at hlen
    omega
  -- while the loop runs, `size` counts the bytes of the head that were read, too
  have hsize₀ : wrap (b.sb.size + b.sb.offset) = wrap (total (l₁ ++ (a, nd) :: l₂)) := by
    rw [h.size_eq, hn, wrap_wrap_add, sub_add_cancel]
  refine Prog.wp_mono (freebufferLoop_spec stop
    (b := { b with sb := { b.sb with size := wrap (b.sb.size + b.sb.offset) } })
    hq hsize₀ hfuel) ?_
  rintro _ b' ⟨hq', hoff, hsize, hcmps⟩
  have hn' := nodes_eq hq'.linked
  have hok' : ∀ x ∈ afterCut a nd l₂ stop, NodeOk x.2 := by
    intro x hx
    refine hok x ?_
    unfold afterCut at hx
    split at hx <;> simp_all
  refine ⟨.of_queue hq' hok' ?_ ?_ ?_ ?_, ?_, hn', hcmps⟩
  -- the new offset is inside the new head: zero if the head is a whole node, else `stop`
  · rw [hoff]
    split <;> omega
  · intro x hx
    rw [hoff]
    unfold afterCut at hx
    split at hx
    · rw [if_pos ‹_›]
      exact (hok x (by simp [List.mem_of_mem_head? hx])).pos
    · rw [if_neg ‹_›]
      obtain rfl : (a, nd) = x := by simpa using hx
      show stop < nd.sz
      omega
  · intro hnil
    rw [hoff]
    unfold afterCut at hnil
    split at hnil
    · rw [if_pos ‹_›]
    · cases hnil
  · rw [hsize, hoff]
    unfold afterCut
    split
    · next hs =>
      rw [total_cons, ← hs]
      congr 1
      show nd.sz + total l₂ - nd.sz = total l₂ - 0
      omega
    · rfl
  · -- both sides are the bytes of all nodes from `total l₁ + stop` on
    have hlb : (nd.bytes.length : ℤ) = nd.sz := hnd.length_bytes
    rw [content, content, hn', hoff, hn, List.drop_drop]
    have hpos : b.sb.offset.toNat + cutPos b l₁ stop = (raw l₁).length + stop.toNat := by
      rw [cutPos]
      omega
    rw [hpos, raw_append, List.drop_length_add_append]
    unfold afterCut
    split
    · next hs =>
      have hall : stop.toNat = nd.bytes.length := by omega
      rw [raw_cons, hall, List.drop_left, Int.toNat_zero, List.drop_zero]
    · rfl

/-! ## The operations -/

/-- Linking in a fresh node appends it to the list; the last node before it changes its `next`. -/
theorem linkNode_spec {E : Fault → Buf → Prop} (h : Inv b) (hfresh : b.mem.cell a = none)
    (hnext : nd.next = none) :
    Prog.wp (linkNode a)
      (fun _ b' => ∃ l, Queue b'.mem.cell BufferNode.next b'.sb.head b'.sb.tail (l ++ [(a, nd)]) ∧
        l.map (fun x => (x.2.p, x.2.sz)) = (nodes b).map (fun x => (x.2.p, x.2.sz)) ∧
        b'.sb.offset = b.sb.offset ∧ b'.sb.size = b.sb.size ∧ b'.cmps = b.cmps)
      E { b with mem := b.mem.store a nd } := by
  simp only [linkNode, Prog.wp_bind, Prog.wp_read]
  split
  · next hhead =>
    have hnil := h.nodes_eq_nil_iff.mpr hhead
    simp only [setBuf, Prog.wp_write]
    exact ⟨[], .singleton (Heap.store_cell_self _ _ _) hnext, by rw [hnil], trivial, trivial,
      trivial⟩
  · next hhead =>
    obtain ⟨m, t, c, hn, ht, hc, hcn⟩ :=
      h.queue.exists_tail fun hnil => hhead (h.nodes_eq_nil_iff.mp hnil)
    have hta : t ≠ a := by
      rintro rfl
      rw [hfresh] at hc
      cases hc
    have hq := h.queue
    rw [hn] at hq
    have hm : ∀ x ∈ m, x.1 ≠ a ∧ x.1 ≠ t := by
      intro x hx
      refine ⟨?_, ?_⟩
      · rintro rfl
        have := Seg.get_of_mem hq.linked (List.mem_append_left _ hx)
        rw [hfresh] at this
        cases this
      · have hnd := hq.linked.nodup
        rw [List.map_append, List.nodup_append] at hnd
        exact hnd.2.2 _ (List.mem_map_of_mem hx) _ (by simp)
    simp only [ht, Prog.wp_demand_some, load, Prog.wp_bind, Prog.wp_read, Option.bind_some,
      Heap.store_cell_ne _ _ hta, hc, store, setBuf, Prog.wp_write]
    refine ⟨m ++ [(t, { c with next := some a })], ?_, ?_, trivial, trivial, trivial⟩
    · rw [List.append_assoc]
      refine hq.push (fun x hx => ?_) (Heap.store_cell_self _ _ _) rfl ?_ hnext
      · rw [Heap.store_cell_ne _ _ (hm x hx).2, Heap.store_cell_ne _ _ (hm x hx).1]
      · rw [Heap.store_cell_ne _ _ hta.symm, Heap.store_cell_self]
    · rw [hn, List.map_append, List.map_append]
      rfl

/-- The bytes and the sizes of nodes do not depend on how they are linked. -/
theorem total_eq_of_map (h : l₁.map (fun x => (x.2.p, x.2.sz)) = l₂.map fun x => (x.2.p, x.2.sz)) :
    total l₁ = total l₂ := by
  have := congrArg (fun m => (m.map Prod.snd).sum) h
  simpa [List.map_map, Function.comp_def, total] using this

/-- The bytes do not depend on where the nodes are. -/
theorem raw_eq_of_map (h : l₁.map (fun x => (x.2.p, x.2.sz)) = l₂.map fun x => (x.2.p, x.2.sz)) :
    raw l₁ = raw l₂ := by
  have := congrArg (fun m => (m.map fun y => y.1.take y.2.toNat).flatten) h
  simpa [List.map_map, Function.comp_def, raw, BufferNode.bytes] using this

/-- Nor does their order. -/
theorem nodeOk_of_map (h : l₁.map (fun x => (x.2.p, x.2.sz)) = l₂.map fun x => (x.2.p, x.2.sz))
    (hok : ∀ x ∈ l₂, NodeOk x.2) : ∀ x ∈ l₁, NodeOk x.2 := by
  intro x hx
  have hmem : (x.2.p, x.2.sz) ∈ l₂.map fun x => (x.2.p, x.2.sz) := by
    rw [← h]
    exact List.mem_map_of_mem hx
  obtain ⟨y, hy, heq⟩ := List.mem_map.mp hmem
  obtain ⟨hp, hsz⟩ := Prod.mk.inj heq
  have hyok := hok y hy
  exact ⟨hsz ▸ hyok.pos, hsz ▸ hyok.le_max, hsz ▸ hp ▸ hyok.le_length⟩

theorem head_sz_of_map (h : l₁.map (fun x => (x.2.p, x.2.sz)) = l₂.map fun x => (x.2.p, x.2.sz))
    {o : ℤ} (hlt : ∀ x ∈ l₂.head?, o < x.2.sz) : ∀ x ∈ l₁.head?, o < x.2.sz := by
  rcases l₁ with _ | ⟨x, l₁⟩ <;> rcases l₂ with _ | ⟨y, l₂⟩ <;> simp_all

/-- `push` of a block of `sz` bytes appends them, and returns the new `size`. -/
theorem lpush_spec {E : Fault → Buf → Prop} {p : List UInt8} {sz : ℤ} (h : Inv b)
    (hfresh : b.mem.cell a = none) (hpos : 0 < sz) (hmax : sz ≤ INT_MAX) (hp : sz ≤ p.length) :
    Prog.wp (lpush a (some p) sz)
      (fun v b' => Inv b' ∧ content b' = content b ++ p.take sz.toNat ∧ v = .integer b'.sb.size ∧
        total (nodes b') = total (nodes b) + sz ∧ b'.cmps = b.cmps ∧
        chunks b' = chunks b ++ [p.take sz.toNat]) E b := by
  simp only [lpush, wrap_of_nonneg hpos.le hmax, if_neg (not_le.mpr hpos), store, setBuf,
    Prog.wp_bind, Prog.wp_write]
  refine Prog.wp_mono (linkNode_spec h hfresh rfl) ?_
  rintro _ b' ⟨l, hq, hl, hoff, hsize, hcmps⟩
  have hok : ∀ x ∈ l ++ [(a, ⟨p, sz, none⟩)], NodeOk x.2 := by
    intro x hx
    rcases List.mem_append.mp hx with hx | hx
    · exact nodeOk_of_map hl h.node_ok x hx
    · obtain rfl := List.mem_singleton.mp hx
      exact ⟨hpos, hmax, hp⟩
  have htot : total (l ++ [(a, ⟨p, sz, none⟩)]) = total (nodes b) + sz := by
    rw [total_append, total_eq_of_map hl]
    simp
  have hle := h.offset_le_total
  have h0 := h.offset_nonneg
  refine ⟨.of_queue hq hok (hoff ▸ h0) ?_ (by simp) ?_, ?_, rfl, ?_, hcmps, ?_⟩
  · intro x hx
    show b'.sb.offset < x.2.sz
    rw [hoff]
    revert x
    rcases l with _ | ⟨x, l⟩
    · have hnil : nodes b = [] := by simpa using hl.symm
      simpa [h.offset_nil hnil] using hpos
    · simpa using head_sz_of_map hl h.offset_lt
  · show wrap (b'.sb.size + sz) = wrap (total (l ++ [(a, _)]) - b'.sb.offset)
    rw [htot, hsize, hoff, h.size_eq, wrap_wrap_add]
    congr 1
    omega
  · have hn := nodes_eq hq.linked
    have hlen := length_raw h.node_ok
    rw [content, content]
    show (raw (nodes b')).drop b'.sb.offset.toNat = _
    rw [hn, hoff, raw_append, raw_eq_of_map hl, List.drop_append_of_le_length (by omega)]
    simp [BufferNode.bytes]
  · show total (nodes b') = _
    rw [nodes_eq hq.linked, htot]
  -- only the `next` of the old tail has changed, and no chunk depends on it
  · have hbytes : l.map (fun x => x.2.bytes) = (nodes b).map fun x => x.2.bytes := by
      have := congrArg (fun m => m.map fun y => y.1.take y.2.toNat) hl
      simpa [List.map_map, Function.comp_def, BufferNode.bytes] using this
    rw [chunks_eq_unread, chunks_eq_unread]
    show unread b'.sb.offset (nodes b') = _
    rw [nodes_eq hq.linked, hoff]
    rcases l with _ | ⟨x, l⟩
    · have hnil : nodes b = [] := by simpa using hl.symm
      rw [hnil, h.offset_nil hnil]
      rfl
    · rcases hn : nodes b with _ | ⟨y, m⟩
      · simp [hn] at hl
      · rw [hn] at hbytes
        obtain ⟨hx, hl'⟩ := List.cons.inj hbytes
        simp only [unread, List.cons_append, List.map_append, hx, hl']
        rfl

/-- A null pointer or a size that is not positive is not pushed. -/
theorem lpush_reject {p : Option (List UInt8)} {n : ℤ} (hp : p = none ∨ wrap n ≤ 0) :
    lpush a p n b = (.ok .nil, b) := by
  rcases p with _ | p
  · rfl
  · simp only [lpush, if_pos (hp.resolve_left (by simp))]
    rfl

/-- `pop()` returns all unread bytes and leaves the empty buffer. -/
theorem readall_spec (h : Inv b) :
    ∃ v b', readall b = (.ok v, b') ∧ Inv b' ∧ b'.cmps = b.cmps ∧
      if nodes b = [] then v = .nil ∧ b' = b
      else v = .string (content b) ∧ nodes b' = [] := by
  by_cases hhead : b.sb.head = none
  · refine ⟨.nil, b, ?_, h, rfl, ?_⟩
    · simp [readall, hhead]
    · rw [if_pos (h.nodes_eq_nil_iff.mpr hhead)]
      exact ⟨rfl, rfl⟩
  · have hne : nodes b ≠ [] := fun hnil => hhead (h.nodes_eq_nil_iff.mp hnil)
    obtain ⟨m, t, c, hn, ht, hc, _⟩ := h.queue.exists_tail hne
    have hnode := h.node_ok (t, c) (by simp [hn])
    -- everything is the cut at the end of the tail
    have hcut : Cut b m t c [] c.sz := by
      refine ⟨hn, hnode.pos.le, le_refl _, ?_⟩
      rintro rfl
      exact (h.offset_lt (t, c) (by simp [hn])).le
    have hall : cutPos b m c.sz = (content b).length := by
      have := h.length_content
      rw [hn, total_append] at this
      simp only [total_cons, total_nil, add_zero] at this
      rw [cutPos]
      omega
    obtain ⟨_, b', hfree, hinv, _, hnodes, hcmps⟩ :=
      Prog.exists_ok_of_wp (freebuffer_spec h hcut)
    rw [afterCut, if_pos rfl] at hnodes
    have hoff := hinv.offset_nil hnodes
    have hsize : b'.sb.size = 0 := by
      rw [hinv.size_eq, hnodes, hoff]
      rfl
    refine ⟨.string (content b), b', ?_, hinv, hcmps, ?_⟩
    · simp [readall, hhead, ht, hc, load, Prog.check_apply, pushpack_spec h hcut, hall,
        hfree, hsize, hoff]
    · rw [if_neg hne]
      exact ⟨rfl, hnodes⟩

/-- The loop of `readn` stops at the cut after `n` unread bytes (modulo the range of `int`), or
runs to the end because `size` is less than `n`. -/
theorem readnLoop_spec (h : Inv b) {n : ℤ} (hn : 0 < n) (hmax : n ≤ INT_MAX) {p : Option ℕ}
    {off w : ℤ} {fuel : ℕ} (hsplit : nodes b = l₁ ++ l)
    (hl : Linked b.mem.cell BufferNode.next p l) (hoff : off = if l₁ = [] then b.sb.offset else 0)
    (hw : w = wrap (total l₁ - b.sb.offset + off)) (hwn : w < n) (hf : l.length < fuel) {q : ℕ}
    (hq : (q : ℤ) = total l₁ - b.sb.offset + off) :
    ∃ r, readnLoop n fuel p off w b = (.ok r, b) ∧
      match r with
      | none => b.sb.size < n
      | some (a, stop) => ∃ l₁ nd l₂, Cut b l₁ a nd l₂ stop ∧
          wrap (total l₁ + stop - b.sb.offset) = n ∧
          reachScan n w q (unread off l) = some (cutPos b l₁ stop) := by
  induction l generalizing l₁ p off w fuel q with
  | nil =>
    obtain ⟨fuel, rfl⟩ : ∃ f, fuel = f + 1 := ⟨fuel - 1, by simp at hf; omega⟩
    obtain rfl := Seg.nil_iff.mp hl
    refine ⟨none, rfl, ?_⟩
    rw [List.append_nil] at hsplit
    -- every node was passed below `n`, and `size` is the sum over all of them
    show b.sb.size < n
    rw [h.size_eq, hsplit]
    rcases l₁ with _ | ⟨x, l₁⟩
    · rw [h.offset_nil hsplit]
      exact hn
    · rw [hw, hoff, if_neg (by simp), add_zero] at hwn
      exact hwn
  | cons x l ih =>
    obtain ⟨fuel, rfl⟩ : ∃ f, fuel = f + 1 := ⟨fuel - 1, by simp at hf; omega⟩
    obtain ⟨a, nd⟩ := x
    obtain ⟨rfl, ha, hl'⟩ := Seg.cons_iff.mp hl
    have hnd : NodeOk nd := h.node_ok (a, nd) (by simp [hsplit])
    have hpos := hnd.pos
    have hle := hnd.le_max
    have hoff0 : 0 ≤ off ∧ off < nd.sz := by
      rcases l₁ with _ | ⟨y, l₁⟩
      · rw [hoff, if_pos rfl]
        exact ⟨h.offset_nonneg, h.offset_lt (a, nd) (by simp [hsplit])⟩
      · rw [hoff, if_neg (by simp)]
        exact ⟨le_refl _, hnd.pos⟩
    -- the sum after this node counts from the first unread byte of the buffer
    have hstep : wrap (w + (nd.sz - off)) = wrap (total (l₁ ++ [(a, nd)]) - b.sb.offset) := by
      rw [hw, wrap_wrap_add, total_append, total_cons, total_nil]
      congr 1
      show _ = total l₁ + (nd.sz + 0) - b.sb.offset
      omega
    simp only [readnLoop, load, Prog.bind_apply, Prog.read_apply, Option.bind_some, ha,
      Prog.demand_some_apply]
    have hlen : ((nd.bytes.drop off.toNat).length : ℤ) = nd.sz - off := by
      have := hnd.length_bytes
      rw [List.length_drop]
      omega
    by_cases hhit : wrap (w + (nd.sz - off)) ≥ n
    · rw [if_pos hhit]
      -- the running sum reached `n` without wrapping, so the index lies within the node
      have hrange := wrap_range (total l₁ - b.sb.offset + off)
      rw [← hw] at hrange
      have hsum : wrap (w + (nd.sz - off)) = w + (nd.sz - off) :=
        wrap_add_of_le hrange (by omega) (by omega) (hwn.le.trans hhit)
      rw [hsum] at hhit
      have hstop : wrap (nd.sz - wrap (wrap (w + (nd.sz - off)) - n)) =
          nd.sz - (w + (nd.sz - off) - n) := by
        rw [hsum, wrap_of_nonneg (x := w + (nd.sz - off) - n) (by omega) (by omega)]
        exact wrap_of_nonneg (by omega) (by omega)
      rw [hstop]
      refine ⟨_, rfl, l₁, nd, l, ⟨hsplit, by omega, by omega, ?_⟩, ?_, ?_⟩
      · rintro rfl
        rw [if_pos rfl] at hoff
        omega
      · calc wrap (total l₁ + (nd.sz - (w + (nd.sz - off) - n)) - b.sb.offset)
            = wrap (total l₁ - b.sb.offset + off + (n - w)) := by
              congr 1
              omega
          _ = wrap (w + (n - w)) := by rw [← wrap_wrap_add, ← hw]
          _ = n := by rw [add_sub_cancel, wrap_of_nonneg hn.le hmax]
      · show reachScan n w q (nd.bytes.drop off.toNat :: l.map fun x => x.2.bytes) = _
        rw [reachScan, hlen, hsum, if_pos hhit, cutPos]
        congr 1
        omega
    · rw [if_neg hhit]
      -- the next round starts at the next node, with nothing of it read
      have hsplit' : nodes b = (l₁ ++ [(a, nd)]) ++ l := by simp [hsplit]
      have hq' : ((q + (nd.bytes.drop off.toNat).length : ℕ) : ℤ)
          = total (l₁ ++ [(a, nd)]) - b.sb.offset + 0 := by
        rw [total_append, total_cons, total_nil, Nat.cast_add, hlen]
        show (q : ℤ) + (nd.sz - off) = total l₁ + (nd.sz + 0) - b.sb.offset + 0
        omega
      obtain ⟨r, hr, hspec⟩ := ih hsplit' hl' (by simp) (by rw [hstep, add_zero]) (not_le.mp hhit)
        (Nat.lt_of_succ_lt_succ hf) hq'
      refine ⟨r, hr, ?_⟩
      rwa [unread, reachScan, hlen, if_neg hhit, ← unread_zero]

/-- `pop(n)` for `n > 0`: nil and no change if `size` is less than `n`, else the bytes up to a cut
at `n` (modulo the range of `int`) and the buffer after it. -/
theorem readn_spec (h : Inv b) {n : ℤ} (hn : 0 < n) (hmax : n ≤ INT_MAX) :
    ∃ v b', readn n b = (.ok v, b') ∧ Inv b' ∧ b'.cmps = b.cmps ∧
      if b.sb.size < n then v = .nil ∧ b' = b
      else ∃ k : ℕ, k ≤ (content b).length ∧ wrap k = n ∧ v = .string ((content b).take k) ∧
        content b' = (content b).drop k ∧ total (nodes b') ≤ total (nodes b) ∧ Taken b b' k ∧
        reachScan n 0 0 (unread b.sb.offset (nodes b)) = some k := by
  by_cases hsize : b.sb.size < n
  · refine ⟨.nil, b, ?_, h, rfl, ?_⟩
    · simp [readn, hn.ne', hsize]
    · rw [if_pos hsize]
      exact ⟨rfl, rfl⟩
  · have hlen := h.queue.linked.length_le_top
    obtain ⟨r, hloop, hr⟩ := readnLoop_spec h hn hmax (List.nil_append _).symm h.queue.linked
      (if_pos rfl).symm (by simp) hn (Nat.lt_succ_of_le hlen) (q := 0) (by simp)
    rcases r with _ | ⟨a, stop⟩
    · exact absurd hr hsize
    · obtain ⟨l₁, nd, l₂, hcut, hk, hscan⟩ := hr
      obtain ⟨_, b', hfree, hinv, hcont, hnodes, hcmps⟩ :=
        Prog.exists_ok_of_wp (freebuffer_spec h hcut)
      refine ⟨.string ((content b).take (cutPos b l₁ stop)), b', ?_, hinv, hcmps, ?_⟩
      · simp [readn, hn.ne', hsize, hloop, pushpack_spec h hcut, hfree]
      · rw [if_neg hsize]
        refine ⟨cutPos b l₁ stop, hcut.cutPos_le h, ?_, rfl, hcont, hnodes ▸ hcut.total_afterCut_le h,
          ⟨l₁, a, nd, l₂, stop, hcut, rfl, hnodes⟩, hscan⟩
        have := hcut.offset_le_total h
        rw [cutPos, Int.toNat_of_nonneg (by omega)]
        exact hk

/-- `pop(0)` returns the empty string and changes nothing. -/
theorem readn_zero : readn 0 b = (.ok (.string []), b) := by
  simp [readn]

end Lsocket.Buffer
