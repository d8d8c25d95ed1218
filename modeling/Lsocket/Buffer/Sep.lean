import Lsocket.Buffer.Chunks
import Lsocket.Buffer.Queue

/-!
# Popping up to a separator

The loops over nodes and indices do what the scan over chunks of `Chunks` does (`scanLoop_spec`),
and a success of theirs gives two cuts, where the separator begins and where it ends. So the
invariant is kept whatever is found, and what is found is known from the chunks alone.
-/

namespace Lsocket.Buffer

open CInt

variable {b : Buf} {l l₁ l₂ : List (ℕ × BufferNode)} {a : ℕ} {nd : BufferNode} {stop i : ℤ}
variable {sep : ℕ → UInt8} {len : ℕ}

/-! ## Nodes and chunks -/

/-- The bytes of each node. -/
def byteLists (l : List (ℕ × BufferNode)) : List (List UInt8) := l.map fun x => x.2.bytes

/-- The chunks together are what is unread. -/
theorem chunks_flatten (h : Inv b) : (chunks b).flatten = content b := by
  have h0 := h.offset_nonneg
  rw [chunks, content]
  rcases hn : nodes b with _ | ⟨x, l⟩
  · simp
  · have hlt := h.offset_lt x (by simp [hn])
    have hx := (h.node_ok x (by simp [hn])).length_bytes
    simp only [List.flatten_cons, raw_cons]
    rw [List.drop_append_of_le_length (by omega)]
    rfl

/-- A position within a node, among all the bytes. -/
theorem dropBytes_byteLists (hok : ∀ x ∈ l₁ ++ (a, nd) :: l₂, NodeOk x.2) (hi : 0 ≤ i)
    (hlt : i < nd.sz) :
    dropBytes (total l₁ + i).toNat (byteLists (l₁ ++ (a, nd) :: l₂))
      = nd.bytes.drop i.toNat :: byteLists l₂ := by
  induction l₁ with
  | nil =>
    have hnd : (nd.bytes.length : ℤ) = nd.sz := (hok (a, nd) (by simp)).length_bytes
    have hlt' : (total [] + i).toNat < nd.bytes.length := by
      rw [total_nil]
      omega
    simp only [byteLists, List.nil_append, List.map_cons, dropBytes, if_pos hlt']
    rw [total_nil, zero_add]
  | cons x l₁ ih =>
    have hx : (x.2.bytes.length : ℤ) = x.2.sz := (hok x (by simp)).length_bytes
    have ht : 0 ≤ total l₁ := total_nonneg fun y hy => hok y (by simp [hy])
    have hge : ¬ (total (x :: l₁) + i).toNat < x.2.bytes.length := by
      rw [total_cons]
      omega
    have hsub : (total (x :: l₁) + i).toNat - x.2.bytes.length = (total l₁ + i).toNat := by
      rw [total_cons]
      omega
    have hrec := ih fun y hy => hok y (List.mem_cons_of_mem _ hy)
    simp only [byteLists, List.cons_append, List.map_cons, dropBytes, if_neg hge, hsub] at hrec ⊢
    exact hrec

/-- The chunks from a cut on. -/
theorem dropBytes_chunks (h : Inv b) (hc : Cut b l₁ a nd l₂ i) (hlt : i < nd.sz) :
    dropBytes (cutPos b l₁ i) (chunks b) = nd.bytes.drop i.toNat :: byteLists l₂ := by
  have h0 := h.offset_nonneg
  have hi := hc.nonneg
  have hok := h.node_ok
  rw [chunks, cutPos]
  rw [hc.nodes_eq] at hok ⊢
  rcases l₁ with _ | ⟨x, l₁⟩
  · have hoff := hc.offset_le rfl
    have hnd : (nd.bytes.length : ℤ) = nd.sz := (hok (a, nd) (by simp)).length_bytes
    have hin : (total [] + i - b.sb.offset).toNat < (nd.bytes.drop b.sb.offset.toNat).length := by
      rw [List.length_drop, total_nil]
      omega
    have hsum : b.sb.offset.toNat + (total [] + i - b.sb.offset).toNat = i.toNat := by
      rw [total_nil]
      omega
    simp only [List.nil_append, dropBytes, if_pos hin, List.drop_drop, hsum]
    rfl
  -- past the head, what the offset took off its chunk is missing from the count as well
  · have hx : (x.2.bytes.length : ℤ) = x.2.sz := (hok x (by simp)).length_bytes
    have hxlt := h.offset_lt x (by simp [hc.nodes_eq])
    have ht : 0 ≤ total l₁ := total_nonneg fun y hy => hok y (by simp [hy])
    have hge : ¬ (total (x :: l₁) + i - b.sb.offset).toNat
        < (x.2.bytes.drop b.sb.offset.toNat).length := by
      rw [List.length_drop, total_cons]
      omega
    have hsub : (total (x :: l₁) + i - b.sb.offset).toNat
        - (x.2.bytes.drop b.sb.offset.toNat).length = (total l₁ + i).toNat := by
      rw [List.length_drop, total_cons]
      omega
    simp only [List.cons_append, dropBytes, if_neg hge, hsub]
    exact dropBytes_byteLists (fun y hy => hok y (List.mem_cons_of_mem _ hy)) hi hlt

/-! ## One comparison -/

/-- `memcmp` on an unread range of a node. -/
theorem memcmp_ok (hnd : NodeOk nd) (hi : 0 ≤ i) {n m : ℕ} (hm : i + m ≤ nd.sz) :
    memcmp nd.p i sep n m = .ok (agree sep n ((nd.bytes.drop i.toNat).take m) = m,
      { start := n, len := m,
        looked := min (agree sep n ((nd.bytes.drop i.toNat).take m) + 1 : ℕ) m }) := by
  have hle := hnd.le_length
  have hlen := hnd.length_bytes
  have htake : (nd.p.drop i.toNat).take m = (nd.bytes.drop i.toNat).take m := by
    have h := hnd.drop_take hi hm
    rw [show (i + m - i).toNat = m by omega] at h
    rw [h, List.take_drop]
    congr 2
    omega
  have hl : ((nd.bytes.drop i.toNat).take m).length = m := by
    rw [List.length_take, List.length_drop]
    omega
  rw [memcmp, if_neg (by omega)]
  simp only [Int.toNat_natCast, htake, hl]
  push_cast
  rfl

/-- The node of a cut is in the heap, and its `next` starts the nodes after it. -/
theorem Cut.node (hc : Cut b l₁ a nd l₂ i) (h : Inv b) :
    b.mem.cell a = some nd ∧ Linked b.mem.cell BufferNode.next nd.next l₂ ∧ NodeOk nd := by
  have hl := h.queue.linked
  rw [hc.nodes_eq] at hl
  obtain ⟨q, _, hq⟩ := Seg.append_iff.mp hl
  obtain ⟨-, ha, hl₂⟩ := Seg.cons_iff.mp hq
  exact ⟨ha, hl₂, h.node_ok (a, nd) (by simp [hc.nodes_eq])⟩

/-- One round of the loop of `checksep`, at an unread index of a node in the heap. -/
theorem checksepLoop_step {mem : Heap BufferNode} (ha : mem.cell a = some nd) (hnd : NodeOk nd)
    (hi : 0 ≤ i) (hlt : i ≤ nd.sz) {m : ℕ} (hm : m = min (nd.bytes.drop i.toNat).length len)
    (n fuel : ℕ) :
    checksepLoop mem sep len (fuel + 1) a i n =
      let k := agree sep n ((nd.bytes.drop i.toNat).take m)
      let c : Cmp := { start := n, len := m, looked := min (k + 1 : ℕ) m }
      if k = m then
        if n + m ≥ len then .ok (some (a, i + m), [c])
        else
          match nd.next with
          | some next => (checksepLoop mem sep len fuel next 0 (n + m : ℕ)).map
              fun r => (r.1, c :: r.2)
          | none => .ok (none, [c])
      else .ok (none, [c]) := by
  have hlen := hnd.length_bytes
  rw [List.length_drop] at hm
  have hsz : (if nd.sz - i > len then (len : ℤ) else nd.sz - i) = m := by
    split <;> omega
  have hd : deref mem (some a) = .ok nd := by simp [deref, ha]
  simp only [checksepLoop, hd, bind, Except.bind, hsz, memcmp_ok hnd hi (by omega : i + m ≤ nd.sz),
    decide_eq_true_eq, pure, Except.pure]
  split
  · by_cases hend : n + m ≥ len
    · rw [if_pos hend, if_pos (by omega)]
    · rw [if_neg hend, if_neg (by omega)]
      rcases nd.next with _ | next
      · rfl
      · push_cast
        rcases checksepLoop mem sep len fuel next 0 (n + m) with _ | ⟨r, cs⟩ <;> rfl
  · rfl

/-- `checksep` compares as `sepScan` does, and reports a cut. -/
theorem checksepLoop_spec (sep : ℕ → UInt8) (len : ℕ) (h : Inv b) {n : ℕ} (hc : Cut b l₁ a nd l₂ i)
    (hlt : i < nd.sz) {fuel : ℕ} (hf : l₂.length < fuel) :
    ∃ r, checksepLoop b.mem sep len fuel a i n
        = .ok (r, (sepScan sep len (nd.bytes.drop i.toNat :: byteLists l₂) n).2) ∧
      match r with
      | none => (sepScan sep len (nd.bytes.drop i.toNat :: byteLists l₂) n).1 = none
      | some (a', stop) => ∃ l₁' nd' l₂', ∃ t : ℕ, Cut b l₁' a' nd' l₂' stop ∧
          total l₁' + stop = total l₁ + i + t ∧
          (sepScan sep len (nd.bytes.drop i.toNat :: byteLists l₂) n).1 = some t := by
  induction l₂ generalizing l₁ a nd i n fuel with
  | nil =>
    obtain ⟨fuel, rfl⟩ : ∃ f, fuel = f + 1 := ⟨fuel - 1, by simp at hf; omega⟩
    obtain ⟨ha, hnext, hnd⟩ := hc.node h
    -- nothing follows: agreeing to the end of this node without ending the separator is no match
    have hnone : nd.next = none := Seg.nil_iff.mp hnext
    have hi := hc.nonneg
    have hlen := hnd.length_bytes
    obtain ⟨m, hm⟩ : ∃ m, m = min (nd.bytes.drop i.toNat).length len := ⟨_, rfl⟩
    have hmle := hm
    rw [List.length_drop] at hmle
    rw [checksepLoop_step ha hnd hi hlt.le hm, hnone]
    simp only [sepScan, ← hm]
    split
    · split
      · refine ⟨_, rfl, l₁, nd, [], m, ⟨hc.nodes_eq, by omega, by omega, ?_⟩, by omega, rfl⟩
        exact fun hnil => by have := hc.offset_le hnil; omega
      · exact ⟨none, rfl, rfl⟩
    · exact ⟨none, rfl, rfl⟩
  | cons x l₂ ih =>
    obtain ⟨fuel, rfl⟩ : ∃ f, fuel = f + 1 := ⟨fuel - 1, by simp at hf; omega⟩
    obtain ⟨a', nd'⟩ := x
    obtain ⟨ha, hnext, hnd⟩ := hc.node h
    obtain ⟨hnext, -, -⟩ := Seg.cons_iff.mp hnext
    have hi := hc.nonneg
    have hlen := hnd.length_bytes
    obtain ⟨m, hm⟩ : ∃ m, m = min (nd.bytes.drop i.toNat).length len := ⟨_, rfl⟩
    have hmle := hm
    rw [List.length_drop] at hmle
    rw [checksepLoop_step ha hnd hi hlt.le hm, hnext]
    simp only [sepScan, ← hm]
    split
    · split
      · refine ⟨_, rfl, l₁, nd, (a', nd') :: l₂, m, ⟨hc.nodes_eq, by omega, by omega, ?_⟩,
          by omega, rfl⟩
        exact fun hnil => by have := hc.offset_le hnil; omega
      · next hend =>
        -- the rest of this node agrees: go on at the start of the next one
        have hc' : Cut b (l₁ ++ [(a, nd)]) a' nd' l₂ 0 :=
          ⟨by simp [hc.nodes_eq], le_refl 0, (h.node_ok (a', nd') (by simp [hc.nodes_eq])).pos.le,
            by simp⟩
        have hpos := (h.node_ok (a', nd') (by simp [hc.nodes_eq])).pos
        obtain ⟨r, hr, hspec⟩ := ih (n := n + m) hc' hpos
          (Nat.lt_of_succ_lt_succ hf)
        simp only [Int.toNat_zero, List.drop_zero] at hr hspec
        simp only [byteLists, List.map_cons] at hr hspec ⊢
        refine ⟨r, by rw [hr]; rfl, ?_⟩
        rcases r with _ | ⟨c, stop⟩
        · simp only at hspec
          rw [hspec]
          rfl
        · obtain ⟨l₁', nd'', l₂', t, hcut, htot, ht⟩ := hspec
          refine ⟨l₁', nd'', l₂', m + t, hcut, ?_, by rw [ht]; rfl⟩
          rw [htot, total_append, total_cons, total_nil]
          push_cast
          show total l₁ + (nd.sz + 0) + 0 + t = _
          omega
    · exact ⟨none, rfl, rfl⟩

/-- `checksep`, which also records its calls of `memcmp`. -/
theorem checksep_spec (sep : ℕ → UInt8) (len : ℕ) (h : Inv b) (hc : Cut b l₁ a nd l₂ i) (hlt : i < nd.sz) :
    ∃ r, checksep a i sep len b = (.ok r, { b with cmps := b.cmps ++
        (sepScan sep len (dropBytes (cutPos b l₁ i) (chunks b)) 0).2 }) ∧
      match r with
      | none => (sepScan sep len (dropBytes (cutPos b l₁ i) (chunks b)) 0).1 = none
      | some (a', stop) => ∃ l₁' nd' l₂' t, Cut b l₁' a' nd' l₂' stop ∧
          cutPos b l₁' stop = cutPos b l₁ i + t ∧
          (sepScan sep len (dropBytes (cutPos b l₁ i) (chunks b)) 0).1 = some t := by
  have hle := hc.offset_le_total h
  have hf : l₂.length < b.mem.top + 1 := by
    have := h.queue.linked.length_le_top
    rw [hc.nodes_eq, List.length_append, List.length_cons] at this
    omega
  obtain ⟨r, hr, hspec⟩ := checksepLoop_spec sep len (n := 0) h hc hlt hf
  rw [dropBytes_chunks h hc hlt]
  refine ⟨r, ?_, ?_⟩
  · have hr' : checksepLoop b.mem sep len (b.mem.top + 1) a i 0 = _ := hr
    simp [checksep, hr']
  · rcases r with _ | ⟨a', stop⟩
    · exact hspec
    · obtain ⟨l₁', nd', l₂', t, hcut, htot, ht⟩ := hspec
      refine ⟨l₁', nd', l₂', t, hcut, ?_, ht⟩
      rw [cutPos, cutPos, htot]
      omega

/-! ## The loops over positions -/

/-- The invariant does not mention the record of comparisons. -/
theorem Inv.withCmps (h : Inv b) (cs : List Cmp) : Inv { b with cmps := cs } :=
  ⟨h.queue, h.node_ok, h.offset_nonneg, h.offset_lt, h.offset_nil, h.size_eq⟩

/-- A cut does not depend on the calls of `memcmp` so far. -/
theorem Cut.withCmps (hc : Cut b l₁ a nd l₂ i) (cs : List Cmp) :
    Cut { b with cmps := cs } l₁ a nd l₂ i :=
  ⟨hc.nodes_eq, hc.nonneg, hc.le_sz, hc.offset_le⟩

/-- A success at index `i` of the node `a`, that ends at index `stop` of the node `a'`: both are
cuts, and `p` and `t` are where the first one is and how far the second is from it. -/
structure Found (b : Buf) (a : ℕ) (i : ℤ) (a' : ℕ) (stop : ℤ) (p t : ℕ) : Prop where
  begins : ∃ l₁ nd l₂, Cut b l₁ a nd l₂ i ∧ cutPos b l₁ i = p
  ends : ∃ l₁ nd l₂, Cut b l₁ a' nd l₂ stop ∧ cutPos b l₁ stop = p + t

/-- Nor does a separator that was found. -/
theorem Found.withCmps {a' : ℕ} {p t : ℕ} (h : Found b a i a' stop p t) (cs : List Cmp) :
    Found { b with cmps := cs } a i a' stop p t := by
  obtain ⟨⟨l₁, nd, l₂, hc, hp⟩, l₁', nd', l₂', hc', hp'⟩ := h
  exact ⟨⟨l₁, nd, l₂, hc.withCmps cs, hp⟩, l₁', nd', l₂', hc'.withCmps cs, hp'⟩

/-- The inner loop tries `k` positions of one node. -/
theorem scanNode_spec (sep : ℕ → UInt8) (len : ℕ) (h : Inv b) (k : ℕ) (hc : Cut b l₁ a nd l₂ i)
    (hk : i + k ≤ nd.sz) :
    ∃ r, scanNode a sep len k i b = (.ok r, { b with cmps := b.cmps ++
        (scanFrom sep len (chunks b) k (cutPos b l₁ i)).2 }) ∧
      match r with
      | none => (scanFrom sep len (chunks b) k (cutPos b l₁ i)).1 = none
      | some (i', a', stop) => ∃ p t, Found b a i' a' stop p t ∧
          (scanFrom sep len (chunks b) k (cutPos b l₁ i)).1 = some (p, t) := by
  induction k generalizing b i with
  | zero => exact ⟨none, by simp [scanNode, scanFrom], rfl⟩
  | succ k ih =>
    have hle := hc.offset_le_total h
    obtain ⟨r, hr, hspec⟩ := checksep_spec sep len h hc (by omega)
    have hstart : Found b a i a i (cutPos b l₁ i) 0 :=
      ⟨⟨l₁, nd, l₂, hc, rfl⟩, l₁, nd, l₂, hc, rfl⟩
    rcases hscan : sepScan sep len (dropBytes (cutPos b l₁ i) (chunks b)) 0 with ⟨res, cs⟩
    rw [hscan] at hr hspec
    simp only [scanNode, Prog.bind_apply, hr, scanFrom, hscan]
    rcases r with _ | ⟨a', stop⟩
    · obtain rfl : res = none := hspec
      have hc' : Cut b l₁ a nd l₂ (i + 1) :=
        ⟨hc.nodes_eq, by have := hc.nonneg; omega, by omega, fun hl => by
          have := hc.offset_le hl
          omega⟩
      have hpos : cutPos b l₁ (i + 1) = cutPos b l₁ i + 1 := by
        rw [cutPos, cutPos]
        omega
      obtain ⟨r', hr', hspec'⟩ := ih (h.withCmps (b.cmps ++ cs)) (hc'.withCmps _) (by omega)
      have hpos' : cutPos { b with cmps := b.cmps ++ cs } l₁ (i + 1) = cutPos b l₁ i + 1 := hpos
      rw [hpos'] at hr' hspec'
      refine ⟨r', ?_, ?_⟩
      · refine Eq.trans hr' ?_
        simp only [List.append_assoc]
        rfl
      · rcases r' with _ | ⟨i', a', stop⟩
        · exact hspec'
        · obtain ⟨p, t, hfound, hp⟩ := hspec'
          exact ⟨p, t, hfound.withCmps b.cmps, hp⟩
    · obtain ⟨l₁', nd', l₂', t, hcut, hpos, ht⟩ := hspec
      obtain rfl : res = some t := ht
      exact ⟨_, rfl, _, t, ⟨hstart.begins, l₁', nd', l₂', hcut, hpos⟩, rfl⟩

/-- The two loops together try every position of the unread bytes from `q` on. -/
theorem scanLoop_spec (sep : ℕ → UInt8) (len : ℕ) (h : Inv b) {p : Option ℕ} {off : ℤ} {fuel : ℕ}
    (hsplit : nodes b = l₁ ++ l) (hl : Linked b.mem.cell BufferNode.next p l)
    (hoff : off = if l₁ = [] then b.sb.offset else 0) (hf : l.length < fuel) {q k : ℕ}
    (hq : (q : ℤ) = total l₁ - b.sb.offset + off) (hk : q + k = (content b).length) :
    ∃ r, scanLoop sep len fuel p off b = (.ok r, { b with cmps := b.cmps ++
        (scanFrom sep len (chunks b) k q).2 }) ∧
      match r with
      | none => (scanFrom sep len (chunks b) k q).1 = none
      | some (a, i, a', stop) => ∃ p t, Found b a i a' stop p t ∧
          (scanFrom sep len (chunks b) k q).1 = some (p, t) := by
  induction l generalizing b l₁ p off fuel q k with
  | nil =>
    obtain ⟨fuel, rfl⟩ : ∃ f, fuel = f + 1 := ⟨fuel - 1, by simp at hf; omega⟩
    obtain rfl := Seg.nil_iff.mp hl
    have hlc := h.length_content
    have h0 := h.offset_nonneg
    rw [List.append_nil] at hsplit
    -- past the last node no position is left to try
    have hk0 : k = 0 := by
      rcases l₁ with _ | ⟨x, l₁⟩
      · rw [if_pos rfl] at hoff
        rw [hsplit] at hlc
        rw [total_nil] at hlc hq
        omega
      · rw [if_neg (by simp)] at hoff
        rw [hsplit] at hlc
        omega
    subst hk0
    exact ⟨none, by simp [scanLoop, scanFrom], rfl⟩
  | cons x l ih =>
    obtain ⟨fuel, rfl⟩ : ∃ f, fuel = f + 1 := ⟨fuel - 1, by simp at hf; omega⟩
    obtain ⟨a, nd⟩ := x
    obtain ⟨rfl, ha, hl'⟩ := Seg.cons_iff.mp hl
    have hnd : NodeOk nd := h.node_ok (a, nd) (by simp [hsplit])
    have hpos := hnd.pos
    have hoff0 : 0 ≤ off ∧ off < nd.sz ∧ (l₁ = [] → b.sb.offset ≤ off) := by
      rcases l₁ with _ | ⟨y, l₁⟩
      · rw [hoff, if_pos rfl]
        exact ⟨h.offset_nonneg, h.offset_lt (a, nd) (by simp [hsplit]), fun _ => le_refl _⟩
      · rw [hoff, if_neg (by simp)]
        exact ⟨le_refl _, hnd.pos, by simp⟩
    have hcut : Cut b l₁ a nd l off := ⟨hsplit, hoff0.1, hoff0.2.1.le, hoff0.2.2⟩
    have hcq : cutPos b l₁ off = q := by
      rw [cutPos]
      omega
    -- the positions left split into the `m` of this node and those of the later nodes
    obtain ⟨m, hm⟩ : ∃ m : ℕ, m = (nd.sz - off).toNat := ⟨_, rfl⟩
    have hlc := h.length_content
    have htl : 0 ≤ total l := total_nonneg fun y hy => h.node_ok y (by simp [hsplit, hy])
    rw [hsplit, total_append, total_cons] at hlc
    have hlc' : ((content b).length : ℤ) = total l₁ + (nd.sz + total l) - b.sb.offset := hlc
    obtain ⟨k, rfl⟩ : ∃ k', k = m + k' := ⟨k - m, by omega⟩
    obtain ⟨r, hr, hspec⟩ := scanNode_spec sep len h m hcut (by omega)
    rw [hcq] at hr hspec
    simp only [scanLoop, load, Prog.bind_apply, Prog.read_apply, Option.bind_some, ha,
      Prog.demand_some_apply, ← hm, hr, scanFrom_add]
    rcases hscan : scanFrom sep len (chunks b) m q with ⟨res, cs⟩
    rw [hscan] at hspec
    rcases r with _ | ⟨i', a', stop⟩
    · obtain rfl : res = none := hspec
      have hsplit' : nodes b = (l₁ ++ [(a, nd)]) ++ l := hsplit.trans (by simp)
      have hq' : ((q + m : ℕ) : ℤ) = total (l₁ ++ [(a, nd)]) - b.sb.offset + 0 := by
        rw [total_append, total_cons, total_nil]
        show ((q + m : ℕ) : ℤ) = total l₁ + (nd.sz + 0) - b.sb.offset + 0
        omega
      have hk' : q + m + k = (content b).length := by omega
      obtain ⟨r', hr', hspec'⟩ := ih (h.withCmps (b.cmps ++ cs)) hsplit' hl' (by simp)
        (Nat.lt_of_succ_lt_succ hf) hq' hk'
      refine ⟨r', ?_, ?_⟩
      · refine Eq.trans hr' ?_
        simp only [List.append_assoc]
        rfl
      · rcases r' with _ | ⟨a, i, a', stop⟩
        · exact hspec'
        · obtain ⟨p, t, hfound, hp⟩ := hspec'
          exact ⟨p, t, hfound.withCmps b.cmps, hp⟩
    · obtain ⟨p, t, hfound, hp⟩ := hspec
      obtain rfl : res = some (p, t) := hp
      exact ⟨_, rfl, p, t, hfound, rfl⟩

/-- The scan that `readsep` and `lfindsep` make of the whole buffer. -/
def scan (b : Buf) (sep : ℕ → UInt8) (len : ℕ) : Option (ℕ × ℕ) × List Cmp :=
  scanFrom sep len (chunks b) (content b).length 0

/-- The loops, started where `readsep` and `lfindsep` start them. -/
theorem scanLoop_whole (sep : ℕ → UInt8) (len : ℕ) (h : Inv b) :
    ∃ r, scanLoop sep len (b.mem.top + 1) b.sb.head b.sb.offset b
        = (.ok r, { b with cmps := b.cmps ++ (scan b sep len).2 }) ∧
      match r with
      | none => (scan b sep len).1 = none
      | some (a, i, a', stop) => ∃ p t, Found b a i a' stop p t ∧
          (scan b sep len).1 = some (p, t) :=
  scanLoop_spec sep len h (List.nil_append _).symm h.queue.linked (if_pos rfl).symm
    (Nat.lt_succ_of_le h.queue.linked.length_le_top) (by simp) (Nat.zero_add _)

/-- `pop(sep)`, by what the scan finds: nothing, and the buffer stays; or a position, and the bytes
before it are returned and those after the ones taken there stay. -/
theorem readsep_spec (sep : ℕ → UInt8) (len : ℕ) (h : Inv b) :
    ∃ v b', readsep sep len b = (.ok v, b') ∧ Inv b' ∧ b'.cmps = b.cmps ++ (scan b sep len).2 ∧
      match (scan b sep len).1 with
      | none => v = .nil ∧ b'.sb = b.sb ∧ b'.mem = b.mem
      | some (p, t) => p + t ≤ (content b).length ∧ v = .string ((content b).take p) ∧
          content b' = (content b).drop (p + t) ∧ Taken b b' (p + t) := by
  obtain ⟨r, hr, hspec⟩ := scanLoop_whole sep len h
  rcases r with _ | ⟨a, i, a', stop⟩
  · refine ⟨.nil, { b with cmps := b.cmps ++ (scan b sep len).2 }, ?_, h.withCmps _, rfl, ?_⟩
    · simp [readsep, hr]
    · rw [show (scan b sep len).1 = none from hspec]
      exact ⟨rfl, rfl, rfl⟩
  · obtain ⟨p, t, hfound, hp⟩ := hspec
    -- one cut before the separator for the answer, one after it for what is freed
    obtain ⟨⟨l₁, nd, l₂, hcut, hpos⟩, l₁', nd', l₂', hcut', hpos'⟩ :=
      hfound.withCmps (b.cmps ++ (scan b sep len).2)
    obtain ⟨_, b', hfree, hinv, hcont, hnodes, hcmps⟩ :=
      Prog.exists_ok_of_wp (freebuffer_spec (h.withCmps _) hcut')
    have hpush := pushpack_spec (h.withCmps _) hcut
    refine ⟨.string ((content b).take p), b', ?_, hinv, hcmps, ?_⟩
    · rw [hpos] at hpush
      simp only [readsep, Prog.bind_apply, Prog.read_apply, id, hr, hpush, hfree, Prog.pure_apply]
      rfl
    · rw [hp]
      refine ⟨?_, rfl, by rw [← hpos']; exact hcont,
        l₁', a', nd', l₂', stop, hcut'.withCmps b.cmps, hpos', hnodes⟩
      rw [← hpos']
      exact hcut'.cutPos_le (h.withCmps _)

end Lsocket.Buffer
