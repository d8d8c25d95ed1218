import Lsocket.Buffer.Behave

/-!
# `pop` with a number

`lpop` turns a Lua integer into a `uint32_t`, and `readn` takes it as an `int`. So a number outside the
range of `int` stands for another one, and a negative `int` reaches `pushpack` as a length.
`popsExactly_iff` says which numbers are popped as they should be; as long as the unread bytes add up to an
`int`, these are the ones up to their number, and those beyond that stand for more or, in an empty buffer,
for less than nothing (`plain_iff_of_le`).
-/

namespace Lsocket.Buffer

open CInt

variable {b b' : Buf} {l₁ l₂ : List (ℕ × BufferNode)} {a : ℕ} {nd : BufferNode} {stop n : ℤ}
variable {cs : List (List UInt8)}

/-! ## The copies that `pushpack` makes -/

/-- One call `luaL_addlstring(&b, current->p+offset, len)`. -/
structure Copy where
  node : BufferNode
  offset : ℤ
  len : ℤ

/-- The bytes copied lie within the node. -/
def Copy.Within (c : Copy) : Prop := 0 ≤ c.offset ∧ 0 ≤ c.len ∧ c.offset + c.len ≤ c.node.sz

/-- The calls made by the loop of `pushpack`. -/
def pushpackCopies (mem : Heap BufferNode) (node : Option ℕ) (stop : ℤ) : ℕ → Option ℕ → ℤ → List Copy
  | 0, _, _ => []
  | fuel + 1, current, offset =>
    match deref mem current with
    | .error _ => []
    | .ok c =>
      if current ≠ node then ⟨c, offset, c.sz - offset⟩ :: pushpackCopies mem node stop fuel c.next 0
      else [⟨c, offset, stop - offset⟩]

/-- The calls made by `readn`. -/
def readnCopies (n : ℤ) (b : Buf) : List Copy :=
  if n = 0 ∨ b.sb.size < n then []
  else
    match (readnLoop n (b.mem.top + 1) b.sb.head b.sb.offset 0 b).1 with
    | .ok (some (current, stop)) =>
      pushpackCopies b.mem (some current) stop (b.mem.top + 1) b.sb.head b.sb.offset
    | _ => []

/-- Up to a cut all copies lie within their nodes. -/
theorem pushpackCopies_within {mem : Heap BufferNode} {p : Option ℕ} {offset : ℤ}
    (hl : Linked mem.cell BufferNode.next p (l₁ ++ (a, nd) :: l₂))
    (hok : ∀ x ∈ l₁ ++ (a, nd) :: l₂, NodeOk x.2) (h0 : 0 ≤ offset)
    (hlt : ∀ x ∈ l₁.head?, offset < x.2.sz) (hstart : l₁ = [] → offset ≤ stop) (hstop : 0 ≤ stop)
    (hend : stop ≤ nd.sz) (fuel : ℕ) :
    ∀ c ∈ pushpackCopies mem (some a) stop fuel p offset, c.Within := by
  -- by the nodes before the one where the answer ends; only the first starts at an offset
  induction l₁ generalizing p offset fuel with
  | nil =>
    rcases fuel with _ | fuel
    · nofun
    obtain ⟨rfl, ha, _⟩ := Seg.cons_iff.mp hl
    have hd : deref mem (some a) = .ok nd := by simp [deref, ha]
    simp only [pushpackCopies, hd, ne_eq, not_true_eq_false, if_false, List.mem_singleton]
    rintro c rfl
    exact ⟨h0, sub_nonneg.mpr (hstart rfl), by simpa using hend⟩
  | cons x l₁ ih =>
    rcases fuel with _ | fuel
    · nofun
    obtain ⟨a', c⟩ := x
    have hne : a' ≠ a := by
      have hnd := hl.nodup
      simp only [List.cons_append, List.map_cons, List.nodup_cons, List.map_append, List.mem_append,
        List.mem_cons, not_or] at hnd
      exact hnd.1.2.1
    obtain ⟨rfl, ha, hl'⟩ := Seg.cons_iff.mp hl
    have hclt : offset < c.sz := hlt (a', c) (by simp)
    have hd : deref mem (some a') = .ok c := by simp [deref, ha]
    have hrec := ih hl' (fun y hy => hok y (List.mem_cons_of_mem _ hy)) (le_refl 0)
      (fun y hy => (hok y (by simp [List.mem_of_mem_head? hy])).pos) (fun _ => hstop) fuel
    simp only [pushpackCopies, hd, ne_eq, Option.some.injEq, hne, not_false_eq_true, if_true,
      List.mem_cons]
    rintro d (rfl | hd')
    · exact ⟨h0, sub_nonneg.mpr hclt.le, by simp⟩
    · exact hrec d hd'

/-- The calls of `luaL_addlstring` up to a cut lie within their nodes. -/
theorem Cut.copies_within (hc : Cut b l₁ a nd l₂ stop) (h : Inv b) :
    ∀ c ∈ pushpackCopies b.mem (some a) stop (b.mem.top + 1) b.sb.head b.sb.offset, c.Within := by
  have hlink := h.queue.linked
  have hok := h.node_ok
  have hlt := h.offset_lt
  rw [hc.nodes_eq] at hlink hok hlt
  refine pushpackCopies_within hlink hok h.offset_nonneg (fun x hx => hlt x ?_) hc.offset_le hc.nonneg
    hc.le_sz _
  rcases l₁ with _ | ⟨y, l₁⟩
  · cases hx
  · simpa using hx

/-! ## Where the running sum arrives -/

/-- The running sum of `readn`, an `int`, reaches `n` in the chunk in which the `n`-th byte lies, and in
none before it; `q` bytes lie before the chunks. -/
def Counts (n : ℤ) : ℤ → List (List UInt8) → Prop
  | _, [] => False
  | q, x :: xs =>
    if n ≤ q + x.length then wrap n ≤ wrap (q + x.length)
    else wrap (q + x.length) < wrap n ∧ Counts n (q + x.length) xs

/-- The loop stops behind the bytes before the chunks. -/
theorem lt_of_reachScan {m : ℤ} {q k : ℕ} (hm : 0 < m) (hw : wrap q < m)
    (hle : ∀ x ∈ cs, (x.length : ℤ) ≤ INT_MAX) (hr : reachScan m (wrap q) q cs = some k) : q < k := by
  induction cs generalizing q with
  | nil => cases hr
  | cons x xs ih =>
    have hx := hle x List.mem_cons_self
    rw [reachScan, wrap_wrap_add] at hr
    by_cases hhit : wrap (q + x.length) ≥ m
    · rw [if_pos hhit] at hr
      obtain rfl := Option.some.inj hr
      unfold INT_MAX at hx
      unfold wrap at *
      omega
    · rw [if_neg hhit] at hr
      have hrec := ih (q := q + x.length) (by push_cast; omega)
        (fun y hy => hle y (List.mem_cons_of_mem _ hy)) (by push_cast; exact hr)
      omega

/-- The loop for an `int` `m` stops behind exactly `n` bytes if the running sum arrives there. -/
theorem reachScan_eq_iff {q k : ℕ} (hpos : 0 < wrap n) (hq : (q : ℤ) < n) (hw : wrap q < wrap n)
    (hle : ∀ x ∈ cs, (x.length : ℤ) ≤ INT_MAX) (hr : reachScan (wrap n) (wrap q) q cs = some k) :
    (k : ℤ) = n ↔ Counts n q cs := by
  induction cs generalizing q with
  | nil => cases hr
  | cons x xs ih =>
    have hx := hle x List.mem_cons_self
    have hrest (hmiss : ¬ wrap (q + x.length) ≥ wrap n)
        (hr : reachScan (wrap n) (wrap (q + x.length)) (q + x.length) xs = some k) :
        q + x.length < k :=
      lt_of_reachScan hpos (by push_cast; omega) (fun y hy => hle y (List.mem_cons_of_mem _ hy))
        (by push_cast; exact hr)
    rw [reachScan, wrap_wrap_add] at hr
    rw [Counts]
    -- the `n`-th byte lies in this chunk, or in a later one
    by_cases hin : n ≤ q + x.length
    · rw [if_pos hin]
      by_cases hhit : wrap (q + x.length) ≥ wrap n
      · rw [if_pos hhit] at hr
        obtain rfl := Option.some.inj hr
        refine iff_of_true ?_ hhit
        unfold INT_MAX at hx
        unfold wrap at *
        omega
      · rw [if_neg hhit] at hr
        -- the sum has wrapped, and the loop runs past the byte
        have := hrest hhit hr
        exact iff_of_false (by omega) hhit
    · rw [if_neg hin]
      by_cases hhit : wrap (q + x.length) ≥ wrap n
      · rw [if_pos hhit] at hr
        obtain rfl := Option.some.inj hr
        refine iff_of_false ?_ fun h => absurd h.1 (not_lt.mpr hhit)
        unfold INT_MAX at hx
        unfold wrap at *
        omega
      · rw [if_neg hhit] at hr
        rw [and_iff_right (not_le.mp hhit)]
        have hrec := ih (q := q + x.length) (by push_cast; omega) (by push_cast; omega)
          (fun y hy => hle y (List.mem_cons_of_mem _ hy)) (by push_cast; exact hr)
        rwa [Nat.cast_add] at hrec

/-- As long as the bytes add up to an `int`, the sum arrives. -/
theorem counts_of_le {q : ℤ} (hq0 : 0 ≤ q) (hq : q < n) (hn : n ≤ q + cs.flatten.length)
    (hmax : q + cs.flatten.length ≤ INT_MAX) : Counts n q cs := by
  induction cs generalizing q with
  | nil =>
    simp only [List.flatten_nil, List.length_nil] at hn
    omega
  | cons x xs ih =>
    rw [List.flatten_cons, List.length_append, Nat.cast_add] at hn hmax
    have hwn : wrap n = n := wrap_of_nonneg (by omega) (by omega)
    have hwx : wrap (q + x.length) = q + x.length := wrap_of_nonneg (by omega) (by omega)
    rw [Counts, hwn, hwx]
    split
    · assumption
    · next hlt => exact ⟨not_le.mp hlt, ih (by omega) (by omega) (by omega) (by omega)⟩

/-- A chunk is part of a node. -/
theorem length_chunk_le (h : Inv b) : ∀ x ∈ chunks b, (x.length : ℤ) ≤ INT_MAX := by
  have hnode (y : ℕ × BufferNode) (hy : y ∈ nodes b) : (y.2.bytes.length : ℤ) ≤ INT_MAX :=
    (h.node_ok y hy).length_bytes ▸ (h.node_ok y hy).le_max
  rw [chunks_eq_unread]
  rcases hn : nodes b with _ | ⟨y, l⟩
  · nofun
  intro x hx
  rcases List.mem_cons.mp hx with rfl | hx
  · have := hnode y (by simp [hn])
    rw [List.length_drop]
    omega
  · obtain ⟨z, hz, rfl⟩ := List.mem_map.mp hx
    exact hnode z (by simp [hn, hz])

/-! ## The copies of `readn` -/

/-- So do those of `readn`, in a buffer that is in order. -/
theorem readnCopies_within (h : Inv b) (hn : 0 < n) (hmax : n ≤ INT_MAX) :
    ∀ c ∈ readnCopies n b, c.Within := by
  rw [readnCopies]
  split
  · nofun
  obtain ⟨r, hloop, hr⟩ := readnLoop_spec h hn hmax (List.nil_append _).symm h.queue.linked
    (if_pos rfl).symm (by simp) hn (Nat.lt_succ_of_le h.queue.linked.length_le_top) (q := 0) (by simp)
  rw [hloop]
  rcases r with _ | ⟨a, stop⟩
  · nofun
  · obtain ⟨l₁, nd, l₂, hcut, -, -⟩ := hr
    exact hcut.copies_within h

/-- A negative number that reaches the loop is handed on as a length. -/
theorem readnCopies_neg (h : Inv b) (hn : n < 0) (hmin : -2147483648 ≤ n) (hsize : ¬ b.sb.size < n)
    (hne : nodes b ≠ []) : ∃ c ∈ readnCopies n b, ¬ c.Within := by
  obtain ⟨⟨a, nd⟩, l, hl⟩ := List.exists_cons_of_ne_nil hne
  have hloop := readnLoop_neg h hn hmin hl
  have hlink := h.queue.linked
  rw [hl] at hlink
  obtain ⟨hhead, ha, -⟩ := Seg.cons_iff.mp hlink
  have hd : deref b.mem (some a) = .ok nd := by simp [deref, ha]
  refine ⟨⟨nd, b.sb.offset, b.sb.offset + n - b.sb.offset⟩, ?_, fun hw => ?_⟩
  · rw [readnCopies, if_neg (not_or.mpr ⟨hn.ne, hsize⟩), hloop]
    simp [pushpackCopies, hhead, hd]
  · have hlen : 0 ≤ b.sb.offset + n - b.sb.offset := hw.2.1
    omega

/-! ## Which numbers are popped exactly -/

/-- `pop(n)` copies from within the nodes only; it pops the first `n` bytes if there are as many, and
otherwise returns nil or raises an error, and changes nothing. -/
structure PopsExactly (b : Buf) (n : ℤ) : Prop where
  within : ∀ c ∈ readnCopies (wrap (n % 4294967296)) b, c.Within
  first : 0 ≤ n → n ≤ (content b).length → ∃ b', lpop (.number n) b =
    (.ok (.string ((content b).take n.toNat)), b') ∧ content b' = (content b).drop n.toNat
  beyond : ¬ (0 ≤ n ∧ n ≤ (content b).length) →
    lpop (.number n) b = (.ok .nil, b) ∨ lpop (.number n) b = (.error .luaError, b)

/-- A number up to the number of unread bytes whose `int` is positive, is not more than `size`, and is
what the running sum arrives at; or another one whose `int` is more than `size`, or is negative in an
empty buffer. -/
def Plain (b : Buf) (n : ℤ) : Prop :=
  if 0 ≤ n ∧ n ≤ (content b).length then
    n = 0 ∨ 0 < wrap n ∧ wrap n ≤ b.sb.size ∧ Counts n 0 (chunks b)
  else wrap n ≠ 0 ∧ (b.sb.size < wrap n ∨ wrap n < 0 ∧ content b = [])

/-- `uint32_t`, and then `int`. -/
theorem wrap_mod (n : ℤ) : wrap (n % 4294967296) = wrap n := by
  unfold wrap
  omega

/-- A number is converted to `uint32_t` and then to `int`. -/
theorem lpop_number (n : ℤ) (b : Buf) : lpop (.number n) b = readn (wrap n) b := by
  rw [← wrap_mod]
  rfl

/-- A number whose `int` is zero is popped right only if it is zero. -/
theorem popsExactly_iff_zero (hz : wrap n = 0) : PopsExactly b n ↔ Plain b n := by
  have hcall : lpop (.number n) b = (.ok (.string []), b) := by rw [lpop_number, hz, readn_zero]
  rw [Plain]
  split
  · next hin =>
    rw [hz, or_iff_left fun h => absurd h.1 (lt_irrefl 0)]
    constructor
    · intro hex
      obtain ⟨b', hr, -⟩ := hex.first hin.1 hin.2
      rw [hcall] at hr
      have hlen := congrArg List.length (Buffer.LuaValue.string.inj (Except.ok.inj (Prod.mk.inj hr).1))
      rw [List.length_nil, List.length_take] at hlen
      omega
    · rintro rfl
      exact ⟨by simp [readnCopies], fun _ _ => ⟨b, by simpa using hcall, by simp⟩, fun h => absurd hin h⟩
  · next hout =>
    refine iff_of_false (fun hex => ?_) fun h => h.1 hz
    rcases hex.beyond hout with hr | hr <;> rw [hcall] at hr <;> cases hr

/-- A number whose `int` is negative: `readn` compares it with `size`, and goes on to a loop that never
gets there. -/
theorem popsExactly_iff_neg (h : Inv b) (hn : wrap n < 0) : PopsExactly b n ↔ Plain b n := by
  have hcall := readn_neg h hn (wrap_range n).1
  rw [← lpop_number] at hcall
  rw [Plain]
  split
  · next hin =>
    refine iff_of_false (fun hex => ?_) fun hp => ?_
    · obtain ⟨b', hr, -⟩ := hex.first hin.1 hin.2
      rw [hcall] at hr
      split at hr <;> cases hr
    · rcases hp with rfl | hp
      · rw [wrap_zero] at hn
        exact absurd hn (lt_irrefl 0)
      · exact absurd hp.1 (not_lt.mpr hn.le)
  · next hout =>
    rw [and_iff_right hn.ne, and_iff_right hn, h.content_eq_nil_iff]
    constructor
    · intro hex
      by_contra hnot
      rw [not_or] at hnot
      -- the loop would hand the number on as a length
      obtain ⟨c, hc, hw⟩ := readnCopies_neg h hn (wrap_range n).1 hnot.1 hnot.2
      exact hw (hex.within c (by rwa [wrap_mod]))
    · intro hp
      rw [if_pos hp] at hcall
      refine ⟨?_, fun h0 h1 => absurd ⟨h0, h1⟩ hout, fun _ => .inl hcall⟩
      rw [wrap_mod, readnCopies]
      split
      · nofun
      · next hloop =>
        have hnil := h.nodes_eq_nil_iff.mp (hp.resolve_left fun hlt => hloop (.inr hlt))
        simp [hnil, readnLoop]

/-- A number whose `int` is positive. -/
theorem popsExactly_iff_pos (h : Inv b) (hn : 0 < wrap n) : PopsExactly b n ↔ Plain b n := by
  obtain ⟨v, b', hcall, -, -, hcase⟩ := readn_spec h hn (wrap_range n).2
  rw [← lpop_number] at hcall
  have hwithin : ∀ c ∈ readnCopies (wrap (n % 4294967296)) b, c.Within := by
    rw [wrap_mod]
    exact readnCopies_within h hn (wrap_range n).2
  have hne : n ≠ 0 := by
    rintro rfl
    exact absurd hn (by decide)
  rw [Plain]
  by_cases hsize : b.sb.size < wrap n
  · rw [if_pos hsize] at hcase
    obtain ⟨rfl, rfl⟩ := hcase
    split
    · next hin =>
      refine iff_of_false (fun hex => ?_) fun hp => absurd (hp.resolve_left hne).2.1 (not_le.mpr hsize)
      obtain ⟨_, hr, -⟩ := hex.first hin.1 hin.2
      rw [hcall] at hr
      cases hr
    · next hout =>
      exact iff_of_true ⟨hwithin, fun h0 h1 => absurd ⟨h0, h1⟩ hout, fun _ => .inl hcall⟩
        ⟨hn.ne', .inl hsize⟩
  rw [if_neg hsize] at hcase
  -- bytes were popped; they are as many as asked for if the running sum met the number without a wrap
  obtain ⟨k, hk, -, rfl, hcont, -, -, hscan⟩ := hcase
  split
  · next hin =>
    have hiff := reachScan_eq_iff (q := 0) hn (by omega) (by simpa using hn) (length_chunk_le h)
      (by rw [chunks_eq_unread]; simpa using hscan)
    rw [or_iff_right hne, and_iff_right hn, and_iff_right (not_lt.mp hsize), ← Nat.cast_zero, ← hiff]
    constructor
    · intro hex
      obtain ⟨_, hr, -⟩ := hex.first hin.1 hin.2
      rw [hcall] at hr
      have hlen := congrArg List.length (Buffer.LuaValue.string.inj (Except.ok.inj (Prod.mk.inj hr).1))
      rw [List.length_take, List.length_take] at hlen
      omega
    · intro hk'
      have htoNat : n.toNat = k := by omega
      exact ⟨hwithin, fun _ _ => ⟨b', by rw [htoNat]; exact hcall, by rw [htoNat]; exact hcont⟩,
        fun h => absurd hin h⟩
  · next hout =>
    refine iff_of_false (fun hex => ?_) fun hp => ?_
    · rcases hex.beyond hout with hr | hr <;> rw [hcall] at hr <;> cases hr
    · rcases hp.2 with hp | hp
      · exact hsize hp
      · exact absurd hp.1 (not_lt.mpr hn.le)

/-- In every state that a run reaches, `pop` is exact for the plain numbers only. -/
theorem popsExactly_iff (h : calls.Reach b) (n : ℤ) : PopsExactly b n ↔ Plain b n := by
  have hinv := inv_of_reach h
  rcases lt_trichotomy (wrap n) 0 with hn | hn | hn
  · exact popsExactly_iff_neg hinv hn
  · exact popsExactly_iff_zero hn
  · exact popsExactly_iff_pos hinv hn

/-- As long as an `int` counts the unread bytes: the numbers up to theirs, those that stand for more, and,
in an empty buffer, those that stand for less than nothing. -/
theorem plain_iff_of_le (h : Inv b) (hmax : ((content b).length : ℤ) ≤ INT_MAX) :
    Plain b n ↔ (0 ≤ n ∧ n ≤ (content b).length) ∨ ((content b).length : ℤ) < wrap n ∨
      (wrap n < 0 ∧ content b = []) := by
  have hsize : b.sb.size = (content b).length := by
    rw [h.size_eq_chunks, chunks_flatten h, wrap_of_nonneg (Int.natCast_nonneg _) hmax]
  rw [Plain, hsize]
  split
  · next hin =>
    refine iff_of_true ?_ (.inl hin)
    rcases hin.1.eq_or_lt with hz | hpos
    · exact .inl hz.symm
    · rw [wrap_of_nonneg hin.1 (by omega)]
      have hlen := congrArg List.length (chunks_flatten h)
      exact .inr ⟨hpos, hin.2, counts_of_le le_rfl hpos (by omega) (by omega)⟩
  · next hout =>
    rw [or_iff_right hout]
    refine and_iff_right_of_imp ?_
    rintro (hlt | ⟨hneg, -⟩)
    · exact ((Int.natCast_nonneg _).trans_lt hlt).ne'
    · exact hneg.ne

/-- One block, `a`. -/
def singleByte : Buf := (lpush 0 (some [97]) 1 lnew).2

/-- The buffer of the example is reached. -/
theorem reach_singleByte : calls.Reach singleByte :=
  .step (l := .push 0 (some [97]) 1) (.init rfl) ⟨by decide, .inl ⟨.integer 1, rfl⟩⟩

theorem popsExactly_iff_one : PopsExactly singleByte 1 :=
  (popsExactly_iff reach_singleByte 1).mpr
    ((plain_iff_of_le (inv_of_reach reach_singleByte) (by decide)).mpr (.inl (by decide)))

/-- A number of more than 32 bits stands for a small one: one byte is popped where there are not as many
as asked for. -/
theorem not_popsExactly_long : calls.Reach singleByte ∧ ¬ PopsExactly singleByte 4294967297 := by
  refine ⟨reach_singleByte, fun h => ?_⟩
  have hpop : (lpop (.number 4294967297) singleByte).1 = .ok (.string [97]) := by decide
  rcases h.beyond (by decide) with hr | hr <;> rw [hr] at hpop <;> cases hpop

end Lsocket.Buffer
