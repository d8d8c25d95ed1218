import Lsocket.Buffer.Sep
import Lsocket.Lib.System

/-!
# Runs of a buffer

Lua code calls `push`, `pop` and `findsep` on a buffer in any order. `Inv` holds after every call,
whatever it is given and also if it raises an error (`Inv.call`). As long as the nodes held add up
to an `int`, the buffer is a queue of bytes: `push` and `pop` do to the unread bytes what `flatCall`
does to a list (`byteCall_spec`).
-/

namespace Lsocket.Buffer

open CInt

variable {b b' : Buf} {op : Op} {v : LuaValue}

/-! ## The system -/

/-- Whether the outside keeps its side of a call: `malloc` returns an address that is not in use,
and the block pushed is as long as the size given with it says. -/
def Op.Allowed (b : Buf) : Op → Prop
  | .push a p n => b.mem.cell a = none ∧ ∀ block ∈ p, wrap n ≤ block.length
  | .pop _ => True
  | .findsep _ => True

instance (b : Buf) : (op : Op) → Decidable (op.Allowed b)
  | .push a p n =>
    inferInstanceAs (Decidable (b.mem.cell a = none ∧ ∀ block ∈ p, wrap n ≤ block.length))
  | .pop _ => .isTrue trivial
  | .findsep _ => .isTrue trivial

/-- The calls on a buffer made by `lnew`. A call that raises a Lua error can be caught and followed
by others. -/
def calls : System Buf Op where
  init b := b = lnew
  step b op b' := op.Allowed b ∧
    ((∃ v, op.call b = (.ok v, b')) ∨ op.call b = (.error .luaError, b'))

/-! ## The remaining cases of `pop` -/

/-- A negative number stops the loop of `readn` in the first node, before its first unread byte. -/
theorem readnLoop_neg (h : Inv b) {n : ℤ} (hn : n < 0) (hmin : -2147483648 ≤ n) {a : ℕ}
    {nd : BufferNode} {l : List (ℕ × BufferNode)} (hl : nodes b = (a, nd) :: l) :
    readnLoop n (b.mem.top + 1) b.sb.head b.sb.offset 0 b = (.ok (some (a, b.sb.offset + n)), b) := by
  have hlink := h.queue.linked
  rw [hl] at hlink
  obtain ⟨hhead, ha, -⟩ := Seg.cons_iff.mp hlink
  have hnd : NodeOk nd := h.node_ok (a, nd) (by simp [hl])
  have hle := hnd.le_max
  have h0 := h.offset_nonneg
  have hlt : b.sb.offset < nd.sz := h.offset_lt (a, nd) (by simp [hl])
  have hge : wrap (0 + (nd.sz - b.sb.offset)) ≥ n := by
    rw [wrap_of_nonneg (by omega) (by omega)]
    omega
  have hstop : wrap (nd.sz - wrap (wrap (0 + (nd.sz - b.sb.offset)) - n)) = b.sb.offset + n := by
    unfold INT_MAX at hle
    unfold wrap
    omega
  simp only [hhead, readnLoop, load, Prog.bind_apply, Prog.read_apply, Option.bind_some, ha,
    Prog.demand_some_apply, if_pos hge, hstop]
  rfl

/-- `pop(n)` for a negative `n` changes nothing, and raises an error if it reaches the loop. -/
theorem readn_neg (h : Inv b) {n : ℤ} (hn : n < 0) (hmin : -2147483648 ≤ n) :
    readn n b = (if b.sb.size < n ∨ nodes b = [] then .ok .nil else .error .luaError, b) := by
  by_cases hsize : b.sb.size < n
  · simp [readn, hn.ne, hsize]
  rcases hl : nodes b with _ | ⟨⟨a, nd⟩, l⟩
  · have hhead := h.nodes_eq_nil_iff.mp hl
    simp [readn, hn.ne, hsize, hhead, readnLoop]
  · rw [if_neg (by simp [hsize])]
    have hloop := readnLoop_neg h hn hmin hl
    have hlink := h.queue.linked
    rw [hl] at hlink
    obtain ⟨hhead, ha, -⟩ := Seg.cons_iff.mp hlink
    have hd : deref b.mem (some a) = .ok nd := by simp [deref, ha]
    have hpush : pushpack (some a) (b.sb.offset + n) b = (.error .luaError, b) := by
      simp [pushpack, pushpackLoop, hhead, hd, bind, Except.bind, addlstring, hn]
    simp [readn, hn.ne, hsize, hloop, hpush]

/-- With a negative length, `checksep` hands `memcmp` a huge size, unless there is nothing to
compare. -/
theorem scanLoop_neg (h : Inv b) (sep : ℕ → UInt8) {n : ℤ} (hn : n < 0) :
    (nodes b = [] ∧ scanLoop sep n (b.mem.top + 1) b.sb.head b.sb.offset b = (.ok none, b)) ∨
      (nodes b ≠ [] ∧
        scanLoop sep n (b.mem.top + 1) b.sb.head b.sb.offset b = (.error .wild, b)) := by
  rcases hl : nodes b with _ | ⟨⟨a, nd⟩, l⟩
  · left
    have hhead := h.nodes_eq_nil_iff.mp hl
    simp [hhead, scanLoop]
  · right
    have hlink := h.queue.linked
    rw [hl] at hlink
    obtain ⟨hhead, ha, -⟩ := Seg.cons_iff.mp hlink
    have hlt : b.sb.offset < nd.sz := h.offset_lt (a, nd) (by simp [hl])
    obtain ⟨k, hk⟩ : ∃ k, (nd.sz - b.sb.offset).toNat = k + 1 :=
      ⟨(nd.sz - b.sb.offset).toNat - 1, by omega⟩
    have hd : deref b.mem (some a) = .ok nd := by simp [deref, ha]
    have hgt : nd.sz - b.sb.offset > n := by omega
    have hcheck : checksep a b.sb.offset sep n b = (.error .wild, b) := by
      simp [checksep, checksepLoop, hd, bind, Except.bind, hgt, memcmp, hn]
    refine ⟨by simp, ?_⟩
    simp [hhead, scanLoop, load, ha, hk, scanNode, hcheck]

/-- `findsep`, by what the scan finds. Nothing changes. -/
theorem lfindsep_spec (sep : LuaString) (len : ℕ) (h : Inv b)
    (hlen : wrap sep.bytes.length = len) :
    lfindsep sep b = (.ok (if (scan b sep.mem len).1 = none then .nil else .true),
      { b with cmps := b.cmps ++ (scan b sep.mem len).2 }) := by
  obtain ⟨r, hr, hspec⟩ := scanLoop_whole sep.mem len h
  simp only [lfindsep, Prog.bind_apply, Prog.read_apply, id, hlen, hr]
  rcases r with _ | ⟨a, i, a', stop⟩
  · rw [if_pos (show (scan b sep.mem len).1 = none from hspec)]
    rfl
  · obtain ⟨p, t, -, hp⟩ := hspec
    rw [hp, if_neg (by simp)]
    rfl

/-! ## The invariant over runs -/

/-- The invariant is kept by every call that returns or raises a Lua error. -/
theorem Inv.call (h : Inv b) (hal : op.Allowed b)
    (hc : (∃ v, op.call b = (.ok v, b')) ∨ op.call b = (.error .luaError, b')) : Inv b' := by
  -- it is enough to know one outcome that keeps it
  have close : ∀ {r : Except Fault LuaValue} {c : Buf}, op.call b = (r, c) → Inv c → Inv b' := by
    intro r c hr hi
    rcases hc with ⟨v, hc⟩ | hc <;> rw [hc] at hr <;> obtain ⟨-, rfl⟩ := Prod.mk.inj hr <;> exact hi
  cases op with
  | push a p n =>
    rcases p with _ | p
    · exact close (show lpush a none n b = _ from lpush_reject (.inl rfl)) h
    · by_cases hn : wrap n ≤ 0
      · exact close (show lpush a (some p) n b = _ from lpush_reject (.inr hn)) h
      · have heq : lpush a (some p) n = lpush a (some p) (wrap n) := by
          simp only [lpush, wrap_wrap]
        obtain ⟨v, c, hr, hi, -⟩ := Prog.exists_ok_of_wp
          (lpush_spec h hal.1 (not_le.mp hn) (wrap_range n).2 (hal.2 p rfl))
        exact close (show lpush a (some p) n b = _ from heq ▸ hr) hi
  | pop arg =>
    cases arg with
    | none =>
      obtain ⟨v, c, hr, hi, -⟩ := readall_spec h
      exact close hr hi
    | other =>
      obtain ⟨v, c, hr, hi, -⟩ := readall_spec h
      exact close hr hi
    | number n =>
      have hr := wrap_range (n % 4294967296)
      -- below zero nothing is taken, whichever way `readn` ends; zero is the empty string
      rcases lt_trichotomy (wrap (n % 4294967296)) 0 with hn | hn | hn
      · exact close (readn_neg h hn hr.1) h
      · refine close (c := b) (r := .ok (.string [])) ?_ h
        show readn (wrap (n % 4294967296)) b = _
        rw [hn, readn_zero]
      · obtain ⟨v, c, hr, hi, -⟩ := readn_spec h hn hr.2
        exact close hr hi
    | string sep =>
      by_cases hpos : sep.bytes.length > 0
      · have hcall : Op.call (.pop (.string sep)) = readsep sep.mem (wrap sep.bytes.length) :=
          if_pos hpos
        rcases lt_or_ge (wrap sep.bytes.length) 0 with hn | hn
        · rcases scanLoop_neg h sep.mem hn with ⟨-, hs⟩ | ⟨-, hs⟩
          · refine close (c := b) (r := .ok .nil) ?_ h
            rw [hcall]
            simp [readsep, hs]
          · have hw : Op.call (.pop (.string sep)) b = (.error .wild, b) := by
              rw [hcall]
              simp [readsep, hs]
            rcases hc with ⟨v, hc⟩ | hc <;> rw [hw] at hc <;> cases hc
        · obtain ⟨len, hlen⟩ := Int.eq_ofNat_of_zero_le hn
          obtain ⟨v, c, hr, hi, -⟩ := readsep_spec sep.mem len h
          refine close (c := c) (r := .ok v) ?_ hi
          rw [hcall, hlen]
          exact hr
      · have hcall : Op.call (.pop (.string sep)) = Prog.fault .luaError := if_neg hpos
        refine close (c := b) (r := .error .luaError) ?_ h
        rw [hcall]
        rfl
  | findsep sep =>
    rcases lt_or_ge (wrap sep.bytes.length) 0 with hn | hn
    · rcases scanLoop_neg h sep.mem hn with ⟨-, hs⟩ | ⟨-, hs⟩
      · refine close (c := b) (r := .ok .nil) ?_ h
        simp [Op.call, lfindsep, hs]
      · have hw : Op.call (.findsep sep) b = (.error .wild, b) := by
          simp [Op.call, lfindsep, hs]
        rcases hc with ⟨v, hc⟩ | hc <;> rw [hw] at hc <;> cases hc
    · obtain ⟨len, hlen⟩ := Int.eq_ofNat_of_zero_le hn
      exact close (lfindsep_spec sep len h hlen) (h.withCmps _)

/-- The invariant holds in every state that a run reaches. -/
theorem inv_of_reach (h : calls.Reach b) : Inv b := by
  refine h.invariant ?_ fun s op s' _ hi hs => hi.call hs.1 hs.2
  rintro _ rfl
  exact inv_lnew

/-! ## A queue of bytes -/

/-- What a call does to a flat queue of bytes, and what it returns. -/
def flatCall : Op → List UInt8 → LuaValue × List UInt8
  | .push _ (some p) n, B => (.integer (B.length + n), B ++ p.take n.toNat)
  | .pop .none, B => (if B = [] then .nil else .string B, [])
  | .pop (.number n), B =>
    if n ≤ B.length then (.string (B.take n.toNat), B.drop n.toNat) else (.nil, B)
  | _, B => (.nil, B)

/-- The calls that treat the buffer as a queue of bytes, as long as it holds no more than an `int`
counts. -/
def ByteCall (b : Buf) : Op → Prop
  | .push _ p n => p.isSome ∧ 0 < n ∧ total (nodes b) + n ≤ INT_MAX
  | .pop .none => True
  | .pop (.number n) => 0 ≤ n ∧ n ≤ INT_MAX
  | _ => False

instance (b : Buf) : (op : Op) → Decidable (ByteCall b op)
  | .push _ p n => inferInstanceAs (Decidable (p.isSome ∧ 0 < n ∧ total (nodes b) + n ≤ INT_MAX))
  | .pop .none => .isTrue trivial
  | .pop (.number n) => inferInstanceAs (Decidable (0 ≤ n ∧ n ≤ INT_MAX))
  | .pop (.string _) => .isFalse id
  | .pop .other => .isFalse id
  | .findsep _ => .isFalse id

/-- How a buffer lies in memory. -/
structure Shaped (b : Buf) : Prop where
  linked : Linked b.mem.cell BufferNode.next b.sb.head (nodes b)
  size_eq : b.sb.size = (content b).length
  sz_pos : ∀ x ∈ nodes b, 0 < x.2.sz
  offset_range : ∀ x ∈ (nodes b).head?, 0 ≤ b.sb.offset ∧ b.sb.offset < x.2.sz
  null : b.sb.head = none → b.sb.offset = 0 ∧ b.sb.size = 0
  tail_eq : ∀ x ∈ (nodes b).getLast?, b.sb.tail = some x.1

/-- A buffer that is in order has the shape that the code relies on, as long as its size fits in an
`int`. -/
theorem Inv.shaped (h : Inv b) (hheld : total (nodes b) ≤ INT_MAX) : Shaped b where
  linked := h.queue.linked
  size_eq := h.size_eq_length hheld
  sz_pos x hx := (h.node_ok x hx).pos
  offset_range x hx := ⟨h.offset_nonneg, h.offset_lt x hx⟩
  null hhead := by
    have hnil := h.nodes_eq_nil_iff.mpr hhead
    rw [h.size_eq, h.offset_nil hnil, hnil]
    exact ⟨rfl, rfl⟩
  tail_eq := h.queue.tail_eq

/-- One call does what `flatCall` does, and the nodes held still add up to an `int`. -/
theorem byteCall_spec (h : Inv b) (hheld : total (nodes b) ≤ INT_MAX) (hal : op.Allowed b)
    (hop : ByteCall b op) :
    ∃ b', op.call b = (.ok (flatCall op (content b)).1, b') ∧
      content b' = (flatCall op (content b)).2 ∧ (content b' = content b → b' = b) ∧
      total (nodes b') ≤ INT_MAX := by
  have hsize := h.size_eq_length hheld
  have hlen := h.length_content
  have h0 := h.offset_nonneg
  have htot := total_nonneg h.node_ok
  cases op with
  | push a p n =>
    obtain ⟨p, rfl⟩ := Option.isSome_iff_exists.mp hop.1
    obtain ⟨-, hpos, hmax⟩ := hop
    have hw : wrap n = n := wrap_of_nonneg hpos.le (by omega)
    have hp : n ≤ p.length := hw ▸ hal.2 p rfl
    obtain ⟨v, b', hr, hinv, hcont, rfl, hheld', -⟩ :=
      Prog.exists_ok_of_wp (lpush_spec h hal.1 hpos (by omega) hp)
    -- the block is not empty, so the content is never the same again
    have hlen' : ((content b').length : ℤ) = (content b).length + n := by
      rw [hcont, List.length_append, List.length_take]
      push_cast
      omega
    refine ⟨b', ?_, hcont, fun heq => ?_, by omega⟩
    · rw [show Op.call (.push a (some p) n) b = _ from hr, hinv.size_eq_length (by omega), hlen']
      rfl
    · rw [heq] at hlen'
      omega
  | pop arg =>
    cases arg with
    | none =>
      obtain ⟨v, b', hr, hinv, -, hcase⟩ := readall_spec h
      by_cases hnil : nodes b = []
      · have hempty := h.content_eq_nil_iff.mpr hnil
        rw [if_pos hnil] at hcase
        obtain ⟨rfl, rfl⟩ := hcase
        refine ⟨b', ?_, ?_, fun _ => rfl, hheld⟩
        · rw [show Op.call (.pop .none) b' = _ from hr]
          simp [flatCall, hempty]
        · simp [flatCall, hempty]
      · rw [if_neg hnil] at hcase
        obtain ⟨rfl, hnil'⟩ := hcase
        have hne : content b ≠ [] := h.content_eq_nil_iff.not.mpr hnil
        have hcont' : content b' = [] := by simp [content, hnil']
        refine ⟨b', ?_, hcont', fun heq => absurd (heq ▸ hcont') hne, by simp [hnil', INT_MAX]⟩
        rw [show Op.call (.pop .none) b = _ from hr]
        simp [flatCall, hne]
    | number n =>
      obtain ⟨hn0, hmax⟩ := hop
      -- the conversion to `int` keeps the number
      have hw : wrap (n % 4294967296) = n := by
        unfold INT_MAX at hmax
        unfold wrap
        omega
      have hcall : Op.call (.pop (.number n)) b = readn n b := by
        show readn (wrap (n % 4294967296)) b = _
        rw [hw]
      rw [hcall]
      simp only [flatCall]
      rcases hn0.eq_or_lt with rfl | hpos
      · refine ⟨b, ?_, ?_, fun _ => rfl, hheld⟩
        · simp [readn_zero]
        · simp
      · obtain ⟨v, b', hr, hinv, -, hcase⟩ := readn_spec h hpos hmax
        by_cases hlt : b.sb.size < n
        · rw [if_pos hlt] at hcase
          obtain ⟨rfl, rfl⟩ := hcase
          rw [if_neg (by omega)]
          exact ⟨b', hr, rfl, fun _ => rfl, hheld⟩
        · rw [if_neg hlt] at hcase
          obtain ⟨k, hk, hkn, rfl, hcont, hheld', -⟩ := hcase
          rw [wrap_of_nonneg (by omega) (by omega)] at hkn
          rw [if_pos (by omega)]
          have hnk : n.toNat = k := by omega
          refine ⟨b', by rw [hr, hnk], by rw [hcont, hnk], fun heq => ?_, by omega⟩
          have := congrArg List.length (heq ▸ hcont)
          rw [List.length_drop] at this
          omega
    | string => exact hop.elim
    | other => exact hop.elim
  | findsep => exact hop.elim

/-- Every state reached by calls on bytes lies in memory as it should, and every next call refines
the flat queue. -/
theorem byteCalls_refine (h : (calls.restrict fun b op _ => ByteCall b op).Reach b) :
    Shaped b ∧ ∀ op, op.Allowed b → ByteCall b op →
      ∃ b', op.call b = (.ok (flatCall op (content b)).1, b') ∧
        content b' = (flatCall op (content b)).2 ∧ (content b' = content b → b' = b) := by
  have hinv : Inv b := inv_of_reach h.of_restrict
  have hheld : total (nodes b) ≤ INT_MAX := by
    refine h.invariant (I := fun b => total (nodes b) ≤ INT_MAX) ?_ fun s op s' hs hI hstep => ?_
    · rintro _ rfl
      exact show total (nodes lnew) ≤ INT_MAX by decide
    · obtain ⟨⟨hal, hc⟩, hop⟩ := hstep
      obtain ⟨b', hr, -, -, hle⟩ := byteCall_spec (inv_of_reach hs.of_restrict) hI hal hop
      rw [hr] at hc
      rcases hc with ⟨v, hc⟩ | hc
      · obtain ⟨-, rfl⟩ := Prod.mk.inj hc
        exact hle
      · cases (Prod.mk.inj hc).1
  refine ⟨hinv.shaped hheld, fun op hal hop => ?_⟩
  obtain ⟨b', hr, hcont, hsame, -⟩ := byteCall_spec hinv hheld hal hop
  exact ⟨b', hr, hcont, hsame⟩

/-- Two blocks, `ab` and `cd`. -/
def twoBlocks : Buf := (lpush 1 (some [99, 100]) 2 (lpush 0 (some [97, 98]) 2 lnew).2).2

theorem byteCalls_refine_twoBlocks :
    Shaped twoBlocks ∧ ∃ b', lpop (.number 3) twoBlocks = (.ok (.string [97, 98, 99]), b') ∧
      content b' = [100] := by
  have hab : ByteCall lnew (.push 0 (some [97, 98]) 2) := by decide
  have hcd : ByteCall (lpush 0 (some [97, 98]) 2 lnew).2 (.push 1 (some [99, 100]) 2) := by decide
  obtain ⟨hshape, hcall⟩ := byteCalls_refine (b := twoBlocks)
    (.step (.step (.init rfl) ⟨⟨by decide, .inl ⟨.integer 2, rfl⟩⟩, hab⟩)
      ⟨⟨by decide, .inl ⟨.integer 4, rfl⟩⟩, hcd⟩)
  obtain ⟨b', hr, hcont, -⟩ := hcall (.pop (.number 3)) trivial (by decide)
  exact ⟨hshape, b', hr, hcont⟩

end Lsocket.Buffer
