import Lsocket.Buffer.Run

/-!
# A buffer as a list of chunks

What a call returns, and what it leaves, depends on the buffer only through its unread bytes node by
node: `behave` is every call as a function of the chunks, and `call_behave` that the code does it,
also where a sum leaves the range of `int`. So two buffers with the same chunks cannot be told apart
(`alike_of_chunks`), whatever nodes they consist of.
-/

namespace Lsocket.Buffer

open CInt

variable {b b' c : Buf} {op : Op} {v : LuaValue} {k : ℕ}

/-! ## The calls on chunks -/

/-- `pop` with a separator of length `l`, as an `int`. -/
def popSep (sep : ℕ → UInt8) (l : ℤ) (cs : List (List UInt8)) :
    Except Fault LuaValue × List (List UInt8) :=
  if l < 0 then (if cs = [] then .ok .nil else .error .wild, cs)
  else
    match (scanFrom sep l.toNat cs cs.flatten.length 0).1 with
    | none => (.ok .nil, cs)
    | some (p, t) => (.ok (.string (cs.flatten.take p)), dropBytes (p + t) cs)

/-- `pop` with a number, as an `int`. -/
def popNumber (n : ℤ) (cs : List (List UInt8)) : Except Fault LuaValue × List (List UInt8) :=
  if n = 0 then (.ok (.string []), cs)
  else if wrap cs.flatten.length < n then (.ok .nil, cs)
  else if n < 0 then (if cs = [] then .ok .nil else .error .luaError, cs)
  else
    match reachScan n 0 0 cs with
    | none => (.ok .nil, cs)
    | some k => (.ok (.string (cs.flatten.take k)), dropBytes k cs)

/-- `pop` without argument. -/
def popAll (cs : List (List UInt8)) : Except Fault LuaValue × List (List UInt8) :=
  (.ok (if cs = [] then .nil else .string cs.flatten), [])

/-- `findsep` with a separator of length `l`, as an `int`. -/
def findSep (sep : ℕ → UInt8) (l : ℤ) (cs : List (List UInt8)) : Except Fault LuaValue :=
  if l < 0 then if cs = [] then .ok .nil else .error .wild
  else .ok (if (scanFrom sep l.toNat cs cs.flatten.length 0).1 = none then .nil else .true)

/-- What a call does to the chunks, and how it ends. -/
def behave : Op → List (List UInt8) → Except Fault LuaValue × List (List UInt8)
  | .push _ none _, cs => (.ok .nil, cs)
  | .push _ (some p) n, cs =>
    if wrap n ≤ 0 then (.ok .nil, cs)
    else
      let cs := cs ++ [p.take (wrap n).toNat]
      (.ok (.integer (wrap cs.flatten.length)), cs)
  | .pop .none, cs => popAll cs
  | .pop .other, cs => popAll cs
  | .pop (.number n), cs => popNumber (wrap (n % 4294967296)) cs
  | .pop (.string sep), cs =>
    if sep.bytes.length > 0 then popSep sep.mem (wrap sep.bytes.length) cs
    else (.error .luaError, cs)
  | .findsep sep, cs => (findSep sep.mem (wrap sep.bytes.length) cs, cs)

/-! ## The chunks of a buffer -/

/-- There are no chunks exactly if there are no nodes. -/
theorem chunks_eq_nil_iff : chunks b = [] ↔ nodes b = [] := by
  rw [chunks]
  cases nodes b <;> simp

/-- `size` counts the unread bytes, as an `int`. -/
theorem Inv.size_eq_chunks (h : Inv b) : b.sb.size = wrap (chunks b).flatten.length := by
  rw [h.size_eq, chunks_flatten h, h.length_content]

theorem chunks_lnew : chunks lnew = [] := rfl

/-- Cutting off the first `k` unread bytes drops them from the chunks. -/
theorem Taken.chunks_eq (ht : Taken b b' k) (h : Inv b) (h' : Inv b')
    (hcont : content b' = (content b).drop k) : chunks b' = dropBytes k (chunks b) := by
  obtain ⟨l₁, a, nd, l₂, stop, hcut, rfl, hnodes⟩ := ht
  have hlen := h.length_content
  have hlen' := h'.length_content
  have hle := hcut.offset_le_total h
  have hsz := hcut.le_sz
  have hn := hcut.nodes_eq
  have htot₂ : 0 ≤ total l₂ := total_nonneg fun y hy => h.node_ok y (by simp [hn, hy])
  have hoff := h'.offset_nonneg
  have htot : total (nodes b) = total l₁ + (nd.sz + total l₂) := by
    rw [hn, total_append, total_cons]
  rw [hcont, List.length_drop, hnodes, cutPos] at hlen'
  rw [chunks_eq_unread b', hnodes]
  unfold afterCut at hlen' ⊢
  split
  -- the cut is at the end of a node: nothing of it stays, so the next chunk is whole
  · next hs =>
    rw [if_pos hs] at hlen'
    have h0 : b'.sb.offset = 0 := by omega
    rw [h0, unread_zero]
    subst hs
    rcases l₂ with _ | ⟨⟨a₂, nd₂⟩, l₂⟩
    · rw [List.map_nil, dropBytes_eq_nil]
      rw [chunks_flatten h, cutPos]
      rw [total_nil] at htot
      omega
    · have hpos := (h.node_ok (a₂, nd₂) (by simp [hn])).pos
      have hcut' : Cut b (l₁ ++ [(a, nd)]) a₂ nd₂ l₂ 0 :=
        ⟨by simp [hn], le_refl 0, hpos.le, by simp⟩
      have hpos' : cutPos b (l₁ ++ [(a, nd)]) 0 = cutPos b l₁ nd.sz := by
        rw [cutPos, cutPos, total_append, total_cons, total_nil]
        congr 1
        show total l₁ + (nd.sz + 0) + 0 - b.sb.offset = _
        omega
      rw [← hpos', dropBytes_chunks h hcut' hpos]
      rfl
  -- the cut is inside the node: what stays of it begins at `stop`
  · next hs =>
    rw [if_neg hs, total_cons] at hlen'
    have hstop : b'.sb.offset = stop := by
      have hlen'' : ((content b).length - (total l₁ + stop - b.sb.offset).toNat : ℕ)
          = nd.sz + total l₂ - b'.sb.offset := hlen'
      omega
    rw [hstop, dropBytes_chunks h hcut (by omega)]
    rfl

/-! ## The code does it -/

/-- `readn` on chunks. -/
theorem readn_behave (h : Inv b) {n : ℤ} (hmin : -2147483648 ≤ n) (hmax : n ≤ INT_MAX) :
    (readn n b).1 = (popNumber n (chunks b)).1 ∧
      chunks (readn n b).2 = (popNumber n (chunks b)).2 := by
  have hsize := h.size_eq_chunks
  -- `readn` guards against zero and against a count above the size, not against a negative one
  rcases lt_trichotomy n 0 with hn | rfl | hn
  · rw [readn_neg h hn hmin]
    simp only [popNumber, if_neg hn.ne, if_pos hn, ← hsize, chunks_eq_nil_iff]
    by_cases hlt : b.sb.size < n
    · simp [hlt]
    · simp [hlt]
  · simp [readn_zero, popNumber]
  · obtain ⟨v, c, hr, hinv, -, hcase⟩ := readn_spec h hn hmax
    simp only [popNumber, if_neg hn.ne', if_neg hn.le.not_gt, ← hsize, hr]
    by_cases hlt : b.sb.size < n
    · rw [if_pos hlt] at hcase ⊢
      obtain ⟨rfl, rfl⟩ := hcase
      exact ⟨rfl, rfl⟩
    · rw [if_neg hlt] at hcase ⊢
      obtain ⟨k, -, -, rfl, hcont, -, htaken, hscan⟩ := hcase
      rw [← chunks_eq_unread] at hscan
      rw [hscan]
      exact ⟨by rw [chunks_flatten h], htaken.chunks_eq h hinv hcont⟩

/-- `readsep` on chunks. -/
theorem readsep_behave (h : Inv b) (sep : ℕ → UInt8) (l : ℤ) :
    (readsep sep l b).1 = (popSep sep l (chunks b)).1 ∧
      chunks (readsep sep l b).2 = (popSep sep l (chunks b)).2 := by
  rcases lt_or_ge l 0 with hl | hl
  · simp only [popSep, if_pos hl]
    rcases scanLoop_neg h sep hl with ⟨hnil, hs⟩ | ⟨hnil, hs⟩ <;>
      simp [readsep, hs, chunks_eq_nil_iff, hnil]
  · obtain ⟨len, rfl⟩ := Int.eq_ofNat_of_zero_le hl
    obtain ⟨v, c, hr, hinv, -, hcase⟩ := readsep_spec sep len h
    rw [scan, ← chunks_flatten h] at hcase
    simp only [popSep, if_neg hl.not_gt, Int.toNat_natCast, hr]
    rcases hscan : (scanFrom sep len (chunks b) (chunks b).flatten.length 0).1 with _ | ⟨p, t⟩ <;>
      rw [hscan] at hcase
    · obtain ⟨rfl, hsb, hmem⟩ := hcase
      refine ⟨rfl, ?_⟩
      simp only [chunks, nodes, hsb, hmem]
    · obtain ⟨-, rfl, hcont, htaken⟩ := hcase
      rw [chunks_flatten h] at hcont
      exact ⟨rfl, htaken.chunks_eq h hinv hcont⟩

/-- `findsep` on chunks. -/
theorem lfindsep_behave (h : Inv b) (sep : LuaString) :
    (lfindsep sep b).1 = findSep sep.mem (wrap sep.bytes.length) (chunks b) ∧
      chunks (lfindsep sep b).2 = chunks b := by
  rcases lt_or_ge (wrap sep.bytes.length) 0 with hl | hl
  · simp only [findSep, if_pos hl]
    rcases scanLoop_neg h sep.mem hl with ⟨hnil, hs⟩ | ⟨hnil, hs⟩ <;>
      simp [lfindsep, hs, chunks_eq_nil_iff, hnil]
  · obtain ⟨len, hlen⟩ := Int.eq_ofNat_of_zero_le hl
    rw [lfindsep_spec sep len h hlen, findSep, if_neg hl.not_gt, hlen, Int.toNat_natCast, scan,
      chunks_flatten h]
    exact ⟨rfl, rfl⟩

/-- `readall` on chunks. -/
theorem readall_behave (h : Inv b) :
    (readall b).1 = (popAll (chunks b)).1 ∧ chunks (readall b).2 = (popAll (chunks b)).2 := by
  obtain ⟨v, c, hr, -, -, hcase⟩ := readall_spec h
  rw [hr]
  simp only [popAll, chunks_eq_nil_iff, chunks_flatten h]
  split at hcase
  · next hnil =>
    obtain ⟨rfl, rfl⟩ := hcase
    exact ⟨by rw [if_pos hnil], hnil⟩
  · next hne =>
    obtain ⟨rfl, hnil⟩ := hcase
    exact ⟨by rw [if_neg hne], hnil⟩

/-- Every call does to the chunks, and returns, what `behave` says. -/
theorem call_behave (h : Inv b) (hal : op.Allowed b) :
    (op.call b).1 = (behave op (chunks b)).1 ∧
      chunks (op.call b).2 = (behave op (chunks b)).2 := by
  cases op with
  | push a p n =>
    rcases p with _ | p
    · simp [Op.call, behave, lpush_reject (a := a) (b := b) (.inl rfl)]
    · simp only [behave]
      split
      · next hn =>
        simp [Op.call, lpush_reject (a := a) (b := b) (.inr hn)]
      · next hn =>
        -- the length argument is an `int`: pushing `n` bytes is pushing `wrap n`
        have heq : lpush a (some p) n = lpush a (some p) (wrap n) := by
          simp only [lpush, wrap_wrap]
        obtain ⟨v, c, hr, hinv, -, rfl, -, -, hchunks⟩ := Prog.exists_ok_of_wp
          (lpush_spec h hal.1 (not_le.mp hn) (wrap_range n).2 (hal.2 p rfl))
        rw [show Op.call (.push a (some p) n) b = _ from heq ▸ hr, ← hchunks, hinv.size_eq_chunks]
        exact ⟨rfl, rfl⟩
  | pop arg =>
    cases arg with
    | none => exact readall_behave h
    | other => exact readall_behave h
    | number n =>
      -- the integer goes through a `uint32_t`, and then through the `int` parameter of `readn`
      have hr := wrap_range (n % 4294967296)
      simp only [Op.call, lpop, behave]
      exact readn_behave h hr.1 hr.2
    | string sep =>
      simp only [Op.call, lpop, behave]
      split
      · exact readsep_behave h sep.mem _
      · exact ⟨rfl, rfl⟩
  | findsep sep =>
    simp only [Op.call, behave]
    exact lfindsep_behave h sep

/-! ## What a pop takes -/

/-- What a pop may take off behind the bytes that it returns: with a separator, bytes that begin with it,
and else nothing. -/
def PopArg.Ends (cut : List UInt8) : PopArg → Prop
  | .string sep => (sep.bytes.length : ℤ) ≤ INT_MAX → sep.bytes <+: cut
  | _ => cut = []

/-- A comparison that succeeds takes at least the length of the separator. -/
theorem le_of_sepScan {mem : ℕ → UInt8} {l t : ℕ} {xs : List (List UInt8)} (hl : 0 < l)
    (h : (sepScan mem l xs 0).1 = some t) : l ≤ t := by
  obtain ⟨pre, y, post, -, -, hle, rfl, -⟩ := (sepScan_eq_some_iff hl).mp h
  rw [List.length_append, List.length_take]
  omega

/-- What a pop with a separator takes begins with the separator. -/
theorem popSep_takes {sep : LuaString} {cs : List (List UInt8)} {p t : ℕ} (hpos : 0 < sep.bytes.length)
    (h : (scanFrom sep.mem sep.bytes.length cs cs.flatten.length 0).1 = some (p, t)) :
    sep.bytes <+: (cs.flatten.drop p).take t := by
  have hscan := @scanFrom_fst sep.mem sep.bytes.length cs cs.flatten.length 0
  rw [h] at hscan
  obtain ⟨-, -, -, hsome⟩ := hscan
  have hcont := continues_of_sepScan hpos hsome
  have hle := le_of_sepScan hpos hsome
  rw [List.prefix_iff_getElem?]
  intro i hi
  have hi' := hcont i (by omega)
  rw [Nat.zero_add, sep.mem_lt i hi] at hi'
  rw [List.getElem?_take_of_lt (by omega), hi']

/-- A pop returns nil and takes nothing, or returns the first bytes and takes them, with a separator, or
fails. -/
theorem behave_pop (mode : PopArg) (cs : List (List UInt8)) :
    ((behave (.pop mode) cs).1 = .ok .nil ∧ (behave (.pop mode) cs).2.flatten = cs.flatten) ∨
      (∃ bytes cut, (behave (.pop mode) cs).1 = .ok (.string bytes) ∧
        cs.flatten = bytes ++ cut ++ (behave (.pop mode) cs).2.flatten ∧ mode.Ends cut) ∨
      ∃ e, (behave (.pop mode) cs).1 = .error e ∧ (behave (.pop mode) cs).2 = cs := by
  -- both modes that are neither a number nor a string take everything
  have hall : ((popAll cs).1 = .ok .nil ∧ (popAll cs).2.flatten = cs.flatten) ∨
      ∃ bytes, (popAll cs).1 = .ok (.string bytes) ∧ cs.flatten = bytes ++ [] ++ (popAll cs).2.flatten := by
    rcases cs with _ | ⟨x, xs⟩
    · exact .inl ⟨rfl, rfl⟩
    · exact .inr ⟨_, rfl, by simp [popAll]⟩
  cases mode with
  | none => exact hall.imp id fun ⟨bytes, hr, hflat⟩ => .inl ⟨bytes, [], hr, hflat, rfl⟩
  | other => exact hall.imp id fun ⟨bytes, hr, hflat⟩ => .inl ⟨bytes, [], hr, hflat, rfl⟩
  | number n =>
    simp only [behave, popNumber]
    split
    · exact .inr (.inl ⟨[], [], rfl, rfl, rfl⟩)
    split
    · exact .inl ⟨rfl, rfl⟩
    split
    · split
      · exact .inl ⟨rfl, rfl⟩
      · exact .inr (.inr ⟨_, rfl, rfl⟩)
    split
    · exact .inl ⟨rfl, rfl⟩
    · next k _ =>
      refine .inr (.inl ⟨cs.flatten.take k, [], rfl, ?_, rfl⟩)
      rw [dropBytes_flatten, List.append_nil, List.take_append_drop]
  | string sep =>
    simp only [behave, popSep]
    split
    swap
    · exact .inr (.inr ⟨_, rfl, rfl⟩)
    next hpos =>
    split
    · split
      · exact .inl ⟨rfl, rfl⟩
      · exact .inr (.inr ⟨_, rfl, rfl⟩)
    split
    · exact .inl ⟨rfl, rfl⟩
    · next p t hscan =>
      refine .inr (.inl ⟨cs.flatten.take p, (cs.flatten.drop p).take t, rfl, ?_, fun hle => ?_⟩)
      · rw [dropBytes_flatten, ← List.drop_drop, List.append_assoc, List.take_append_drop,
          List.take_append_drop]
      -- a separator that fits an `int` has its own length as the scan's length
      · rw [wrap_of_nonneg (by omega) hle, Int.toNat_natCast] at hscan
        exact popSep_takes hpos hscan

/-! ## Runs -/

/-- A call, whatever address `malloc` returns. -/
def Op.plain : Op → Op
  | .push _ p n => .push 0 p n
  | op => op

/-- The address that `malloc` returns does not show. -/
theorem behave_plain (op : Op) (cs : List (List UInt8)) : behave op.plain cs = behave op cs := by
  cases op with
  | push a p n => cases p <;> rfl
  | pop => rfl
  | findsep => rfl

/-- The outside keeps its side of all calls. -/
def AllowedAll : List Op → Buf → Prop
  | [], _ => True
  | op :: ops, b => op.Allowed b ∧ AllowedAll ops (op.call b).2

/-- How calls made one after the other end. After a Lua error the next one follows, after any other
fault none does. -/
def answers : List Op → Buf → List (Except Fault LuaValue)
  | [], _ => []
  | op :: ops, b =>
    match op.call b with
    | (.ok v, b') => .ok v :: answers ops b'
    | (.error .luaError, b') => .error .luaError :: answers ops b'
    | (.error e, _) => [.error e]

/-- No run of calls tells the two buffers apart. -/
def Alike (b c : Buf) : Prop :=
  ∀ ops ops', ops.map Op.plain = ops'.map Op.plain → AllowedAll ops b → AllowedAll ops' c →
    answers ops b = answers ops' c

/-- Buffers with the same chunks are alike. -/
theorem alike_of_chunks (h : Inv b) (h' : Inv c) (heq : chunks b = chunks c) : Alike b c := by
  intro ops
  induction ops generalizing b c with
  | nil =>
    intro ops' hops _ _
    obtain rfl := List.map_eq_nil_iff.mp hops.symm
    rfl
  | cons op ops ih =>
    intro ops' hops hal hal'
    rcases ops' with _ | ⟨op', ops'⟩
    · cases hops
    obtain ⟨hop, hops⟩ := List.cons.inj hops
    obtain ⟨hr, hc⟩ := call_behave h hal.1
    obtain ⟨hr', hc'⟩ := call_behave h' hal'.1
    have hsame : behave op (chunks b) = behave op' (chunks c) := by
      rw [← behave_plain, hop, behave_plain, heq]
    have hrr : (op.call b).1 = (op'.call c).1 := by rw [hr, hr', hsame]
    have hcc : chunks (op.call b).2 = chunks (op'.call c).2 := by rw [hc, hc', hsame]
    rcases hb : op.call b with ⟨r, b₁⟩
    rcases hb' : op'.call c with ⟨r', c₁⟩
    have hals := hal.2
    have hals' := hal'.2
    rw [hb] at hrr hcc hals
    rw [hb'] at hrr hcc hals'
    obtain rfl : r = r' := hrr
    -- both buffers go on in order if the call returns or raises a Lua error
    have hrest : (∃ v, r = .ok v) ∨ r = .error .luaError → answers ops b₁ = answers ops' c₁ := by
      intro hgo
      refine ih (h.call hal.1 ?_) (h'.call hal'.1 ?_) hcc ops' hops hals hals'
      · rw [hb]
        exact hgo.imp (fun ⟨v, hv⟩ => ⟨v, by rw [hv]⟩) fun hv => by rw [hv]
      · rw [hb']
        exact hgo.imp (fun ⟨v, hv⟩ => ⟨v, by rw [hv]⟩) fun hv => by rw [hv]
    rcases r with e | v
    · cases e with
      | luaError => simp only [answers, hb, hb', hrest (.inr rfl)]
      | assert => simp only [answers, hb, hb']
      | wild => simp only [answers, hb, hb']
      | spin => simp only [answers, hb, hb']
    · simp only [answers, hb, hb', hrest (.inl ⟨v, rfl⟩)]

end Lsocket.Buffer
