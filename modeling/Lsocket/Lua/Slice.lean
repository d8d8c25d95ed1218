import Lsocket.Lua.Run
import Lsocket.Net.Epoll

/-!
# The part of a string that is sent

`lsend` copies the bytes of a string from one position to another. Both positions are clamped to the string,
but the end as an unsigned number: a negative end is taken for one behind the string, and everything from
the start on is sent (`sendsRequested_iff`).
-/

namespace Lsocket.Lua

open CInt

variable {σ : Type} {B : Backend σ} {bytes : List UInt8} {i j : Option ℤ}

/-! ## The copy -/

/-- The first position that `lsend` copies. -/
def startOf (i : Option ℤ) : ℤ := if wrap (i.getD 1) < 1 then 1 else wrap (i.getD 1)

/-- The last position that `lsend` copies. -/
def stopOf (l : ℤ) (j : Option ℤ) : ℤ :=
  if wrap (j.getD l) < 0 ∨ wrap (j.getD l) > l then wrap l else wrap (j.getD l)

/-- The part of a string that is copied, from its bounds. -/
theorem slice_eq (bytes : List UInt8) (i j : Option ℤ) : slice bytes i j =
    if startOf i > stopOf bytes.length j then none
    else some ((bytes.drop (startOf i - 1).toNat).take
      (stopOf bytes.length j - startOf i + 1).toNat) := rfl

/-- It does not start before the string. -/
theorem startOf_pos (i : Option ℤ) : 1 ≤ startOf i := by
  unfold startOf
  split <;> omega

/-- The copy ends within the string, and at a position that is an `int`. -/
theorem stopOf_le {l : ℤ} (hl : 0 ≤ l) (j : Option ℤ) : stopOf l j ≤ l ∧ stopOf l j ≤ INT_MAX := by
  have hj := (wrap_range (j.getD l)).2
  have hwrap := (wrap_range l).2
  have hle : wrap l ≤ l := by
    unfold wrap
    omega
  unfold stopOf
  split <;> omega

/-- A part of a string is as long as the size that is computed for it, and not empty. -/
theorem length_slice {bytes part : List UInt8} {i j : Option ℤ} (h : slice bytes i j = some part) :
    (part.length : ℤ) = stopOf bytes.length j - startOf i + 1 ∧ 0 < part.length := by
  rw [slice_eq] at h
  split at h
  · cases h
  · obtain rfl := Option.some.inj h
    have hpos := startOf_pos i
    have hle := (stopOf_le (Int.natCast_nonneg bytes.length) j).1
    rw [List.length_take, List.length_drop]
    omega

/-- What `lsend` hands to `psocket_send`, if there is anything to send. -/
def Message.outgoing : Message → Option (Block × ℤ)
  | .block data sz => some (data, wrap sz)
  | .string bytes i j token => (slice bytes i j).map fun part => (⟨token, part⟩, part.length)

/-- `lsend`, by what there is to send. -/
theorem lsend_eq (id junk : ℤ) (m : Message) : lsend B id m junk = match m.outgoing with
    | none => pure .nothing
    | some (data, sz) => psocketSend B (wrap id) data sz junk >>= fun err =>
      pure (if err ≠ 0 then .failed err else .nil) := by
  cases m with
  | block data sz => rfl
  | string bytes i j token =>
    simp only [lsend, Message.outgoing]
    cases slice bytes i j <;> rfl

/-- False is returned only where there is nothing to send. -/
theorem lsend_ne_nothing {id junk : ℤ} {m : Message} (hm : m.outgoing ≠ none) :
    lsend B id m junk ≠ pure .nothing := by
  intro h
  obtain ⟨out, ho⟩ := Option.ne_none_iff_exists'.mp hm
  have hrun := congrArg Prod.fst (congrFun h (.initial B 1 zeroed))
  rw [lsend_eq, ho] at hrun
  simp only [Prog.bind_apply, Prog.pure_apply] at hrun
  split at hrun
  · next err s' _ =>
    by_cases herr : err ≠ 0
    · rw [if_pos herr] at hrun
      cases hrun
    · rw [if_neg herr] at hrun
      cases hrun
  · cases hrun

/-! ## The request -/

/-- The bytes at the positions from `max 1 i` to `min j l`, counted from one. -/
def requested (bytes : List UInt8) (i j : Option ℤ) : List UInt8 :=
  (bytes.zipIdx 1).filterMap fun x =>
    if max 1 (i.getD 1) ≤ x.2 ∧ x.2 ≤ min (j.getD bytes.length) bytes.length then some x.1 else none

/-- The bytes at positions up to `hi`, of which the list begins at the `k`-th. -/
theorem filterMap_take (bytes : List UInt8) {k : ℕ} {lo : ℤ} (hi : ℤ) (hlo : lo ≤ k) :
    ((bytes.zipIdx k).filterMap fun x => if lo ≤ x.2 ∧ x.2 ≤ hi then some x.1 else none) =
      bytes.take (hi - k + 1).toNat := by
  induction bytes generalizing k with
  | nil => simp
  | cons b bytes ih =>
    rw [List.zipIdx_cons, List.filterMap_cons, ih (by omega)]
    by_cases hk : (k : ℤ) ≤ hi
    · obtain ⟨n, hn⟩ : ∃ n : ℕ, (hi - k + 1).toNat = n + 1 := ⟨(hi - k).toNat, by omega⟩
      have hn' : (hi - (k + 1 : ℕ) + 1).toNat = n := by omega
      rw [hn, hn', List.take_succ_cons]
      simp [hlo, hk]
    · have h0 : (hi - k + 1).toNat = 0 := by omega
      have h0' : (hi - (k + 1 : ℕ) + 1).toNat = 0 := by omega
      rw [h0, h0']
      simp [hk]

/-- The bytes at positions from `lo` to `hi`. -/
theorem filterMap_slice (bytes : List UInt8) {k : ℕ} {lo : ℤ} (hi : ℤ) (hlo : k ≤ lo) :
    ((bytes.zipIdx k).filterMap fun x => if lo ≤ x.2 ∧ x.2 ≤ hi then some x.1 else none) =
      (bytes.drop (lo - k).toNat).take (hi - lo + 1).toNat := by
  induction bytes generalizing k with
  | nil => simp
  | cons b bytes ih =>
    by_cases hk : lo = k
    · have h0 : (lo - k).toNat = 0 := by omega
      rw [h0, List.drop_zero, filterMap_take _ _ (by omega), hk]
    · have hdrop : (lo - k).toNat = (lo - (k + 1 : ℕ)).toNat + 1 := by omega
      rw [List.zipIdx_cons, List.filterMap_cons, ih (by omega), hdrop, List.drop_succ_cons]
      have hno : ¬ (lo ≤ (k : ℤ) ∧ (k : ℤ) ≤ hi) := by omega
      simp [hno]

/-- The part that is asked for, from its bounds. -/
theorem requested_eq (bytes : List UInt8) (i j : Option ℤ) : requested bytes i j =
    (bytes.drop (max 1 (i.getD 1) - 1).toNat).take
      (min (j.getD bytes.length) bytes.length - max 1 (i.getD 1) + 1).toNat :=
  filterMap_slice bytes (k := 1) _ (le_max_left 1 _)

/-- There is nothing at the positions, or as many bytes as positions. -/
theorem length_requested : ((requested bytes i j).length : ℤ) =
    max 0 (min (j.getD bytes.length) bytes.length - max 1 (i.getD 1) + 1) := by
  rw [requested_eq, List.length_take, List.length_drop]
  omega

/-- `lsend` hands on exactly the bytes that are asked for, and returns false if there are none. Its copy
stays within the string and is not empty. -/
structure SendsRequested (B : Backend σ) (bytes : List UInt8) (i j : Option ℤ) : Prop where
  exact : requested bytes i j ≠ [] → ∀ id token junk, lsend B id (.string bytes i j token) junk = do
    let err ← psocketSend B (wrap id) ⟨token, requested bytes i j⟩ (requested bytes i j).length junk
    pure (if err ≠ 0 then .failed err else .nil)
  refused : requested bytes i j = [] → ∀ id token junk,
    lsend B id (.string bytes i j token) junk = pure .nothing
  inside : ∀ part, slice bytes i j = some part → 0 ≤ startOf i - 1 ∧
    startOf i - 1 + (stopOf bytes.length j - startOf i + 1) ≤ bytes.length ∧
    1 ≤ stopOf bytes.length j - startOf i + 1

/-- The bound of the start, without the conversions. -/
theorem startOf_eq (hi : ∀ x ∈ i, IsInt x) : startOf i = max 1 (i.getD 1) := by
  have hwrap : wrap (i.getD 1) = i.getD 1 := by
    cases i with
    | none => decide
    | some x => exact wrap_of_range (hi x rfl).1 (hi x rfl).2
  unfold startOf
  rw [hwrap]
  split <;> omega

/-- The bound of the end, without the conversions: a negative one is the end of the string. -/
theorem stopOf_eq {l : ℤ} (h0 : 0 ≤ l) (hl : l ≤ INT_MAX) (hj : ∀ x ∈ j, IsInt x) :
    stopOf l j = if j.getD l < 0 then l else min (j.getD l) l := by
  have hwrap : wrap (j.getD l) = j.getD l := by
    cases j with
    | none => exact wrap_of_nonneg h0 hl
    | some x => exact wrap_of_range (hj x rfl).1 (hj x rfl).2
  unfold stopOf
  rw [hwrap, wrap_of_nonneg h0 hl]
  split <;> split <;> omega

/-- The bytes asked for are sent exactly if the end is not negative, or the start lies behind the string. -/
theorem sendsRequested_iff (hl : (bytes.length : ℤ) ≤ INT_MAX) (hi : ∀ x ∈ i, IsInt x)
    (hj : ∀ x ∈ j, IsInt x) : SendsRequested B bytes i j ↔
      0 ≤ j.getD bytes.length ∨ (bytes.length : ℤ) < max 1 (i.getD 1) := by
  have h0 : (0 : ℤ) ≤ bytes.length := Int.natCast_nonneg _
  -- what is sent lies inside the string whatever `i` and `j` are
  have hinside : ∀ part, slice bytes i j = some part → 0 ≤ startOf i - 1 ∧
      startOf i - 1 + (stopOf bytes.length j - startOf i + 1) ≤ bytes.length ∧
      1 ≤ stopOf bytes.length j - startOf i + 1 := by
    intro part hpart
    have hstart := startOf_pos i
    have hstop := (stopOf_le h0 j).1
    obtain ⟨hlen, hpos⟩ := length_slice hpart
    omega
  have hslice := slice_eq bytes i j
  have hreq := requested_eq bytes i j
  have hlen : ((requested bytes i j).length : ℤ) = _ := length_requested
  rw [startOf_eq hi, stopOf_eq h0 hl hj] at hslice
  have hnil : requested bytes i j = [] ↔ (requested bytes i j).length = 0 :=
    List.length_eq_zero_iff.symm
  have hrefused (hnone : slice bytes i j = none) (id : ℤ) (token : ℕ) (junk : ℤ) :
      lsend B id (.string bytes i j token) junk = pure .nothing := by
    rw [lsend_eq, Message.outgoing, hnone]
    rfl
  by_cases hneg : j.getD (bytes.length : ℤ) < 0
  · -- the end is taken for the length, and nothing is asked for
    rw [if_pos hneg] at hslice
    have hempty : requested bytes i j = [] := hnil.mpr (by omega)
    constructor
    · intro h
      by_contra hno
      rw [not_or, not_lt] at hno
      rw [if_neg (not_lt.mpr hno.2)] at hslice
      refine lsend_ne_nothing (fun hout => ?_) (h.refused hempty 0 0 0)
      rw [Message.outgoing, hslice] at hout
      cases hout
    · intro h
      rw [if_pos (h.resolve_left (not_le.mpr hneg))] at hslice
      exact ⟨fun hne => absurd hempty hne, fun _ => hrefused hslice, hinside⟩
  -- from here the code and Lua's own `sub` take the same end
  · rw [if_neg hneg] at hslice
    refine iff_of_true ⟨fun hne id token junk => ?_, fun hempty => ?_, hinside⟩ (.inl (not_lt.mp hneg))
    · have hne' := mt hnil.mpr hne
      rw [if_neg (by omega), ← hreq] at hslice
      rw [lsend_eq, Message.outgoing, hslice]
      rfl
    · have hempty' := hnil.mp hempty
      rw [if_pos (by omega)] at hslice
      exact hrefused hslice

/-- The second and third of four bytes. -/
theorem sendsRequested_iff_middle :
    SendsRequested epoll [1, 2, 3, 4] (some 2) (some 3) ↔
      0 ≤ (some (3 : ℤ)).getD 4 ∨ (4 : ℤ) < max 1 ((some (2 : ℤ)).getD 1) :=
  sendsRequested_iff (by decide) (by decide) (by decide)

/-- A negative end sends the whole string, though no position is asked for. -/
theorem not_sendsRequested_negative : requested [1, 2, 3] (some 1) (some (-1)) = [] ∧
    slice [1, 2, 3] (some 1) (some (-1)) = some [1, 2, 3] ∧
    ¬ SendsRequested epoll [1, 2, 3] (some 1) (some (-1)) :=
  ⟨rfl, rfl, fun h => lsend_ne_nothing (by decide) (h.refused rfl 0 0 0)⟩

end Lsocket.Lua
