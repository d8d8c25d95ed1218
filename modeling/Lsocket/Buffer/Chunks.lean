import Lsocket.Buffer.Model

/-!
# Looking for a separator in a list of chunks

The loops of `checksep`, `readsep` and `lfindsep` on the unread bytes alone: `sepScan` compares the
separator with the chunks from one position on, `scanFrom` tries one position after the other. They
keep the slip of the source: a chunk that does not begin the comparison is compared over
`min chunk l` bytes, however few bytes of the separator are left.

Such a comparison reads past the separator exactly at an `Overhang`. Without one, the scan finds the
first occurrence (`scanFrom_of_inside`).
-/

namespace Lsocket.Buffer

/-- The comparison of one position: the chunks from there on, with `n` bytes compared already. The
result is the number of bytes taken from the chunks, if all comparisons succeed. -/
def sepScan (mem : ℕ → UInt8) (l : ℕ) : List (List UInt8) → ℕ → Option ℕ × List Cmp
  | [], _ => (none, [])
  | x :: xs, n =>
    let sz := min x.length l
    let k := agree mem n (x.take sz)
    let c : Cmp := { start := n, len := sz, looked := min (k + 1 : ℕ) sz }
    if k = sz then
      if n + sz ≥ l then (some sz, [c])
      else
        let r := sepScan mem l xs (n + sz)
        (r.1.map (sz + ·), c :: r.2)
    else (none, [c])

/-- The chunks from byte `q` on. -/
def dropBytes : ℕ → List (List UInt8) → List (List UInt8)
  | _, [] => []
  | q, x :: xs => if q < x.length then x.drop q :: xs else dropBytes (q - x.length) xs

/-- The scan over `k` positions from `q` on: the first position where the comparison succeeds and
the number of bytes it takes there. -/
def scanFrom (mem : ℕ → UInt8) (l : ℕ) (chunks : List (List UInt8)) :
    ℕ → ℕ → Option (ℕ × ℕ) × List Cmp
  | 0, _ => (none, [])
  | k + 1, q =>
    match sepScan mem l (dropBytes q chunks) 0 with
    | (some t, cs) => (some (q, t), cs)
    | (none, cs) =>
      let r := scanFrom mem l chunks k (q + 1)
      (r.1, cs ++ r.2)

/-- How much of the separator a call of `memcmp` inspects: all of the range it is given, or only
up to the first difference. -/
inductive Reading
  | whole
  | untilDifference
deriving DecidableEq

/-- A call of `memcmp` inspects the separator at indices below `l` only. -/
def Cmp.Inside (r : Reading) (l : ℕ) (c : Cmp) : Prop :=
  match r with
  | .whole => c.start + c.len ≤ l
  | .untilDifference => c.start + c.looked ≤ l

/-! ## Agreement with the separator -/

variable {mem : ℕ → UInt8} {l n : ℕ} {x : List UInt8} {xs chunks : List (List UInt8)}

/-- The bytes `B` go on with the separator from its index `n` to its end. -/
def Continues (mem : ℕ → UInt8) (l n : ℕ) (B : List UInt8) : Prop :=
  ∀ i, n + i < l → B[i]? = some (mem (n + i))

/-- No more agrees than there is. -/
theorem agree_le (mem : ℕ → UInt8) (n : ℕ) (x : List UInt8) : agree mem n x ≤ x.length := by
  induction x generalizing n with
  | nil => exact le_refl _
  | cons y x ih =>
    simp only [agree, List.length_cons]
    split
    · have := ih (n + 1)
      omega
    · omega

/-- The bytes counted by `agree` agree, and the next one does not. -/
theorem agree_spec (mem : ℕ → UInt8) (n : ℕ) (x : List UInt8) :
    (∀ i < agree mem n x, x[i]? = some (mem (n + i))) ∧ x[agree mem n x]? ≠ some (mem (n + agree mem n x)) := by
  induction x generalizing n with
  | nil => simp [agree]
  | cons y x ih =>
    by_cases hy : y = mem n
    · obtain ⟨h1, h2⟩ := ih (n + 1)
      simp only [agree, if_pos hy]
      refine ⟨fun i hi => ?_, ?_⟩
      · rcases i with _ | i
        · simp [hy]
        · rw [List.getElem?_cons_succ, h1 i (by omega)]
          congr 2
          omega
      · rw [List.getElem?_cons_succ]
        convert h2 using 3
        omega
    · simp [agree, hy]

/-- All of `x` agrees. -/
theorem agree_eq_length_iff :
    agree mem n x = x.length ↔ ∀ i < x.length, x[i]? = some (mem (n + i)) := by
  obtain ⟨h1, h2⟩ := agree_spec mem n x
  have hle := agree_le mem n x
  constructor
  · intro h
    rwa [h] at h1
  · intro h
    by_contra hne
    exact h2 (h _ (by omega))

/-- The bytes of an append agree if both parts do. -/
theorem agrees_append {y : List UInt8} :
    (∀ i < (x ++ y).length, (x ++ y)[i]? = some (mem (n + i))) ↔
      (∀ i < x.length, x[i]? = some (mem (n + i))) ∧
        ∀ i < y.length, y[i]? = some (mem (n + x.length + i)) := by
  constructor
  · intro h
    refine ⟨fun i hi => ?_, fun i hi => ?_⟩
    · rw [← List.getElem?_append_left hi]
      exact h i (by simp; omega)
    · have := h (x.length + i) (by simpa using hi)
      rwa [List.getElem?_append_right (by omega), Nat.add_sub_cancel_left, ← Nat.add_assoc] at this
  · rintro ⟨h1, h2⟩ i hi
    rw [List.length_append] at hi
    by_cases hix : i < x.length
    · rw [List.getElem?_append_left hix, h1 i hix]
    · rw [List.getElem?_append_right (by omega), h2 (i - x.length) (by omega)]
      congr 2
      omega

/-- Whether the separator goes on depends on the chunk it goes on in, and, if that is too short, on
the chunks after it. -/
theorem continues_cons :
    Continues mem l n (x :: xs).flatten ↔
      (∀ i < x.length, n + i < l → x[i]? = some (mem (n + i))) ∧
        (n + x.length < l → Continues mem l (n + x.length) xs.flatten) := by
  rw [List.flatten_cons]
  constructor
  · intro h
    refine ⟨fun i hi hil => ?_, fun hx i hi => ?_⟩
    · rw [← List.getElem?_append_left hi]
      exact h i hil
    · have := h (x.length + i) (by omega)
      rw [List.getElem?_append_right (by omega), Nat.add_sub_cancel_left] at this
      rw [this, Nat.add_assoc]
  · rintro ⟨h1, h2⟩ i hi
    by_cases hix : i < x.length
    · rw [List.getElem?_append_left hix]
      exact h1 i hix hi
    · rw [List.getElem?_append_right (by omega), h2 (by omega) (i - x.length) (by omega)]
      congr 2
      omega

/-- A chunk edge inside the separator, with what comes before the edge agreeing, after which the
next chunk is longer than the rest of the separator. -/
def Overhang (mem : ℕ → UInt8) (l n : ℕ) (xs : List (List UInt8)) : Prop :=
  ∃ pre y post, xs = pre ++ y :: post ∧ 0 < n + pre.flatten.length ∧ n + pre.flatten.length < l ∧
    (∀ i < pre.flatten.length, pre.flatten[i]? = some (mem (n + i))) ∧
    l < n + pre.flatten.length + y.length

/-- The end of the input does not stick out of a match. -/
theorem not_overhang_nil : ¬ Overhang mem l n [] := by
  rintro ⟨pre, y, post, h, -⟩
  simp at h

/-- The first chunk overhangs itself, or agrees and leads to an overhang of a later one. -/
theorem overhang_cons :
    Overhang mem l n (x :: xs) ↔
      (0 < n ∧ n < l ∧ l < n + x.length) ∨
        ((∀ i < x.length, x[i]? = some (mem (n + i))) ∧ 0 < n + x.length ∧
          Overhang mem l (n + x.length) xs) ∨
        (n = 0 ∧ x = [] ∧ Overhang mem l 0 xs) := by
  constructor
  · rintro ⟨pre, y, post, heq, h0, hl, hag, hy⟩
    rcases pre with _ | ⟨z, pre⟩
    · obtain ⟨rfl, rfl⟩ := List.cons.inj heq
      exact .inl ⟨by simpa using h0, by simpa using hl, by simpa using hy⟩
    · obtain ⟨rfl, rfl⟩ := List.cons.inj heq
      rw [List.flatten_cons, agrees_append] at hag
      simp only [List.flatten_cons, List.length_append] at h0 hl hy
      by_cases hx : 0 < n + x.length
      · exact .inr (.inl ⟨hag.1, hx, pre, y, post, rfl, by omega, by omega, hag.2, by omega⟩)
      · have hx0 : x = [] := List.length_eq_zero_iff.mp (by omega)
        have hn0 : n = 0 := by omega
        subst hx0 hn0
        exact .inr (.inr ⟨rfl, rfl, pre, y, post, rfl, by simpa using h0, by simpa using hl,
          by simpa using hag.2, by simpa using hy⟩)
  · rintro (⟨h0, hl, hy⟩ | ⟨hag, h0, pre, y, post, rfl, h0', hl, hag', hy⟩ |
      ⟨rfl, rfl, pre, y, post, rfl, h0, hl, hag, hy⟩)
    · exact ⟨[], x, xs, rfl, by simpa using h0, by simpa using hl, by simp, by simpa using hy⟩
    · refine ⟨x :: pre, y, post, rfl, ?_, ?_, ?_, ?_⟩
      · simp only [List.flatten_cons, List.length_append]
        omega
      · simp only [List.flatten_cons, List.length_append]
        omega
      · rw [List.flatten_cons, agrees_append]
        exact ⟨hag, hag'⟩
      · simp only [List.flatten_cons, List.length_append]
        omega
    · exact ⟨[] :: pre, y, post, rfl, by simpa using h0, by simpa using hl, by simpa using hag,
        by simpa using hy⟩

/-! ## One position -/

/-- What one comparison does and which bytes of the separator it inspects. -/
structure ScanSpec (mem : ℕ → UInt8) (l n : ℕ) (xs : List (List UInt8))
    (r : Option ℕ × List Cmp) : Prop where
  /-- A success means that the separator is there. -/
  sound : ∀ t, r.1 = some t → Continues mem l n xs.flatten
  /-- Without overhang a separator that is there is found, and taken exactly. -/
  complete : ¬ Overhang mem l n xs → Continues mem l n xs.flatten → r.1 = some (l - n)
  /-- `memcmp` is given too long a range exactly at an overhang. -/
  whole : (∀ c ∈ r.2, c.Inside .whole l) ↔ ¬ Overhang mem l n xs
  /-- A comparison byte by byte goes too far exactly at an overhang where the separator is. -/
  untilDifference : (∀ c ∈ r.2, c.Inside .untilDifference l) ↔
    ¬ (Overhang mem l n xs ∧ Continues mem l n xs.flatten)

/-- In the chunk where the comparison ends, an overhang is a matter of lengths. -/
theorem overhang_cons_of_last (hn : n < l)
    (hlast : l ≤ n + x.length ∨ ¬ ∀ i < x.length, x[i]? = some (mem (n + i))) :
    Overhang mem l n (x :: xs) ↔ 0 < n ∧ l < n + x.length := by
  rw [overhang_cons]
  constructor
  · rintro (⟨h0, -, hy⟩ | ⟨hag, -, pre, y, post, -, -, hl, -⟩ | ⟨rfl, rfl, -⟩)
    · exact ⟨h0, hy⟩
    · rcases hlast with h | h
      · omega
      · exact absurd hag h
    · rcases hlast with h | h
      · simp at h
        omega
      · simp at h
  · rintro ⟨h0, hy⟩
    exact .inl ⟨h0, hn, hy⟩

/-- The comparison over the chunks, from byte `n` of the separator on. -/
theorem sepScan_spec (xs : List (List UInt8)) (hn : n < l) :
    ScanSpec mem l n xs (sepScan mem l xs n) := by
  induction xs generalizing n with
  | nil =>
    have hno : ¬ Continues mem l n [] := fun h => by simpa using h 0 hn
    refine ⟨by simp [sepScan], fun _ h => absurd h hno, ?_, ?_⟩
    · simp [sepScan, not_overhang_nil]
    · simp [sepScan, not_overhang_nil]
  | cons x xs ih =>
    have hle := agree_le mem n (x.take (min x.length l))
    obtain ⟨hag, hdiff⟩ := agree_spec mem n (x.take (min x.length l))
    have htake : ∀ i < min x.length l, (x.take (min x.length l))[i]? = x[i]? :=
      fun i hi => List.getElem?_take_of_lt hi
    rw [List.length_take] at hle
    simp only [sepScan]
    split
    · next hk =>
      rw [hk] at hag
      have hag' : ∀ i < min x.length l, x[i]? = some (mem (n + i)) := fun i hi =>
        (htake i hi).symm.trans (hag i hi)
      split
      · next hend =>
        -- the last chunk of the comparison, and all of it agrees
        have hcont : Continues mem l n (x :: xs).flatten :=
          continues_cons.mpr ⟨fun i hi hil => hag' i (by omega), fun h => by omega⟩
        have hover : Overhang mem l n (x :: xs) ↔ 0 < n ∧ l < n + x.length :=
          overhang_cons_of_last hn (.inl (by omega))
        refine ⟨fun _ _ => hcont, fun h _ => ?_, ?_, ?_⟩
        · rw [hover] at h
          exact congrArg some (by omega)
        · rw [hover]
          simp only [List.mem_singleton, forall_eq, Cmp.Inside]
          omega
        · rw [hover]
          simp only [List.mem_singleton, forall_eq, Cmp.Inside, hcont, and_true, hk]
          omega
      · next hend =>
        -- the whole chunk agrees and the comparison goes on in the next one
        have hx : min x.length l = x.length := by omega
        rw [hx] at hag' hend ⊢
        have hrec := ih (show n + x.length < l by omega)
        have hcont : Continues mem l n (x :: xs).flatten ↔
            Continues mem l (n + x.length) xs.flatten := by
          rw [continues_cons]
          exact ⟨fun h => h.2 (by omega), fun h => ⟨fun i hi _ => hag' i hi, fun _ => h⟩⟩
        have hover : Overhang mem l n (x :: xs) ↔ Overhang mem l (n + x.length) xs := by
          rw [overhang_cons]
          constructor
          · rintro (⟨-, -, h⟩ | ⟨-, -, h⟩ | ⟨rfl, rfl, h⟩)
            · omega
            · exact h
            · exact h
          · intro h
            by_cases h0 : 0 < n + x.length
            · exact .inr (.inl ⟨hag', h0, h⟩)
            · have hx0 : x = [] := List.length_eq_zero_iff.mp (by omega)
              have hn0 : n = 0 := by omega
              subst hx0 hn0
              exact .inr (.inr ⟨rfl, rfl, h⟩)
        refine ⟨fun t ht => ?_, fun h hc => ?_, ?_, ?_⟩
        · obtain ⟨t', ht', -⟩ := Option.map_eq_some_iff.mp ht
          exact hcont.mpr (hrec.sound t' ht')
        · rw [hrec.complete (hover.not.mp h) (hcont.mp hc), Option.map_some]
          exact congrArg some (by omega)
        · rw [hover, ← hrec.whole, List.forall_mem_cons, and_iff_right]
          simp only [Cmp.Inside]
          omega
        · rw [hover, hcont, ← hrec.untilDifference, List.forall_mem_cons, and_iff_right]
          simp only [Cmp.Inside]
          omega
    · next hk =>
      -- a difference at index `k` of this chunk
      have hklt : agree mem n (x.take (min x.length l)) < min x.length l := by omega
      rw [htake _ hklt] at hdiff
      have hover : Overhang mem l n (x :: xs) ↔ 0 < n ∧ l < n + x.length :=
        overhang_cons_of_last hn (.inr fun h => hdiff (h _ (by omega)))
      have hnot : Continues mem l n (x :: xs).flatten →
          l ≤ n + agree mem n (x.take (min x.length l)) := by
        intro h
        by_contra hlt
        exact hdiff ((continues_cons.mp h).1 _ (by omega) (by omega))
      have hcont : l ≤ n + agree mem n (x.take (min x.length l)) →
          Continues mem l n (x :: xs).flatten := by
        intro h
        refine continues_cons.mpr ⟨fun i hi hil => ?_, fun h' => by omega⟩
        rw [← htake i (by omega)]
        exact hag i (by omega)
      refine ⟨by simp, fun h hc => ?_, ?_, ?_⟩
      · rw [hover] at h
        have := hnot hc
        omega
      · rw [hover]
        simp only [List.mem_singleton, forall_eq, Cmp.Inside]
        omega
      · rw [hover]
        simp only [List.mem_singleton, forall_eq, Cmp.Inside]
        constructor
        · rintro h ⟨-, hc⟩
          have := hnot hc
          omega
        · intro h
          by_contra hlt
          exact h ⟨by omega, hcont (by omega)⟩

/-- A comparison succeeds exactly if whole chunks agree with the separator up to one in which it
would end, and that one agrees over as many bytes as `checksep` gives to `memcmp`. -/
theorem sepScan_eq_some_iff {t : ℕ} (hn : n < l) :
    (sepScan mem l xs n).1 = some t ↔
      ∃ pre y post, xs = pre ++ y :: post ∧ n + pre.flatten.length < l ∧
        l ≤ n + pre.flatten.length + y.length ∧ t = (pre.flatten ++ y.take l).length ∧
        ∀ i < t, (pre.flatten ++ y.take l)[i]? = some (mem (n + i)) := by
  induction xs generalizing n t with
  | nil => simp [sepScan]
  | cons x xs ih =>
    have hfull : agree mem n (x.take (min x.length l)) = min x.length l ↔
        ∀ i < min x.length l, (x.take l)[i]? = some (mem (n + i)) := by
      have h := @agree_eq_length_iff mem n (x.take (min x.length l))
      rw [List.length_take, show min (min x.length l) x.length = min x.length l by omega] at h
      rw [h]
      refine forall₂_congr fun i hi => ?_
      rw [List.getElem?_take_of_lt hi, List.getElem?_take_of_lt (by omega)]
    simp only [sepScan]
    constructor
    · intro h
      split at h
      · next hk =>
        split at h
        · next hend =>
          obtain rfl := Option.some.inj h
          refine ⟨[], x, xs, rfl, by simpa using hn, ?_, ?_, fun i hi => hfull.mp hk i hi⟩
          · rw [List.flatten_nil, List.length_nil]
            omega
          · rw [List.flatten_nil, List.nil_append, List.length_take]
            omega
        · next hend =>
          obtain ⟨t', ht', rfl⟩ := Option.map_eq_some_iff.mp h
          obtain ⟨pre, y, post, rfl, hl, hl', rfl, hag⟩ := (ih (by omega)).mp ht'
          have hx : min x.length l = x.length := by omega
          have htake : x.take l = x := List.take_of_length_le (by omega)
          have hk' := hfull.mp hk
          rw [hx, htake] at hk'
          refine ⟨x :: pre, y, post, rfl, ?_, ?_, ?_, ?_⟩
          · rw [List.flatten_cons, List.length_append]
            omega
          · rw [List.flatten_cons, List.length_append]
            omega
          · simp only [hx, List.flatten_cons, List.append_assoc, List.length_append]
          · rw [hx] at hag ⊢
            have := (agrees_append (y := pre.flatten ++ y.take l)).mpr ⟨hk', hag⟩
            rwa [List.flatten_cons, List.append_assoc, ← List.length_append]
      · cases h
    · rintro ⟨pre, y, post, heq, hl, hl', rfl, hag⟩
      rcases pre with _ | ⟨z, pre⟩
      · obtain ⟨rfl, rfl⟩ := List.cons.inj heq
        simp only [List.flatten_nil, List.nil_append, List.length_nil, List.length_take] at hl hl' hag ⊢
        rw [if_pos (hfull.mpr fun i hi => hag i (by omega)), if_pos (by omega)]
        exact congrArg some (by omega)
      · obtain ⟨rfl, rfl⟩ := List.cons.inj heq
        rw [List.flatten_cons, List.append_assoc] at hag ⊢
        simp only [List.flatten_cons, List.length_append] at hl hl'
        have hx : min x.length l = x.length := by omega
        have htake : x.take l = x := List.take_of_length_le (by omega)
        obtain ⟨h1, h2⟩ := agrees_append.mp hag
        rw [if_pos (hfull.mpr (by rwa [hx, htake])), if_neg (by omega), hx,
          (ih (by omega)).mpr ⟨pre, y, post, rfl, by omega, by omega, rfl, h2⟩, Option.map_some]
        simp only [List.length_append]

/-! ## One position after the other -/

/-- The bytes behind the first `q`, in chunks. -/
theorem dropBytes_flatten (q : ℕ) (chunks : List (List UInt8)) :
    (dropBytes q chunks).flatten = chunks.flatten.drop q := by
  induction chunks generalizing q with
  | nil => simp [dropBytes]
  | cons x xs ih =>
    simp only [dropBytes]
    split
    · next h => rw [List.flatten_cons, List.flatten_cons, List.drop_append_of_le_length h.le]
    · next h =>
      rw [ih, List.flatten_cons, List.drop_append, List.drop_of_length_le (not_lt.mp h),
        List.nil_append]

/-- Behind the end there are no chunks left. -/
theorem dropBytes_eq_nil {q : ℕ} (h : chunks.flatten.length ≤ q) : dropBytes q chunks = [] := by
  induction chunks generalizing q with
  | nil => rfl
  | cons x xs ih =>
    rw [List.flatten_cons, List.length_append] at h
    rw [dropBytes, if_neg (by omega), ih (by omega)]

/-- A scan over `k + m` positions scans `k` of them and goes on if it found nothing. -/
theorem scanFrom_add (k m q : ℕ) :
    scanFrom mem l chunks (k + m) q =
      match scanFrom mem l chunks k q with
      | (some r, cs) => (some r, cs)
      | (none, cs) =>
        ((scanFrom mem l chunks m (q + k)).1, cs ++ (scanFrom mem l chunks m (q + k)).2) := by
  induction k generalizing q with
  | zero => simp [scanFrom]
  | succ k ih =>
    rw [show k + 1 + m = k + m + 1 by omega]
    simp only [scanFrom]
    rcases sepScan mem l (dropBytes q chunks) 0 with ⟨_ | t, cs⟩
    · simp only [ih]
      rcases scanFrom mem l chunks k (q + 1) with ⟨_ | r, cs'⟩
      · have : q + 1 + k = q + (k + 1) := by omega
        simp [this]
      · simp
    · simp

/-- No comparison succeeds before position `p`. -/
def Tried (mem : ℕ → UInt8) (l : ℕ) (chunks : List (List UInt8)) (q p : ℕ) : Prop :=
  ∀ p', q ≤ p' → p' < p → (sepScan mem l (dropBytes p' chunks) 0).1 = none

/-- The scan succeeds at the first position where a comparison does. -/
theorem scanFrom_fst (k q : ℕ) :
    match (scanFrom mem l chunks k q).1 with
    | none => Tried mem l chunks q (q + k)
    | some (p, t) => q ≤ p ∧ p < q + k ∧ Tried mem l chunks q p ∧
        (sepScan mem l (dropBytes p chunks) 0).1 = some t := by
  induction k generalizing q with
  | zero =>
    intro p' h1 h2
    omega
  | succ k ih =>
    simp only [scanFrom]
    rcases hq : sepScan mem l (dropBytes q chunks) 0 with ⟨_ | t, cs⟩
    -- position `q` failed, so what was tried from `q + 1` on was tried from `q` on
    · have hstep : ∀ p, Tried mem l chunks (q + 1) p → Tried mem l chunks q p := by
        intro p h p' h1 h2
        rcases Nat.eq_or_lt_of_le h1 with rfl | h1
        · rw [hq]
        · exact h p' h1 h2
      have hrec := ih (q + 1)
      simp only
      rcases hr : (scanFrom mem l chunks k (q + 1)).1 with _ | ⟨p, t⟩ <;> rw [hr] at hrec
      · rw [show q + (k + 1) = q + 1 + k by omega]
        exact hstep _ hrec
      · obtain ⟨h1, h2, h3, h4⟩ := hrec
        exact ⟨by omega, by omega, hstep _ h3, h4⟩
    · refine ⟨le_refl q, by omega, fun p' h1 h2 => by omega, ?_⟩
      rw [hq]

/-- The calls of `memcmp` of a scan are those of the positions it tries. -/
theorem mem_scanFrom_snd {c : Cmp} (k q : ℕ) :
    c ∈ (scanFrom mem l chunks k q).2 ↔
      ∃ p, q ≤ p ∧ p < q + k ∧ Tried mem l chunks q p ∧
        c ∈ (sepScan mem l (dropBytes p chunks) 0).2 := by
  induction k generalizing q with
  | zero =>
    simp only [scanFrom, List.not_mem_nil, false_iff]
    rintro ⟨p, h1, h2, -⟩
    omega
  | succ k ih =>
    simp only [scanFrom]
    rcases hq : sepScan mem l (dropBytes q chunks) 0 with ⟨_ | t, cs⟩
    · simp only [List.mem_append, ih]
      constructor
      · rintro (h | ⟨p, h1, h2, h3, h4⟩)
        · exact ⟨q, le_refl q, by omega, fun p' h1 h2 => by omega, by rw [hq]; exact h⟩
        · refine ⟨p, by omega, by omega, fun p' h1' h2' => ?_, h4⟩
          rcases Nat.eq_or_lt_of_le h1' with rfl | h1'
          · rw [hq]
          · exact h3 p' h1' h2'
      · rintro ⟨p, h1, h2, h3, h4⟩
        rcases Nat.eq_or_lt_of_le h1 with rfl | h1
        · rw [hq] at h4
          exact .inl h4
        · exact .inr ⟨p, h1, by omega, fun p' h1' h2' => h3 p' (by omega) h2', h4⟩
    -- a match at `q` ends the search, so a comparison at a later position was not made
    · constructor
      · intro h
        exact ⟨q, le_refl q, by omega, fun p' h1 h2 => by omega, by rw [hq]; exact h⟩
      · rintro ⟨p, h1, h2, h3, h4⟩
        rcases Nat.eq_or_lt_of_le h1 with rfl | h1
        · rw [hq] at h4
          exact h4
        · have := h3 q (le_refl q) h1
          rw [hq] at this
          cases this

/-! ## What the scan finds, and when it reads too far -/

/-- A comparison at position `p` inspects the separator past its end. -/
def Overreads (r : Reading) (mem : ℕ → UInt8) (l : ℕ) (chunks : List (List UInt8)) (p : ℕ) : Prop :=
  match r with
  | .whole => Overhang mem l 0 (dropBytes p chunks)
  | .untilDifference =>
    Overhang mem l 0 (dropBytes p chunks) ∧ Continues mem l 0 (chunks.flatten.drop p)

variable {r : Reading} {p q : ℕ}

/-- The comparison at a position, in terms of the bytes from there on. -/
theorem sepScan_at (hl : 0 < l) (chunks : List (List UInt8)) (p : ℕ) :
    ScanSpec mem l 0 (dropBytes p chunks) (sepScan mem l (dropBytes p chunks) 0) :=
  sepScan_spec _ hl

/-- Every comparison stays inside its blocks, unless one of them overreads. -/
theorem inside_iff_not_overreads (hl : 0 < l) :
    (∀ c ∈ (sepScan mem l (dropBytes p chunks) 0).2, c.Inside r l) ↔
      ¬ Overreads r mem l chunks p := by
  have h : ScanSpec mem l 0 (dropBytes p chunks) _ := sepScan_at hl chunks p
  cases r
  · exact h.whole
  · rw [Overreads, ← dropBytes_flatten]
    exact h.untilDifference

/-- A comparison that does not read too far succeeds exactly where the separator is. -/
theorem sepScan_eq_some (hl : 0 < l) (hin : ¬ Overreads r mem l chunks p)
    (hp : Continues mem l 0 (chunks.flatten.drop p)) :
    (sepScan mem l (dropBytes p chunks) 0).1 = some l := by
  have h : ScanSpec mem l 0 (dropBytes p chunks) _ := sepScan_at hl chunks p
  have hover : ¬ Overhang mem l 0 (dropBytes p chunks) := by
    cases r
    · exact hin
    · exact fun h => hin ⟨h, hp⟩
  exact h.complete hover (by rwa [dropBytes_flatten])

/-- What the scan finds is an occurrence of the separator. -/
theorem continues_of_sepScan (hl : 0 < l) {t : ℕ}
    (h : (sepScan mem l (dropBytes p chunks) 0).1 = some t) :
    Continues mem l 0 (chunks.flatten.drop p) := by
  rw [← dropBytes_flatten]
  exact (sepScan_at hl chunks p).sound t h

/-- The separator does not occur before position `p`. -/
def NoneBefore (mem : ℕ → UInt8) (l : ℕ) (B : List UInt8) (p : ℕ) : Prop :=
  ∀ q < p, ¬ Continues mem l 0 (B.drop q)

/-- If no position up to the first occurrence reads too far, a position is tried exactly if the
separator does not occur before it. -/
theorem tried_iff_noneBefore (hl : 0 < l)
    (hin : ∀ q < p, NoneBefore mem l chunks.flatten q → ¬ Overreads r mem l chunks q) :
    Tried mem l chunks 0 p ↔ NoneBefore mem l chunks.flatten p := by
  constructor
  · intro h q hq
    -- the first occurrence before `p` would have been found
    induction q using Nat.strong_induction_on with
    | _ q ih =>
      intro hc
      have hnone : NoneBefore mem l chunks.flatten q := fun q' hq' => ih q' hq' (by omega)
      have hsome := sepScan_eq_some hl (hin q hq hnone) hc
      rw [h q (Nat.zero_le q) hq] at hsome
      cases hsome
  · intro h q _ hq
    by_contra hne
    obtain ⟨t, ht⟩ := Option.ne_none_iff_exists'.mp hne
    exact h q hq (continues_of_sepScan hl ht)

/-- The whole scan inspects the separator below its length only, exactly if no position up to the
first occurrence reads too far. -/
theorem scanFrom_inside_iff (hl : 0 < l) (k : ℕ) :
    (∀ c ∈ (scanFrom mem l chunks k 0).2, c.Inside r l) ↔
      ∀ p < k, NoneBefore mem l chunks.flatten p → ¬ Overreads r mem l chunks p := by
  constructor
  · intro h p hp
    induction p using Nat.strong_induction_on with
    | _ p ih =>
      intro hnone
      have htried : Tried mem l chunks 0 p :=
        (tried_iff_noneBefore hl fun q hq => ih q hq (by omega)).mpr hnone
      refine (inside_iff_not_overreads hl).mp fun c hc => h c ?_
      exact (mem_scanFrom_snd k 0).mpr ⟨p, Nat.zero_le p, by omega, htried, hc⟩
  · intro h c hc
    obtain ⟨p, -, hp, htried, hc⟩ := (mem_scanFrom_snd k 0).mp hc
    have hnone := (tried_iff_noneBefore hl fun q hq => h q (by omega)).mp htried
    exact (inside_iff_not_overreads hl).mpr (h p (by omega) hnone) c hc

/-- A scan of all positions that never reads too far finds the first occurrence and takes exactly
the separator there. -/
theorem scanFrom_of_inside (hl : 0 < l) {k : ℕ}
    (h : ∀ p < k, NoneBefore mem l chunks.flatten p → ¬ Overreads r mem l chunks p) :
    match (scanFrom mem l chunks k 0).1 with
    | none => NoneBefore mem l chunks.flatten k
    | some (p, t) => p < k ∧ t = l ∧ NoneBefore mem l chunks.flatten p ∧
        Continues mem l 0 (chunks.flatten.drop p) := by
  have hfst := @scanFrom_fst mem l chunks k 0
  rcases hr : (scanFrom mem l chunks k 0).1 with _ | ⟨p, t⟩ <;> rw [hr] at hfst
  · rw [Nat.zero_add] at hfst
    exact (tried_iff_noneBefore hl fun q hq => h q (by omega)).mp hfst
  · obtain ⟨-, hp, htried, ht⟩ := hfst
    have hnone := (tried_iff_noneBefore hl fun q hq => h q (by omega)).mp htried
    have hc := continues_of_sepScan hl ht
    have hsome := sepScan_eq_some hl (h p (by omega) hnone) hc
    rw [hsome] at ht
    exact ⟨by omega, (Option.some.inj ht).symm, hnone, hc⟩

end Lsocket.Buffer
