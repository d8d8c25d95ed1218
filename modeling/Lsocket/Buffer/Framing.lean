import Lsocket.Buffer.Run

/-!
# When framing by a separator works

`Frames` is what a protocol that ends its messages with a separator needs of `pop(sep)` and
`findsep(sep)`, and `Fits` says of the chunks alone when the code provides it (`frames_iff_fits`).
A separator that runs over the edge of a chunk is compared with too many bytes of the next one,
unless that one is no longer than the rest of the separator.
-/

namespace Lsocket.Buffer

open CInt

variable {b : Buf} {sep : LuaString} {r : Reading} {xs : List (List UInt8)}

/-! ## What is wanted -/

/-- The separator stands at index `i` of the bytes. -/
def Occurs (sep : LuaString) (B : List UInt8) (i : ℕ) : Prop := sep.bytes <+: B.drop i

/-- The separator stands at index `i` and nowhere before. -/
def FirstOccurs (sep : LuaString) (B : List UInt8) (i : ℕ) : Prop :=
  Occurs sep B i ∧ ∀ j < i, ¬ Occurs sep B j

/-- `pop(sep)` returns the bytes before the first separator and leaves those behind it, `findsep`
tells whether there is one, and no comparison inspects the separator past its end. -/
structure Framed (r : Reading) (b : Buf) (sep : LuaString) (v w : LuaValue) (c d : Buf) : Prop where
  pop : lpop (.string sep) b = (.ok v, c)
  findsep : lfindsep sep b = (.ok w, d)
  findsep_same : d.sb = b.sb ∧ d.mem = b.mem
  inside : ∀ x ∈ c.cmps.drop b.cmps.length ++ d.cmps.drop b.cmps.length,
    x.Inside r sep.bytes.length
  found : ∀ i, FirstOccurs sep (content b) i → v = .string ((content b).take i) ∧
    content c = (content b).drop (i + sep.bytes.length) ∧ w = .true
  missing : (∀ i, ¬ Occurs sep (content b) i) → v = .nil ∧ c.sb = b.sb ∧ c.mem = b.mem ∧ w = .nil

/-- The calls on this buffer frame by this separator. -/
def Frames (r : Reading) (b : Buf) (sep : LuaString) : Prop := ∃ v w c d, Framed r b sep v w c d

/-! ## When the code does it -/

/-- Wherever the separator, not having occurred before, runs over an edge of the chunks, the chunk
behind the edge ends within it. If `memcmp` inspects its whole range, it is enough to run over the
edge that the bytes up to there agree; if it stops at the first difference, all of the separator
has to be there. -/
def Fits (r : Reading) (sep : LuaString) (xs : List (List UInt8)) : Prop :=
  ∀ p, (∀ q < p, ¬ Occurs sep xs.flatten q) →
    ∀ pre y post, dropBytes p xs = pre ++ y :: post →
      pre.flatten ≠ [] → pre.flatten.length < sep.bytes.length →
      (match r with
        | .whole => pre.flatten <+: sep.bytes
        | .untilDifference => Occurs sep xs.flatten p) →
      pre.flatten.length + y.length ≤ sep.bytes.length

/-- Whole chunks and the first bytes of one more, at least `n` bytes in all and less than `n` before
that one, agree with the separator. -/
def Matches (sep : LuaString) (n : ℕ) (xs : List (List UInt8)) : Prop :=
  ∃ pre y post, xs = pre ++ y :: post ∧ pre.flatten.length < n ∧
    n ≤ pre.flatten.length + y.length ∧ (pre.flatten ++ y.take n) <+: sep.bytes

/-- `Fits`, or, of a separator whose length is not an `int`, that what is left of its length is
positive and matches nowhere, or that there is nothing to compare with. -/
def FitsBuffer (r : Reading) (sep : LuaString) (xs : List (List UInt8)) : Prop :=
  if (sep.bytes.length : ℤ) ≤ INT_MAX then Fits r sep xs
  else xs.flatten = [] ∨ (0 < wrap sep.bytes.length ∧
    ∀ p, ¬ Matches sep (wrap sep.bytes.length).toNat (dropBytes p xs))

/-! ## Prefixes and memory -/

/-- Bytes agree with the memory of the separator, as far as it reaches, if they begin it. -/
theorem agrees_iff_isPrefix {x : List UInt8} (hx : x.length ≤ sep.bytes.length) :
    (∀ i < x.length, x[i]? = some (sep.mem (0 + i))) ↔ x <+: sep.bytes := by
  rw [List.prefix_iff_getElem?]
  constructor
  · intro h i hi
    have := h i hi
    rw [Nat.zero_add, sep.mem_lt i (by omega), List.getElem?_eq_getElem hi] at this
    rw [List.getElem?_eq_getElem (by omega), Option.some.inj this]
  · intro h i hi
    have := h i hi
    rw [List.getElem?_eq_getElem (by omega)] at this
    rw [Nat.zero_add, sep.mem_lt i (by omega), this, List.getElem?_eq_getElem hi]

/-- An occurrence is a match from the first byte of the separator. -/
theorem occurs_iff_continues {B : List UInt8} {i : ℕ} :
    Occurs sep B i ↔ Continues sep.mem sep.bytes.length 0 (B.drop i) := by
  rw [Occurs, List.prefix_iff_getElem?]
  constructor
  · intro h j hj
    rw [Nat.zero_add] at hj
    rw [h j hj, Nat.zero_add, sep.mem_lt j hj]
  · intro h j hj
    rw [h j (by omega), Nat.zero_add, sep.mem_lt j hj]

/-- The scan has passed no occurrence. -/
theorem noneBefore_iff {B : List UInt8} {p : ℕ} :
    NoneBefore sep.mem sep.bytes.length B p ↔ ∀ q < p, ¬ Occurs sep B q := by
  simp only [NoneBefore, occurs_iff_continues]

/-- A separator that is not empty does not stand past the end. -/
theorem Occurs.lt_length {B : List UInt8} {i : ℕ} (h : Occurs sep B i) (hsep : sep.bytes ≠ []) :
    i + sep.bytes.length ≤ B.length := by
  have hle := List.IsPrefix.length_le h
  have hpos := List.length_pos_of_ne_nil hsep
  rw [List.length_drop] at hle
  omega

/-- `Fits` excludes exactly the positions that read too far. -/
theorem fits_iff :
    Fits r sep xs ↔ ∀ p < xs.flatten.length,
      NoneBefore sep.mem sep.bytes.length xs.flatten p →
        ¬ Overreads r sep.mem sep.bytes.length xs p := by
  constructor
  · intro h p _ hnone hover
    have hfit := h p (noneBefore_iff.mp hnone)
    -- the two readings differ only in what the bytes after the edge must do
    cases r
    · obtain ⟨pre, y, post, heq, h0, hl, hag, hy⟩ := hover
      rw [Nat.zero_add] at h0 hl hy
      have := hfit pre y post heq (List.ne_nil_of_length_pos h0) hl
        ((agrees_iff_isPrefix hl.le).mp hag)
      omega
    · obtain ⟨⟨pre, y, post, heq, h0, hl, -, hy⟩, hc⟩ := hover
      rw [Nat.zero_add] at h0 hl hy
      have := hfit pre y post heq (List.ne_nil_of_length_pos h0) hl (occurs_iff_continues.mpr hc)
      omega
  · intro h p hnone pre y post heq hne hl hag
    have hp : p < xs.flatten.length := by
      by_contra hge
      rw [dropBytes_eq_nil (not_lt.mp hge)] at heq
      simp at heq
    by_contra hlt
    refine h p hp (noneBefore_iff.mpr hnone) ?_
    have h0 := List.length_pos_of_ne_nil hne
    cases r
    · exact ⟨pre, y, post, heq, by omega, by omega, (agrees_iff_isPrefix hl.le).mpr hag, by omega⟩
    · -- the separator stands here, so the bytes before the edge begin it
      have hpre : pre.flatten <+: sep.bytes := by
        have hag' : sep.bytes <+: xs.flatten.drop p := hag
        rw [← dropBytes_flatten, heq, List.flatten_append] at hag'
        exact List.prefix_of_prefix_length_le (List.prefix_append _ _) hag' hl.le
      exact ⟨⟨pre, y, post, heq, by omega, by omega, (agrees_iff_isPrefix hl.le).mpr hpre,
        by omega⟩, occurs_iff_continues.mp hag⟩

/-! ## The calls, by what the scan finds -/

/-- Both calls with a separator whose length becomes a natural number `len`. -/
theorem framed_of_scan (h : Inv b) (hsep : sep.bytes ≠ []) {len : ℕ}
    (hlen : wrap sep.bytes.length = len) :
    ∃ v c, lpop (.string sep) b = (.ok v, c) ∧
      lfindsep sep b = (.ok (if (scan b sep.mem len).1 = none then .nil else .true),
        { b with cmps := b.cmps ++ (scan b sep.mem len).2 }) ∧
      c.cmps = b.cmps ++ (scan b sep.mem len).2 ∧
      match (scan b sep.mem len).1 with
      | none => v = .nil ∧ c.sb = b.sb ∧ c.mem = b.mem
      | some (p, t) => p + t ≤ (content b).length ∧ v = .string ((content b).take p) ∧
          content c = (content b).drop (p + t) ∧ Taken b c (p + t) := by
  obtain ⟨v, c, hr, -, hcmps, hcase⟩ := readsep_spec sep.mem len h
  refine ⟨v, c, ?_, lfindsep_spec sep len h hlen, hcmps, hcase⟩
  rw [lpop, if_pos (List.length_pos_of_ne_nil hsep), hlen]
  exact hr

/-- Framing, of the results of the calls: the comparisons stay inside, and what the scan finds is
the first separator. -/
theorem frames_iff_scan (h : Inv b) (hsep : sep.bytes ≠ []) {len : ℕ}
    (hlen : wrap sep.bytes.length = len) :
    Frames r b sep ↔ (∀ x ∈ (scan b sep.mem len).2, x.Inside r sep.bytes.length) ∧
      match (scan b sep.mem len).1 with
      | none => ∀ i, ¬ Occurs sep (content b) i
      | some (p, t) => t = sep.bytes.length ∧ FirstOccurs sep (content b) p := by
  obtain ⟨v, c, hpop, hfind, hcmps, hcase⟩ := framed_of_scan h hsep hlen
  constructor
  · rintro ⟨v', w, c', d, hf⟩
    have hp := hf.pop
    rw [hpop] at hp
    obtain ⟨hv, rfl⟩ := Prod.mk.inj hp
    obtain rfl := Except.ok.inj hv
    have hs := hf.findsep
    rw [hfind] at hs
    obtain ⟨hw, rfl⟩ := Prod.mk.inj hs
    obtain rfl := Except.ok.inj hw
    refine ⟨fun x hx => hf.inside x ?_, ?_⟩
    · rw [hcmps, List.drop_left]
      exact List.mem_append_left _ hx
    -- if there is a separator there is a first one
    have hfirst : ∀ i, Occurs sep (content b) i → ∃ j, FirstOccurs sep (content b) j := by
      intro i
      induction i using Nat.strong_induction_on with
      | _ i ih =>
        intro hi
        by_cases hj : ∃ j < i, Occurs sep (content b) j
        · obtain ⟨j, hji, hj⟩ := hj
          exact ih j hji hj
        · exact ⟨i, hi, fun j hji hocc => hj ⟨j, hji, hocc⟩⟩
    rcases hscan : (scan b sep.mem len).1 with _ | ⟨p, t⟩ <;> rw [hscan] at hcase
    · intro i hi
      obtain ⟨j, hj⟩ := hfirst i hi
      have hv := (hf.found j hj).1
      rw [hcase.1] at hv
      cases hv
    · obtain ⟨hple, rfl, hcont, -⟩ := hcase
      -- a frame without any separator would return nil, and this one returned bytes
      have hex : ∃ i, Occurs sep (content b) i := by
        by_contra hno
        have hv := (hf.missing fun i hi => hno ⟨i, hi⟩).1
        cases hv
      obtain ⟨j, hj⟩ := hfirst _ hex.choose_spec
      obtain ⟨hv, hc, -⟩ := hf.found j hj
      have hend := hj.1.lt_length hsep
      have hlenv := congrArg List.length (LuaValue.string.inj hv)
      rw [List.length_take, List.length_take] at hlenv
      -- the scan's position is read off the length of the frame, its width off the rest
      have hpj : p = j := by omega
      have hpos := List.length_pos_of_ne_nil hsep
      have hlenc := congrArg List.length (hcont.symm.trans hc)
      rw [List.length_drop, List.length_drop] at hlenc
      exact ⟨by omega, hpj ▸ hj⟩
  · rintro ⟨hin, hres⟩
    refine ⟨v, _, c, _, hpop, hfind, ⟨rfl, rfl⟩, ?_, ?_, ?_⟩
    · rw [hcmps, List.drop_left]
      intro x hx
      rcases List.mem_append.mp hx with hx | hx <;> exact hin x hx
    · intro i hi
      rcases hscan : (scan b sep.mem len).1 with _ | ⟨p, t⟩ <;> rw [hscan] at hcase hres
      · exact absurd hi.1 (hres i)
      · obtain ⟨rfl, hp⟩ := hres
        have hpi : p = i := by
          rcases lt_trichotomy p i with hlt | heq | hgt
          · exact absurd hp.1 (hi.2 p hlt)
          · exact heq
          · exact absurd hi.1 (hp.2 i hgt)
        subst hpi
        exact ⟨hcase.2.1, hcase.2.2.1, if_neg (by simp)⟩
    · intro hno
      rcases hscan : (scan b sep.mem len).1 with _ | ⟨p, t⟩ <;> rw [hscan] at hcase hres
      · exact ⟨hcase.1, hcase.2.1, hcase.2.2, if_pos rfl⟩
      · exact absurd hres.2.1 (hno p)

/-- Framing by a separator whose length is an `int`. -/
theorem frames_iff_of_le (h : Inv b) (hsep : sep.bytes ≠ []) (hle : (sep.bytes.length : ℤ) ≤ INT_MAX) :
    Frames r b sep ↔ Fits r sep (chunks b) := by
  have hpos := List.length_pos_of_ne_nil hsep
  have hflat := chunks_flatten h
  have hiff := @scanFrom_inside_iff sep.mem sep.bytes.length (chunks b) r hpos (content b).length
  rw [frames_iff_scan h hsep (wrap_of_nonneg (by omega) hle), fits_iff, hflat]
  rw [hflat] at hiff
  constructor
  · exact fun hf => hiff.mp hf.1
  · intro hfit
    refine ⟨hiff.mpr hfit, ?_⟩
    have hres := @scanFrom_of_inside sep.mem sep.bytes.length (chunks b) r hpos (content b).length
      (by rwa [hflat])
    rw [hflat] at hres
    unfold scan
    rcases hscan : (scanFrom sep.mem sep.bytes.length (chunks b) (content b).length 0).1
      with _ | ⟨p, t⟩ <;> rw [hscan] at hres
    · intro i hi
      have := hi.lt_length hsep
      exact noneBefore_iff.mp hres i (by omega) hi
    · exact ⟨hres.2.1, occurs_iff_continues.mpr hres.2.2.2, noneBefore_iff.mp hres.2.2.1⟩

/-! ## Separators longer than an `int` counts -/

/-- What is left of a length past `INT_MAX`, if it is not negative, is less than half of it. -/
theorem lt_of_wrap_eq {l n : ℕ} (hl : INT_MAX < l) (hn : wrap l = n) : n + n < l := by
  unfold INT_MAX at hl
  unfold wrap at hn
  omega

/-- A comparison with what is left of the length succeeds exactly at a match. -/
theorem matches_iff {n : ℕ} (hn : 0 < n) (hlt : n + n < sep.bytes.length) :
    Matches sep n xs ↔ ∃ t, (sepScan sep.mem n xs 0).1 = some t := by
  have hlen : ∀ pre : List (List UInt8), ∀ y : List UInt8, pre.flatten.length < n →
      (pre.flatten ++ y.take n).length ≤ sep.bytes.length := by
    intro pre y hpre
    rw [List.length_append, List.length_take]
    omega
  constructor
  · rintro ⟨pre, y, post, rfl, hl, hl', hag⟩
    exact ⟨_, (sepScan_eq_some_iff hn).mpr ⟨pre, y, post, rfl, by omega, by omega, rfl,
      (agrees_iff_isPrefix (hlen pre y hl)).mpr hag⟩⟩
  · rintro ⟨t, ht⟩
    obtain ⟨pre, y, post, rfl, hl, hl', rfl, hag⟩ := (sepScan_eq_some_iff hn).mp ht
    exact ⟨pre, y, post, rfl, by omega, by omega,
      (agrees_iff_isPrefix (hlen pre y (by omega))).mp hag⟩

/-- An empty comparison succeeds at once, with nothing taken. -/
theorem sepScan_zero (mem : ℕ → UInt8) (x : List UInt8) :
    sepScan mem 0 (x :: xs) 0 = (some 0, [{ start := 0, len := 0, looked := 0 }]) := by
  simp [sepScan, agree]

/-- A comparison reads no further than twice its length, and takes no more bytes than that. -/
theorem sepScan_le {mem : ℕ → UInt8} {l n : ℕ} (hn : n < l) :
    (∀ t, (sepScan mem l xs n).1 = some t → n + t < l + l) ∧
      ∀ x ∈ (sepScan mem l xs n).2, x.start + x.len < l + l ∧ x.looked ≤ x.len := by
  -- each chunk compares at most `l` bytes and begins before byte `l`
  induction xs generalizing n with
  | nil => simp [sepScan]
  | cons x xs ih =>
    simp only [sepScan]
    split
    · split
      · refine ⟨?_, ?_⟩
        · intro t ht
          obtain rfl := Option.some.inj ht
          omega
        · simp only [List.mem_singleton, forall_eq]
          omega
      · obtain ⟨h1, h2⟩ := ih (n := n + min x.length l) (by omega)
        refine ⟨?_, ?_⟩
        · intro t ht
          obtain ⟨t', ht', rfl⟩ := Option.map_eq_some_iff.mp ht
          have := h1 t' ht'
          omega
        · rw [List.forall_mem_cons]
          refine ⟨?_, h2⟩
          simp only
          omega
    · refine ⟨by simp, ?_⟩
      simp only [List.mem_singleton, forall_eq]
      omega

/-- Chunks with enough bytes have one where the first `n` bytes end. -/
theorem exists_chunk {n : ℕ} (hn : 0 < n) (hle : n ≤ xs.flatten.length) :
    ∃ pre y post, xs = pre ++ y :: post ∧ pre.flatten.length < n ∧
      n ≤ pre.flatten.length + y.length := by
  induction xs generalizing n with
  | nil =>
    simp at hle
    omega
  | cons x xs ih =>
    by_cases hx : n ≤ x.length
    · exact ⟨[], x, xs, rfl, by simpa using hn, by simpa using hx⟩
    · rw [List.flatten_cons, List.length_append] at hle
      obtain ⟨pre, y, post, rfl, hl, hl'⟩ := ih (n := n - x.length) (by omega) (by omega)
      refine ⟨x :: pre, y, post, rfl, ?_, ?_⟩ <;>
      · rw [List.flatten_cons, List.length_append]
        omega

/-- Where the separator stands, what is left of its length matches. -/
theorem Occurs.matches {n p : ℕ} (h : Occurs sep xs.flatten p) (hn : 0 < n)
    (hlt : n + n < sep.bytes.length) : Matches sep n (dropBytes p xs) := by
  have h' : sep.bytes <+: (dropBytes p xs).flatten := by
    rw [dropBytes_flatten]
    exact h
  obtain ⟨pre, y, post, heq, hl, hl'⟩ := exists_chunk hn ((by omega : n ≤ _).trans h'.length_le)
  refine ⟨pre, y, post, heq, hl, hl', ?_⟩
  have hpre : pre.flatten ++ y.take n <+: (dropBytes p xs).flatten := by
    rw [heq, List.flatten_append, List.flatten_cons, List.prefix_append_right_inj]
    exact (List.take_prefix n y).trans (List.prefix_append _ _)
  refine List.prefix_of_prefix_length_le hpre h' ?_
  rw [List.length_append, List.length_take]
  omega

/-- Nothing occurs in nothing. -/
theorem not_occurs_nil (hsep : sep.bytes ≠ []) (i : ℕ) : ¬ Occurs sep [] i := by
  intro h
  have := h.lt_length hsep
  have := List.length_pos_of_ne_nil hsep
  rw [List.length_nil] at *
  omega

/-- With a negative length nothing works but the empty buffer. -/
theorem frames_iff_of_neg (h : Inv b) (hsep : sep.bytes ≠ []) (hneg : wrap sep.bytes.length < 0) :
    Frames r b sep ↔ content b = [] := by
  have hpop : lpop (.string sep) b = readsep sep.mem (wrap sep.bytes.length) b := by
    rw [lpop, if_pos (List.length_pos_of_ne_nil hsep)]
  rw [h.content_eq_nil_iff]
  -- a negative length gives `memcmp` a huge size, unless there is no node to compare with
  rcases scanLoop_neg h sep.mem hneg with ⟨hnil, hs⟩ | ⟨hnil, hs⟩
  · have hempty := h.content_eq_nil_iff.mpr hnil
    refine iff_of_true ⟨.nil, .nil, b, b, ?_, ?_, ⟨rfl, rfl⟩, ?_, ?_, ?_⟩ hnil
    · simp [hpop, readsep, hs]
    · simp [lfindsep, hs]
    · simp
    · intro i hi
      rw [hempty] at hi
      exact absurd hi.1 (not_occurs_nil hsep i)
    · exact fun _ => ⟨rfl, rfl, rfl, rfl⟩
  · refine iff_of_false ?_ hnil
    rintro ⟨v, w, c, d, hf⟩
    have hp := hf.pop
    rw [hpop] at hp
    simp [readsep, hs] at hp

/-- The scan for what is left of a length past `INT_MAX` never takes a whole separator. -/
theorem scan_of_gt (h : Inv b) {n : ℕ} (hn : 0 < n) (hlt : n + n < sep.bytes.length) :
    (∀ x ∈ (scan b sep.mem n).2, x.Inside r sep.bytes.length) ∧
      match (scan b sep.mem n).1 with
      | none => ∀ p, ¬ Matches sep n (dropBytes p (chunks b))
      | some (p, t) => t ≠ sep.bytes.length ∧ Matches sep n (dropBytes p (chunks b)) := by
  have hflat := chunks_flatten h
  constructor
  · intro x hx
    obtain ⟨p, -, -, -, hx⟩ := (mem_scanFrom_snd _ _).mp hx
    -- twice the wrapped length is still short of the real one: no comparison leaves it
    obtain ⟨h1, h2⟩ := (sepScan_le hn).2 x hx
    cases r <;> simp only [Cmp.Inside] <;> omega
  · have hfst := @scanFrom_fst sep.mem n (chunks b) (content b).length 0
    unfold scan
    rcases hr : (scanFrom sep.mem n (chunks b) (content b).length 0).1 with _ | ⟨p, t⟩ <;>
      rw [hr] at hfst
    · intro p hm
      obtain ⟨t, ht⟩ := (matches_iff hn hlt).mp hm
      by_cases hp : p < (content b).length
      · rw [hfst p (Nat.zero_le p) (by omega)] at ht
        cases ht
      · rw [dropBytes_eq_nil (by rw [hflat]; omega)] at ht
        cases ht
    · obtain ⟨-, -, -, ht⟩ := hfst
      have := (sepScan_le hn).1 t ht
      exact ⟨by omega, (matches_iff hn hlt).mpr ⟨t, ht⟩⟩

/-- Framing by a separator that is too long works only if nothing is found. -/
theorem frames_iff_of_gt (h : Inv b) (hlt : INT_MAX < sep.bytes.length) :
    Frames r b sep ↔ (chunks b).flatten = [] ∨ (0 < wrap sep.bytes.length ∧
      ∀ p, ¬ Matches sep (wrap sep.bytes.length).toNat (dropBytes p (chunks b))) := by
  have hsep : sep.bytes ≠ [] := by
    intro hnil
    rw [hnil] at hlt
    exact absurd hlt (by decide)
  have hflat := chunks_flatten h
  -- by the sign of the wrapped length: negative, zero, or some small positive number
  rcases lt_or_ge (wrap sep.bytes.length) 0 with hneg | hn
  · rw [frames_iff_of_neg h hsep hneg, hflat]
    exact ⟨.inl, fun h => h.resolve_right fun h => by omega⟩
  obtain ⟨n, hlen⟩ := Int.eq_ofNat_of_zero_le hn
  have hhalf := lt_of_wrap_eq hlt hlen
  rw [frames_iff_scan h hsep hlen, hlen, hflat]
  rcases Nat.eq_zero_or_pos n with rfl | hpos
  · -- a length of zero matches at once, if there is a byte at all
    rcases hc : content b with _ | ⟨y, ys⟩
    · have hnone : scan b sep.mem 0 = (none, []) := by simp [scan, hc, scanFrom]
      refine iff_of_true ?_ (.inl rfl)
      rw [hnone]
      exact ⟨by simp, not_occurs_nil hsep⟩
    · have hdrop : dropBytes 0 (chunks b) ≠ [] := by
        intro hnil
        have := dropBytes_flatten 0 (chunks b)
        rw [hnil, hflat, hc] at this
        simp at this
      obtain ⟨z, zs, hz⟩ := List.exists_cons_of_ne_nil hdrop
      have hsome : (scan b sep.mem 0).1 = some (0, 0) := by
        simp [scan, hc, scanFrom, hz, sepScan_zero]
      refine iff_of_false ?_ (by simp)
      rw [hsome]
      rintro ⟨-, ht, -⟩
      exact absurd (List.length_eq_zero_iff.mp ht.symm) hsep
  · obtain ⟨hin, hres⟩ := scan_of_gt (r := r) h hpos hhalf
    rw [Int.toNat_natCast]
    rcases hscan : (scan b sep.mem n).1 with _ | ⟨p, t⟩ <;> rw [hscan] at hres
    · refine iff_of_true ⟨hin, fun i hi => ?_⟩ (.inr ⟨by omega, hres⟩)
      rw [← hflat] at hi
      exact hres i (hi.matches hpos hhalf)
    · refine iff_of_false (fun hf => hres.1 hf.2.1) ?_
      rintro (hnil | ⟨-, hno⟩)
      · obtain ⟨pre, y, post, heq, -⟩ := hres.2
        rw [dropBytes_eq_nil (by simp [hflat, hnil])] at heq
        simp at heq
      · exact hno p hres.2

/-! ## Framing, in every state -/

/-- In every state that calls reach, `pop` and `findsep` frame by a separator exactly if it fits the
chunks, whether or not `memcmp` inspects more of its range than the first difference. -/
theorem frames_iff_fits (h : calls.Reach b) (hsep : sep.bytes ≠ []) :
    Frames r b sep ↔ FitsBuffer r sep (chunks b) := by
  unfold FitsBuffer
  split
  · next hle => exact frames_iff_of_le (inv_of_reach h) hsep hle
  · next hgt => exact frames_iff_of_gt (inv_of_reach h) (not_le.mp hgt)

/-- The separator of text protocols. -/
def crlf : LuaString where
  bytes := [13, 10]
  mem i := if i = 0 then 13 else if i = 1 then 10 else 0
  mem_lt := by decide
  mem_length := rfl

/-- A line `a`, its end, and a byte more, received in two blocks cut within the end of line. -/
def splitLine : Buf := (lpush 1 (some [10, 98]) 2 (lpush 0 (some [97, 13]) 2 lnew).2).2

/-- The buffer of the example is reached. -/
theorem splitLine_reached : calls.Reach splitLine :=
  .step (l := .push 1 (some [10, 98]) 2)
    (.step (l := .push 0 (some [97, 13]) 2) (.init rfl) ⟨by decide, .inl ⟨.integer 2, rfl⟩⟩)
    ⟨by decide, .inl ⟨.integer 4, rfl⟩⟩

theorem frames_iff_fits_splitLine :
    Frames .untilDifference splitLine crlf ↔ FitsBuffer .untilDifference crlf [[97, 13], [10, 98]] :=
  frames_iff_fits splitLine_reached (by decide)

/-- The end of line is there, but neither call finds it. -/
theorem splitLine_not_framed :
    calls.Reach splitLine ∧ FirstOccurs crlf (content splitLine) 1 ∧
      (lpop (.string crlf) splitLine).1 = .ok .nil ∧ (lfindsep crlf splitLine).1 = .ok .nil ∧
      ¬ Frames .untilDifference splitLine crlf ∧ ¬ Frames .whole splitLine crlf := by
  have hfirst : FirstOccurs crlf (content splitLine) 1 := by
    refine ⟨by unfold Occurs; decide, ?_⟩
    unfold Occurs
    decide
  have hpop : (lpop (.string crlf) splitLine).1 = .ok .nil := rfl
  have hnot : ∀ r, ¬ Frames r splitLine crlf := by
    rintro r ⟨v, w, c, d, hf⟩
    have hv := (hf.found 1 hfirst).1
    rw [hf.pop, hv] at hpop
    cases hpop
  exact ⟨splitLine_reached, hfirst, hpop, rfl, hnot _, hnot _⟩

end Lsocket.Buffer
