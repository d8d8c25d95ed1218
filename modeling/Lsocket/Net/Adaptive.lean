import Lsocket.Net.Reading
import Mathlib.Data.Int.Interval
import Mathlib.Order.OrderIsoNat
import Mathlib.Tactic.NormNum

/-!
# The size of the read buffer

`_read` asks for as many bytes as the read buffer is long. Without a read limit the buffer doubles when a
read fills it, and otherwise shrinks if the read was small. The test for small compares with twice the size
where half of it would do, so it holds of every read that does not fill the buffer: under a steady traffic
the size goes up and down for ever (`adaptive_iff`).
-/

namespace Lsocket

open CInt

variable {σ : Type} {B : Backend σ} {a : Abs σ} {rs : List Reply} {i : ℕ} {c : Conn} {w w' : World σ}
variable {s n : ℤ} {v : ReadResult}

/-! ## One read -/

/-- The connection after a read that returned `n`. -/
def Conn.afterRead (c : Conn) (n : ℤ) : Conn := if 0 < n then c.resized n else c

theorem afterRead_zero : c.afterRead 0 = c := if_neg (lt_irrefl 0)

/-- A read of some bytes adapts the size of the buffer. -/
theorem afterRead_tcp (hp : c.protocol = .tcp) (hn : 0 < n) :
    c.afterRead n = { c with rbuffersz := adapt c.rlimit c.rbuffersz n } := by
  rw [Conn.afterRead, if_pos hn, Conn.resized, if_pos hp]

/-- A block from a tcp slot holds the bytes that came, as many as were asked for at most. -/
theorem receipt_tcp {r : Reply} {block : List UInt8} (hp : c.protocol = .tcp)
    (h : c.receipt r = .data block) : block = r.bytes ∧ c.request = c.rbuffersz := by
  obtain ⟨hpos, hblock⟩ := receipt_data h
  rw [Reply.block, if_neg (by simp [hp])] at hblock
  refine ⟨hblock, ?_⟩
  rw [Conn.request, hp]
  refine if_neg fun hs => ?_
  rw [Conn.receipt, if_neg (by omega), if_neg (by omega), if_neg (by simp [hp]), if_pos hs] at h
  cases h

/-- Every end of a read leaves the connection as `afterRead` says, or closes it. -/
theorem Reads.afterRead {r : Reply} (hok : r.Outcome c.request) (h : Reads i c r v a) :
    (a.slot i = some (c.afterRead v.n) ∧ (c.protocol = .tcp → v.n ≤ 0 ∨ v.n ≤ c.rbuffersz)) ∨
      (a.slot i = none ∧ v.n = -1) := by
  unfold Reads at h
  rcases hr : c.receipt r with block | _ | err <;> rw [hr] at h
  · obtain ⟨hn, -, hslot⟩ := h
    obtain ⟨hpos, -⟩ := receipt_data hr
    obtain ⟨-, hsz, hlen⟩ := hok.resolve_left fun hf => by have := hf.1; omega
    by_cases hp : c.protocol = .tcp
    · obtain ⟨rfl, hrequest⟩ := receipt_tcp hp hr
      rw [hlen] at hn
      rw [hn, Conn.afterRead, if_pos hpos]
      exact .inl ⟨hslot, fun _ => .inr (hrequest ▸ hsz)⟩
    · have hsame (m : ℤ) : c.resized m = c := if_neg hp
      rw [hsame] at hslot
      rw [Conn.afterRead, hsame, ite_self]
      exact .inl ⟨hslot, fun h => absurd h hp⟩
  · obtain ⟨hn, hslot⟩ := h
    rw [hn, afterRead_zero]
    exact .inl ⟨hslot, fun _ => .inl le_rfl⟩
  · exact .inr ⟨h.2.1, h.1⟩

/-- What a read on a slot leaves there. -/
theorem read_conn (hw : Rep B w a) (hc : a.slot i = some c)
    (hrun : socketRead B i (w.answer rs) = (.ok v, w')) :
    Rep B w' w'.abs ∧ ((w'.abs.slot i = some (c.afterRead v.n) ∧
      (c.protocol = .tcp → v.n ≤ 0 ∨ v.n ≤ c.rbuffersz)) ∨ (w'.abs.slot i = none ∧ v.n = -1)) := by
  have hi : i < a.max := hw.max_eq ▸ hw.lt_max hc
  by_cases hp : c.protocol = .udp
  · obtain ⟨⟨a', rs'⟩, ⟨hw', -⟩, hn, rfl⟩ :=
      (refines_socketRead_udp (E := fun _ => True) hc hp hi).ok ⟨hw.answer _, rfl⟩ hrun
    obtain ⟨hinv, rfl⟩ := hw'
    refine ⟨⟨hinv, rfl⟩, .inl ⟨?_, fun _ => .inl (by omega)⟩⟩
    rw [Conn.afterRead, if_neg (by omega)]
    exact hc
  · obtain ⟨⟨a', rs'⟩, ⟨hw', -⟩, r, -, hok, hreads⟩ :=
      (asks_socketRead hc hp hi).ok ⟨hw.answer _, rfl⟩ hrun
    obtain ⟨hinv, rfl⟩ := hw'
    exact ⟨⟨hinv, rfl⟩, hreads.afterRead hok⟩

/-- An answer with `n` bytes. -/
def carrying (n : ℤ) : Reply where
  ret := n
  bytes := List.replicate n.toNat 0

/-- A read can return any number of bytes that fits into the buffer. -/
theorem read_filled (hw : Rep B w a) (hc : a.slot i = some c) (hp : c.protocol = .tcp)
    (hs : c.status ≠ .halfclose) (hn : 0 < n) (hle : n ≤ c.rbuffersz) :
    ∃ v w', socketRead B i (w.answer [carrying n]) = (.ok v, w') ∧ v.n = n ∧ Rep B w' w'.abs ∧
      w'.abs.slot i = some (c.afterRead n) := by
  have hrequest : c.request = c.rbuffersz := by
    rw [Conn.request, hp]
    exact if_neg hs
  have hret : (carrying n).ret = n := rfl
  have hout : (carrying n).Outcome c.request := by
    refine .inr ⟨hn.le, hrequest ▸ hle, ?_⟩
    rw [hret, carrying, List.length_replicate]
    exact Int.toNat_of_nonneg hn.le
  have hnot : ¬ (carrying n).Interrupted := fun h => absurd h.1 (not_lt.mpr hn.le)
  obtain ⟨v, w', a', hrun, ⟨hinv, rfl⟩, hreads⟩ :=
    socketRead_returns [] hw hc (by simp [hp]) (List.forall_mem_nil _) hout hnot
  have hreceipt : c.receipt (carrying n) = .data (carrying n).bytes := by
    rw [Conn.receipt, if_neg (by omega), if_neg (by omega), if_neg (by simp [hp]), if_neg hs]
  rw [Reads, hreceipt] at hreads
  obtain ⟨hv, -, hslot⟩ := hreads
  rw [carrying, List.length_replicate, Int.toNat_of_nonneg hn.le] at hv
  refine ⟨v, w', hrun, hv, ⟨hinv, rfl⟩, ?_⟩
  rw [Conn.afterRead, if_pos hn]
  exact hslot

/-! ## Sizes -/

/-- The sizes that doubling and halving lead to from the first, as long as no doubling overflows. -/
def Doubled (s : ℤ) : Prop := ∃ k ≤ 24, s = RBUFFER_SZ * 2 ^ k

/-- The first size is one of them. -/
theorem doubled_first : Doubled RBUFFER_SZ := ⟨0, by decide, rfl⟩

/-- A doubled size lies between the first one and the last that an `int` holds. -/
theorem Doubled.range (h : Doubled s) : RBUFFER_SZ ≤ s ∧ s ≤ 2 ^ 30 := by
  obtain ⟨k, hk, rfl⟩ := h
  have hone : (1 : ℤ) ≤ 2 ^ k := one_le_pow₀ (by norm_num)
  have htop : (2 : ℤ) ^ k ≤ 2 ^ 24 := pow_le_pow_right₀ (by norm_num) hk
  unfold RBUFFER_SZ
  omega

/-- A size below the largest can be doubled. -/
theorem Doubled.double (h : Doubled s) (hs : s < 2 ^ 30) :
    Doubled (s * 2) ∧ wrap (s * 2) = s * 2 := by
  have hwrap : wrap (s * 2) = s * 2 := by
    have := h.range.1
    unfold RBUFFER_SZ at this
    exact wrap_of_nonneg (by omega) (by unfold INT_MAX; omega)
  obtain ⟨k, hk, rfl⟩ := h
  refine ⟨⟨k + 1, ?_, by rw [pow_succ, mul_assoc]⟩, hwrap⟩
  by_contra hlt
  obtain rfl : k = 24 := by omega
  exact absurd hs (by decide)

/-- A size above the first can be halved. -/
theorem Doubled.halve (h : Doubled s) (hs : RBUFFER_SZ < s) : Doubled (s / 2) ∧ s = s / 2 * 2 := by
  obtain ⟨k, hk, rfl⟩ := h
  rcases k with _ | k
  · exact absurd hs (by decide)
  · have hhalf : RBUFFER_SZ * 2 ^ (k + 1) / 2 = RBUFFER_SZ * 2 ^ k := by
      rw [pow_succ, ← mul_assoc]
      exact Int.mul_ediv_cancel _ (by decide)
    rw [hhalf]
    exact ⟨⟨k, by omega, rfl⟩, by rw [pow_succ, mul_assoc]⟩

/-- The size after a read. The largest size stays if it is not filled, as twice that size has overflowed. -/
theorem Doubled.adapt (h : Doubled s) (hpos : 0 < n) (hn : n ≤ s) : adapt 0 s n =
    if n = s then if s = 2 ^ 30 then -2 ^ 31 else s * 2
    else if s = RBUFFER_SZ ∨ s = 2 ^ 30 then s else s / 2 := by
  obtain ⟨hlo, hhi⟩ := h.range
  have htwice (htop : s ≠ 2 ^ 30) : wrap (s * 2) = s * 2 := (h.double (by omega)).2
  -- at 2 ^ 30 the doubled size wraps below zero, so the test against it never fires
  have hover (htop : s = 2 ^ 30) : wrap (s * 2) = -2 ^ 31 := by
    rw [htop]
    decide
  rw [Lsocket.adapt, if_pos rfl]
  by_cases hfull : n = s
  · rw [if_pos hfull, if_pos hfull]
    split
    · next htop => exact hover htop
    · next htop => exact htwice htop
  · rw [if_neg hfull, if_neg hfull]
    by_cases hkeep : s = RBUFFER_SZ ∨ s = 2 ^ 30
    · rw [if_pos hkeep]
      refine if_neg ?_
      rintro ⟨hlarge, hsmall⟩
      rcases hkeep with rfl | htop
      · exact lt_irrefl _ hlarge
      · rw [hover htop] at hsmall
        omega
    · rw [not_or] at hkeep
      rw [if_neg (not_or.mpr hkeep), htwice hkeep.2]
      exact if_pos ⟨by omega, by omega⟩

/-- A sequence of integers that rises and is bounded settles. -/
theorem settles_of_rising {f : ℕ → ℤ} {lo hi : ℤ} (hrise : ∀ k, f k ≤ f (k + 1))
    (hrange : ∀ k, lo ≤ f k ∧ f k ≤ hi) : ∃ K, ∀ k ≥ K, f k = f K := by
  have hfinite : Finite (Set.Icc lo hi) := Set.finite_Icc lo hi
  let g : ℕ →o Set.Icc lo hi := ⟨fun k => ⟨f k, hrange k⟩, monotone_nat_of_le_succ hrise⟩
  obtain ⟨K, hK⟩ := WellFoundedGT.monotone_chain_condition g
  exact ⟨K, fun k hk => (Subtype.ext_iff.mp (hK k hk)).symm⟩

/-! ## Reads one after the other -/

/-- A read on the slot that returns `n`. -/
def ReadStep (B : Backend σ) (i : ℕ) (w : World σ) (n : ℤ) (w' : World σ) : Prop :=
  ∃ rs v, socketRead B i (w.answer rs) = (.ok v, w') ∧ v.n = n

/-- The reads on a slot, as long as it is occupied. -/
def reading (B : Backend σ) (i : ℕ) (w₀ : World σ) : System (World σ) ℤ where
  init w := w = w₀
  step w n w' := ReadStep B i w n w' ∧ w'.Live i

/-- The size of the read buffer of a slot. -/
def World.size (w : World σ) (i : ℕ) : ℤ := (w.net.sockets i).rbuffersz

/-- A tcp connection without a read limit. -/
structure Conn.Adaptive (c : Conn) : Prop where
  tcp : c.protocol = .tcp
  whole : c.status ≠ .halfclose
  unlimited : c.rlimit = 0

/-- As `_create_socket` leaves it, with no read limit left over in the slot. -/
structure Conn.Fresh (c : Conn) : Prop extends c.Adaptive where
  first : c.rbuffersz = RBUFFER_SZ

/-- The world shows an adaptive connection in the slot, with a read buffer of the given size. -/
def Holds (B : Backend σ) (w : World σ) (i : ℕ) (s : ℤ) : Prop :=
  Rep B w w.abs ∧ ∃ c : Conn, w.abs.slot i = some c ∧ c.Adaptive ∧ c.rbuffersz = s

theorem Holds.size (h : Holds B w i s) : w.size i = s := by
  obtain ⟨hw, c, hc, -, rfl⟩ := h
  have hcw := (hw.live hc).2
  rw [← hcw]
  rfl

/-- A read with data adapts the size; any other that does not close the slot leaves it. -/
theorem Holds.read (h : Holds B w i s) (hread : ReadStep B i w n w') (hstay : n ≠ -1 ∨ w'.Live i) :
    Holds B w' i (if 0 < n then adapt 0 s n else s) ∧ (0 < n → n ≤ s) := by
  obtain ⟨hw, c, hc, had, rfl⟩ := h
  obtain ⟨rs, v, hrun, rfl⟩ := hread
  obtain ⟨hw', ⟨hc', hle⟩ | ⟨hnone, hv⟩⟩ := read_conn hw hc hrun
  · refine ⟨⟨hw', _, hc', ?_⟩, fun hpos => (hle had.tcp).resolve_left (not_le.mpr hpos)⟩
    by_cases hpos : 0 < v.n
    · rw [if_pos hpos, afterRead_tcp had.tcp hpos, had.unlimited]
      exact ⟨⟨had.tcp, had.whole, rfl⟩, rfl⟩
    · rw [if_neg hpos, Conn.afterRead, if_neg hpos]
      exact ⟨had, rfl⟩
  · cases (if_pos (hstay.resolve_left (not_not.mpr hv))).symm.trans hnone

/-- A world with a fresh connection. -/
theorem holds_first (h : (net B).Reach w) (hc : w.abs.slot i = some c) (hf : c.Fresh) :
    Holds B w i RBUFFER_SZ :=
  ⟨(reach_abs h).1, c, hc, hf.toAdaptive, hf.first⟩

/-- The sizes that reads lead to: once the doubling has overflowed, no read returns data. -/
theorem holds_of_reading (h₀ : Holds B w i RBUFFER_SZ) (h : (reading B i w).Reach w') :
    ∃ s, Holds B w' i s ∧ (Doubled s ∨ s < 0) := by
  induction h with
  | init h => exact ⟨_, h ▸ h₀, .inl doubled_first⟩
  | @step w₁ w₂ n _ hs ih =>
    obtain ⟨s, hw₁, hsize⟩ := ih
    obtain ⟨hw₂, hle⟩ := hw₁.read hs.1 (.inr hs.2)
    refine ⟨_, hw₂, ?_⟩
    by_cases hpos : 0 < n
    · rw [if_pos hpos]
      have hn := hle hpos
      -- a negative size asks for nothing, so nothing can have been read with it
      have hd : Doubled s := hsize.resolve_right (by omega)
      rw [hd.adapt hpos hn]
      split
      · split
        · exact .inr (by decide)
        · next htop => exact .inl (hd.double (by have := hd.range; omega)).1
      · split
        · exact .inl hd
        · next hkeep =>
          rw [not_or] at hkeep
          exact .inl (hd.halve (by have := hd.range; omega)).1
    · rw [if_neg hpos]
      exact hsize

/-! ## A steady traffic -/

/-- With at most `n` bytes ready at every read, the size of the buffer settles. -/
def SizeSettles (B : Backend σ) (w : World σ) (i : ℕ) (n : ℤ) : Prop :=
  ∀ ws : ℕ → World σ, ws 0 = w →
    (∀ k, ReadStep B i (ws k) 0 (ws (k + 1)) ∨
      ReadStep B i (ws k) (min n ((ws k).size i)) (ws (k + 1))) →
    ∃ K, ∀ k ≥ K, (ws k).size i = (ws K).size i

/-- Reads with `n` bytes ready each time. -/
def steady (B : Backend σ) (i : ℕ) (n : ℤ) (w : World σ) : ℕ → World σ
  | 0 => w
  | k + 1 => (socketRead B i ((steady B i n w k).answer [carrying (min n ((steady B i n w k).size i))])).2

/-- A steady traffic that fills the first buffer, and at most half of the largest but one, makes every
read change the size: a size above the traffic is halved, and one within it is doubled. -/
theorem Doubled.unsettled (h : Doubled s) (hn : RBUFFER_SZ ≤ n) (htop : n < 2 ^ 29) (hs : s ≤ 2 * n) :
    Lsocket.adapt 0 s (min n s) ≠ s ∧ Doubled (Lsocket.adapt 0 s (min n s)) ∧
      Lsocket.adapt 0 s (min n s) ≤ 2 * n := by
  obtain ⟨hlo, -⟩ := h.range
  unfold RBUFFER_SZ at hn hlo
  rw [h.adapt (by omega) (min_le_right n s)]
  rcases le_or_gt s n with hle | hlt
  · rw [min_eq_right hle, if_pos rfl, if_neg (by omega)]
    exact ⟨by omega, (h.double (by omega)).1, by omega⟩
  · have hkeep : ¬ (s = RBUFFER_SZ ∨ s = 2 ^ 30) := by
      unfold RBUFFER_SZ
      omega
    rw [min_eq_left hlt.le, if_neg (by omega), if_neg hkeep]
    refine ⟨by omega, (h.halve ?_).1, by omega⟩
    unfold RBUFFER_SZ
    omega

/-- A read of what is ready, up to the size of the buffer. -/
theorem steady_step {u : World σ} (hu : Holds B u i s) (hd : Doubled s) (hn : 1 ≤ n) :
    ReadStep B i u (min n s) (socketRead B i (u.answer [carrying (min n s)])).2 := by
  obtain ⟨hw, c, hc, had, rfl⟩ := hu
  have hlo := hd.range.1
  unfold RBUFFER_SZ at hlo
  obtain ⟨v, u', hrun, hv, -⟩ :=
    read_filled hw hc had.tcp had.whole (by omega) (min_le_right n c.rbuffersz)
  exact ⟨_, v, by rw [hrun], hv⟩

/-- In steady traffic the size stays within twice of what comes. -/
theorem holds_steady (h : Holds B w i RBUFFER_SZ) (hn : RBUFFER_SZ ≤ n) (htop : n < 2 ^ 29) (k : ℕ) :
    ∃ s, Holds B (steady B i n w k) i s ∧ Doubled s ∧ s ≤ 2 * n := by
  induction k with
  | zero => exact ⟨_, h, doubled_first, by unfold RBUFFER_SZ at *; omega⟩
  | succ k ih =>
    obtain ⟨s, hs, hd, hle⟩ := ih
    have hpos : 0 < min n s := by
      have := hd.range.1
      unfold RBUFFER_SZ at *
      omega
    have hstep := steady_step hs hd (n := n) (by omega)
    have hread := (hs.read hstep (.inl (by omega))).1
    rw [if_pos hpos] at hread
    obtain ⟨-, hd', hle'⟩ := hd.unsettled hn htop hle
    refine ⟨_, ?_, hd', hle'⟩
    rw [steady, hs.size]
    exact hread

/-- Traffic of at least the first size makes the buffer grow and shrink for ever. -/
theorem not_sizeSettles (h : Holds B w i RBUFFER_SZ) (hn : RBUFFER_SZ ≤ n) (htop : n < 2 ^ 29) :
    ¬ SizeSettles B w i n := by
  intro hset
  have hpos : 1 ≤ n := le_trans (by decide) hn
  -- the peer keeps sending `n` bytes at a time, and every read of them changes the size
  have hstep (k : ℕ) : ∃ s, (steady B i n w k).size i = s ∧
      ReadStep B i (steady B i n w k) (min n s) (steady B i n w (k + 1)) ∧
      (steady B i n w (k + 1)).size i ≠ s := by
    obtain ⟨s, hs, hd, hle⟩ := holds_steady h hn htop k
    have hread : ReadStep B i (steady B i n w k) (min n s) (steady B i n w (k + 1)) := by
      rw [steady, hs.size]
      exact steady_step hs hd hpos
    have hmin : 0 < min n s := by
      have := hd.range.1
      unfold RBUFFER_SZ at this
      omega
    refine ⟨s, hs.size, hread, ?_⟩
    rw [(hs.read hread (.inl (by omega))).1.size, if_pos hmin]
    exact (hd.unsettled hn htop hle).1
  obtain ⟨K, hK⟩ := hset (steady B i n w) rfl fun k => by
    obtain ⟨s, rfl, hread, -⟩ := hstep k
    exact .inr hread
  obtain ⟨s, rfl, -, hne⟩ := hstep K
  exact hne (hK (K + 1) (Nat.le_succ K))

/-- The sizes along a sequence of reads that all satisfy a step relation on sizes. -/
theorem holds_along {P : ℤ → Prop} {ws : ℕ → World σ} (h : Holds B (ws 0) i s) (hP : P s) (hn : 1 ≤ n)
    (hws : ∀ k, ReadStep B i (ws k) 0 (ws (k + 1)) ∨
      ReadStep B i (ws k) (min n ((ws k).size i)) (ws (k + 1)))
    (hstep : ∀ s, P s → 0 < s ∧ P (adapt 0 s (min n s))) (k : ℕ) :
    Holds B (ws k) i ((ws k).size i) ∧ P ((ws k).size i) ∧
      ((ws (k + 1)).size i = (ws k).size i ∨
        (ws (k + 1)).size i = adapt 0 ((ws k).size i) (min n ((ws k).size i))) := by
  have hnext {k : ℕ} {s : ℤ} (hk : Holds B (ws k) i s) (hPs : P s) :
      ∃ s', Holds B (ws (k + 1)) i s' ∧ (s' = s ∨ s' = adapt 0 s (min n s)) := by
    have hpos := (hstep s hPs).1
    rcases hws k with hread | hread
    · exact ⟨s, (hk.read hread (.inl (by decide))).1, .inl rfl⟩
    · rw [hk.size] at hread
      have := (hk.read hread (.inl (by omega))).1
      rw [if_pos (by omega)] at this
      exact ⟨_, this, .inr rfl⟩
  have hall (k : ℕ) : ∃ s, Holds B (ws k) i s ∧ P s := by
    induction k with
    | zero => exact ⟨s, h, hP⟩
    | succ k ih =>
      obtain ⟨s, hk, hPs⟩ := ih
      obtain ⟨s', hs', rfl | rfl⟩ := hnext hk hPs
      · exact ⟨_, hs', hPs⟩
      · exact ⟨_, hs', (hstep s hPs).2⟩
  obtain ⟨s, hk, hPs⟩ := hall k
  obtain ⟨s', hs', hor⟩ := hnext hk hPs
  rw [hk.size, hs'.size]
  exact ⟨hk, hPs, hor⟩

/-- The traffics under which the size of the buffer settles. At the larger one it comes to rest because
the test for small overflows. -/
theorem sizeSettles_iff (h : Holds B w i RBUFFER_SZ) (hn : 1 ≤ n) (htop : n ≤ 2 ^ 29) :
    SizeSettles B w i n ↔ n < RBUFFER_SZ ∨ n = 2 ^ 29 := by
  constructor
  · intro hset
    by_contra hno
    rw [not_or, not_lt] at hno
    exact not_sizeSettles h hno.1 (lt_of_le_of_ne htop hno.2) hset
  · rintro (hsmall | rfl) ws rfl hws
    -- below the first size every read is a partial one at the floor
    · have hkeep : adapt 0 RBUFFER_SZ (min n RBUFFER_SZ) = RBUFFER_SZ := by
        rw [min_eq_left hsmall.le, doubled_first.adapt (by omega) hsmall.le, if_neg hsmall.ne,
          if_pos (.inl rfl)]
      have hall (k : ℕ) : (ws k).size i = RBUFFER_SZ :=
        (holds_along (P := fun s => s = RBUFFER_SZ) h rfl hn hws
          (fun s hs => by rw [hs]; exact ⟨by decide, hkeep⟩) k).2.1
      exact ⟨0, fun k _ => by rw [hall, hall]⟩
    -- at 2 ^ 29 the size only rises, and it is bounded
    · have hrise {s : ℤ} (hd : Doubled s) :
          Doubled (adapt 0 s (min (2 ^ 29) s)) ∧ s ≤ adapt 0 s (min (2 ^ 29) s) := by
        by_cases hlarge : s = 2 ^ 30
        · rw [hlarge] at hd ⊢
          rw [hd.adapt (by decide) (by decide), if_neg (by decide), if_pos (.inr rfl)]
          exact ⟨hd, le_rfl⟩
        · obtain ⟨hlo, hhi⟩ := hd.range
          have hdouble := (hd.double (by omega)).1
          have := hdouble.range.2
          unfold RBUFFER_SZ at hlo
          rw [min_eq_right (by omega), hd.adapt (by omega) le_rfl, if_pos rfl, if_neg hlarge]
          exact ⟨hdouble, by omega⟩
      have hall (k : ℕ) := holds_along (P := Doubled) h doubled_first hn hws
        (fun s hs => ⟨lt_of_lt_of_le (by decide) hs.range.1, (hrise hs).1⟩) k
      refine settles_of_rising (fun k => ?_) fun k => (hall k).2.1.range
      obtain ⟨-, hd, hk | hk⟩ := hall k
      · exact hk.ge
      · rw [hk]
        exact (hrise hd).2

/-! ## A single read -/

/-- A read of `n` bytes into a buffer of size `s` leaves room for as many: it fills a buffer that can be
doubled, or the buffer keeps its size, or half of it is enough. -/
def Covered (s n : ℤ) : Prop :=
  (n = s ∧ s ≠ 2 ^ 30) ∨ (n < s ∧ (s = RBUFFER_SZ ∨ s = 2 ^ 30 ∨ n ≤ s / 2))

/-- What the adapted size covers. -/
theorem Doubled.covered_iff (h : Doubled s) (hpos : 0 < n) (hn : n ≤ s) :
    (n ≤ Lsocket.adapt 0 s n ∧ RBUFFER_SZ ≤ Lsocket.adapt 0 s n) ↔ Covered s n := by
  obtain ⟨hlo, hhi⟩ := h.range
  rw [h.adapt hpos hn, Covered]
  unfold RBUFFER_SZ at hlo
  by_cases hfull : n = s
  · rw [if_pos hfull]
    by_cases htop : s = 2 ^ 30
    · rw [if_pos htop]
      omega
    · rw [if_neg htop]
      unfold RBUFFER_SZ
      omega
  · rw [if_neg hfull]
    by_cases hkeep : s = RBUFFER_SZ ∨ s = 2 ^ 30
    · rw [if_pos hkeep]
      unfold RBUFFER_SZ at *
      omega
    · rw [if_neg hkeep]
      rw [not_or] at hkeep
      have hhalf := (h.halve (by unfold RBUFFER_SZ at *; omega)).1.range.1
      omega

/-- When the size of the read buffer adapts as it is meant to: along a steady traffic, and at a single
read of any traffic. -/
theorem adaptive_iff (h : (net B).Reach w) (hc : w.abs.slot i = some c) (hf : c.Fresh) :
    (∀ n, 1 ≤ n → n ≤ 2 ^ 29 → (SizeSettles B w i n ↔ n < RBUFFER_SZ ∨ n = 2 ^ 29)) ∧
      ∀ w₁ n w₂, (reading B i w).Reach w₁ → ReadStep B i w₁ n w₂ → 0 < n →
        ((n ≤ w₂.size i ∧ RBUFFER_SZ ≤ w₂.size i) ↔ Covered (w₁.size i) n) := by
  have hfirst := holds_first h hc hf
  refine ⟨fun n hn htop => sizeSettles_iff hfirst hn htop, fun w₁ n w₂ hreach hread hpos => ?_⟩
  obtain ⟨s, hs, hsize⟩ := holds_of_reading hfirst hreach
  obtain ⟨hs₂, hle⟩ := hs.read hread (.inl (by omega))
  have hn := hle hpos
  rw [hs₂.size, hs.size, if_pos hpos]
  exact (hsize.resolve_right (by omega)).covered_iff hpos hn

theorem adaptive_iff_bound :
    (∀ n, 1 ≤ n → n ≤ 2 ^ 29 → (SizeSettles epoll (boundAs 0) 0 n ↔ n < RBUFFER_SZ ∨ n = 2 ^ 29)) ∧
      ∀ w₁ n w₂, (reading epoll 0 (boundAs 0)).Reach w₁ → ReadStep epoll 0 w₁ n w₂ → 0 < n →
        ((n ≤ w₂.size 0 ∧ RBUFFER_SZ ≤ w₂.size 0) ↔ Covered (w₁.size 0) n) :=
  adaptive_iff (c := { newConn 5 0 0 0 0 with status := .bind }) (reach_boundAs 0) (by decide)
    ⟨⟨rfl, by decide, rfl⟩, rfl⟩

/-- With 64 bytes at every read the size goes from 64 to 128 and back. -/
theorem not_adaptive_steady : ∃ w : World Epoll, ∃ c : Conn, (net epoll).Reach w ∧
    w.abs.slot 0 = some c ∧ c.Fresh ∧ ¬ ∀ n, 1 ≤ n → n ≤ 2 ^ 29 → SizeSettles epoll w 0 n := by
  have hfresh : Conn.Fresh { newConn 5 0 0 0 0 with status := .bind } :=
    ⟨⟨rfl, by decide, rfl⟩, rfl⟩
  refine ⟨boundAs 0, _, reach_boundAs 0, by decide, hfresh, fun hall => ?_⟩
  exact not_sizeSettles (holds_first (reach_boundAs 0) (by decide) hfresh) (by decide) (by decide)
    (hall 64 (by decide) (by decide))

end Lsocket
