import Lsocket.Net.Adaptive

/-!
# The read limit

`socket_limit` fixes the size of the read buffer, or leaves the size as it is and lets it adapt again.
Along the calls of `socket_limit` and `socket_read` on a slot the size stays an `int`, and is the read
limit if there is one, exactly as long as no read has to double a size above the half of `INT_MAX`
(`sized_of_room`). A slot starts out so unless an earlier connection has left a read limit in it.
-/

namespace Lsocket

open CInt

variable {σ : Type} {B : Backend σ} {a : Abs σ} {rs : List Reply} {i : ℕ} {c c' : Conn}
variable {w w' : World σ} {l : Call}

/-! ## The two calls -/

/-- The connection after `socket_limit`. -/
def Conn.limited (c : Conn) (slimit rlimit : ℤ) : Conn :=
  { c with
    slimit := if slimit ≤ 0 then INT_MAX else slimit
    rlimit := if rlimit ≤ 0 then 0 else rlimit
    rbuffersz := if rlimit ≤ 0 then c.rbuffersz else rlimit }

/-- `socket_limit` changes the two limits, and the size of the buffer with the second. -/
theorem does_socketLimit_conn (slimit rlimit : ℤ) (hc : a.slot i = some c) (hi : i < a.max) :
    Does B (socketLimit i slimit rlimit) a fun _ a' => a' = a.set i (c.limited slimit rlimit) := by
  refine .bind (does_socketOf (by omega) (by omega)) ?_
  rintro r _ (⟨rfl, hnone, rfl⟩ | ⟨d, rfl, hd, rfl⟩)
  · cases hc.symm.trans hnone
  obtain rfl : c = d := Option.some.inj (hc.symm.trans hd)
  refine .bind (does_setSlot (fun c => { c with slimit := if slimit ≤ 0 then INT_MAX else slimit }) hc
    (fun _ _ => rfl) (fun _ => ⟨rfl, rfl⟩) (fun h => h) rfl) ?_
  rintro _ _ rfl
  -- a limit of zero or less leaves the size as it is
  refine .ite (fun hr => ?_) fun hr => ?_
  · refine .bind (does_setSlot (fun c => { c with rlimit := 0 }) (Abs.set_slot_self ..)
      (fun _ _ => rfl) (fun _ => ⟨rfl, rfl⟩) (fun h => h) rfl) ?_
    rintro _ _ rfl
    refine .pure ?_
    rw [Abs.set_set, Conn.limited, if_pos hr, if_pos hr]
    rfl
  · refine .bind (does_setSlot (fun c => { c with rlimit, rbuffersz := rlimit })
      (Abs.set_slot_self ..) (fun _ _ => rfl) (fun _ => ⟨rfl, rfl⟩) (fun h => h) rfl) ?_
    rintro _ _ rfl
    refine .pure ?_
    rw [Abs.set_set, Conn.limited, if_neg hr, if_neg hr]
    rfl

/-- The calls of `socket_limit` and `socket_read` on a slot. The limit is an `int`. -/
def Op.Sizes (i : ℕ) : Op → Prop
  | .read id => id = i
  | .limit id _ rlimit => id = i ∧ rlimit ≤ INT_MAX
  | _ => False

/-- Such calls, as long as the slot is occupied. -/
def sizing (B : Backend σ) (i : ℕ) (w₀ : World σ) : System (World σ) Call :=
  ((net B).startedIn w₀).restrict fun _ l w' => l.op.Sizes i ∧ w'.Live i

/-- What one of these calls makes of the connection. -/
inductive Sizing (i : ℕ) (c : Conn) : Call → Conn → Prop
  | limit {slimit rlimit v : ℤ} (h : rlimit ≤ INT_MAX) :
      Sizing i c ⟨.limit i slimit rlimit, v⟩ (c.limited slimit rlimit)
  | read {n : ℤ} (h : c.protocol = .tcp → n ≤ 0 ∨ n ≤ c.rbuffersz) :
      Sizing i c ⟨.read i, n⟩ (c.afterRead n)

/-- A step is what `Sizing` says. -/
theorem sizing_step (hw : Rep B w w.abs) (hc : w.abs.slot i = some c) {w₀ : World σ}
    (hs : (sizing B i w₀).step w l w') :
    Rep B w' w'.abs ∧ ∃ c', w'.abs.slot i = some c' ∧ Sizing i c l c' := by
  obtain ⟨⟨-, -, rs, hrun⟩, hop, hlive⟩ := hs
  obtain ⟨op, v⟩ := l
  cases op with
  | read id =>
    obtain rfl : id = i := hop
    obtain ⟨r, hr, rfl⟩ := Prog.map_ok hrun
    obtain ⟨hw', ⟨hc', hle⟩ | ⟨hnone, -⟩⟩ := read_conn hw hc hr
    · exact ⟨hw', _, hc', .read hle⟩
    · cases (if_pos hlive).symm.trans hnone
  | limit id slimit rlimit =>
    obtain ⟨rfl, hmax⟩ := hop
    obtain ⟨a', ⟨hinv, rfl⟩, ha'⟩ :=
      (does_socketLimit_conn slimit rlimit hc (hw.max_eq ▸ hw.lt_max hc)).ok (hw.answer rs) hrun
    refine ⟨⟨hinv, rfl⟩, _, ?_, .limit hmax⟩
    rw [ha']
    exact Abs.set_slot_self ..
  | _ => exact hop.elim

/-! ## The range -/

/-- The size is a positive `int`, and is the read limit if there is one. -/
structure Conn.Sized (c : Conn) : Prop where
  pos : 1 ≤ c.rbuffersz
  le_max : c.rbuffersz ≤ INT_MAX
  eq_limit : c.rlimit ≠ 0 → c.rbuffersz = c.rlimit

/-- A read of data on a tcp slot without a read limit, which adapts the size. -/
def Adapts (i : ℕ) (c : Conn) (l : Call) : Prop :=
  l.op = .read i ∧ c.protocol = .tcp ∧ 0 < l.ret ∧ c.rlimit = 0

/-- The shifts that `_read` computes do not overflow. -/
def Shifts (i : ℕ) (c : Conn) (l : Call) : Prop :=
  Adapts i c l → l.ret = c.rbuffersz ∨ RBUFFER_SZ < c.rbuffersz →
    wrap (c.rbuffersz * 2) = c.rbuffersz * 2

/-- A read that adapts the size finds at most half of the range in use. -/
def Room (i : ℕ) (c : Conn) (l : Call) : Prop := Adapts i c l → c.rbuffersz ≤ INT_MAX / 2

/-- The shift by one stays in range exactly if there is room. -/
theorem shifts_iff (h : c.Sized) : Shifts i c l ↔ Room i c l := by
  have hpos := h.pos
  have hmax := h.le_max
  refine forall_congr' fun _ => ?_
  constructor
  · intro hshift
    by_contra hlarge
    unfold INT_MAX at hlarge
    -- so large a size is over `RBUFFER_SZ`, and its double is computed even when the read is short
    have hwrap := hshift (.inr (by unfold RBUFFER_SZ; omega))
    have := (wrap_range (c.rbuffersz * 2)).2
    unfold INT_MAX at this
    omega
  · intro hroom _
    unfold INT_MAX at hroom
    exact wrap_of_nonneg (by omega) (by unfold INT_MAX; omega)

/-- A call with room keeps the size in its range. -/
theorem Sizing.sized (hs : Sizing i c l c') (h : c.Sized) (hroom : Room i c l) : c'.Sized := by
  have hpos := h.pos
  have hmax := h.le_max
  cases hs with
  | @limit slimit rlimit v hint =>
    by_cases hr : rlimit ≤ 0
    · rw [Conn.limited, if_pos hr, if_pos hr]
      exact ⟨hpos, hmax, fun h => absurd rfl h⟩
    · rw [Conn.limited, if_neg hr, if_neg hr]
      exact ⟨by simp only; omega, hint, fun _ => rfl⟩
  -- only a read that adapts the size can leave the range
  | @read n hle =>
    by_cases had : Adapts i c ⟨.read i, n⟩
    · obtain ⟨-, hp, hn, hlimit⟩ := had
      have hhalf := hroom ⟨rfl, hp, hn, hlimit⟩
      have hwrap : wrap (c.rbuffersz * 2) = c.rbuffersz * 2 := by
        unfold INT_MAX at hhalf
        exact wrap_of_nonneg (by omega) (by unfold INT_MAX; omega)
      rw [afterRead_tcp hp hn, hlimit, adapt, if_pos rfl, hwrap]
      refine ⟨?_, ?_, fun h => absurd rfl h⟩
      · simp only
        unfold RBUFFER_SZ
        split
        · omega
        · split <;> omega
      · simp only
        unfold INT_MAX at *
        split
        · omega
        · split <;> omega
    · have hsame : c.afterRead n = c := by
        by_cases hn : 0 < n
        · rw [Conn.afterRead, if_pos hn, Conn.resized]
          split
          · next hp =>
            have hlimit : c.rlimit ≠ 0 := fun h => had ⟨rfl, hp, hn, h⟩
            rw [adapt, if_neg hlimit]
          · rfl
        · rw [Conn.afterRead, if_neg hn]
      rw [hsame]
      exact h

/-- The call computes its shifts without overflow, and leaves a size in the range. -/
def KeepsSize (i : ℕ) (c : Conn) (l : Call) (w' : World σ) : Prop :=
  Shifts i c l ∧ ∃ c', w'.abs.slot i = some c' ∧ c'.Sized

/-- On a slot as `_create_socket` leaves it, the size keeps to its range in every run of `socket_limit` and
`socket_read` with room for what it adapts to, if the read limit that is left over in the slot does not
contradict the size; and the run can go on in the range as long as there is room. -/
theorem sized_of_room {w₀ : World σ} {c₀ : Conn} (h : (net B).Reach w₀)
    (hc₀ : w₀.abs.slot i = some c₀) (hnew : c₀.rbuffersz = RBUFFER_SZ) :
    (c₀.Sized ↔ c₀.rlimit = 0 ∨ c₀.rlimit = RBUFFER_SZ) ∧
      (c₀.rlimit = 0 ∨ c₀.rlimit = RBUFFER_SZ → ∀ w,
        ((sizing B i w₀).restrict fun w l _ => ∀ c, w.abs.slot i = some c → Room i c l).Reach w →
          ∃ c, w.abs.slot i = some c ∧ c.Sized ∧
            ∀ l w', (sizing B i w₀).step w l w' → (KeepsSize i c l w' ↔ Room i c l)) := by
  have hfirst : c₀.Sized ↔ c₀.rlimit = 0 ∨ c₀.rlimit = RBUFFER_SZ := by
    constructor
    · intro hs
      by_contra hno
      rw [not_or] at hno
      exact hno.2 ((hs.eq_limit hno.1).symm.trans hnew)
    · intro hlimit
      refine ⟨by rw [hnew]; decide, by rw [hnew]; decide, fun hne => ?_⟩
      rw [hnew, hlimit.resolve_left hne]
  refine ⟨hfirst, fun hlimit w hreach => ?_⟩
  -- the invariant of the run: the slot stays occupied, and its size is in the range
  obtain ⟨hw, c, hc, hs⟩ : Rep B w w.abs ∧ ∃ c, w.abs.slot i = some c ∧ c.Sized := by
    induction hreach with
    | init h₀ => exact h₀ ▸ ⟨(reach_abs h).1, c₀, hc₀, hfirst.mpr hlimit⟩
    | step _ hstep ih =>
      obtain ⟨hw, c, hc, hs⟩ := ih
      obtain ⟨hw', c', hc', hsizing⟩ := sizing_step hw hc hstep.1
      exact ⟨hw', c', hc', hsizing.sized hs (hstep.2 c hc)⟩
  refine ⟨c, hc, hs, fun l w' hstep => ?_⟩
  obtain ⟨-, c', hc', hsizing⟩ := sizing_step hw hc hstep
  exact ⟨fun hkeeps => (shifts_iff hs).mp hkeeps.1, fun hroom =>
    ⟨(shifts_iff hs).mpr hroom, c', hc', hsizing.sized hs hroom⟩⟩

/-- The size was fixed, and adapts again. -/
def lifted (n : ℤ) : World Epoll := ((boundAs 0).next epoll (.limit 0 0 n) []).next epoll (.limit 0 0 0) []

/-- The limit was set to 4 bytes, and lifted again. -/
theorem sizing_lifted_four : ((sizing epoll 0 (boundAs 0)).restrict fun w l _ =>
    ∀ c, w.abs.slot 0 = some c → Room 0 c l).Reach (lifted 4) := by
  refine .step (l := ⟨.limit 0 0 0, 0⟩) (s := (boundAs 0).next epoll (.limit 0 0 4) [])
    (.step (l := ⟨.limit 0 0 4, 0⟩) (.init rfl) ⟨⟨?_, ⟨rfl, by decide⟩, by decide⟩, ?_⟩)
    ⟨⟨?_, ⟨rfl, by decide⟩, by decide⟩, ?_⟩
  · exact step_next [] (by decide) (by decide) (by decide)
  · exact fun _ _ h => by cases h.1
  · exact step_next [] (by decide) (by decide) (by decide)
  · exact fun _ _ h => by cases h.1

/-- A read has filled the buffer of 4 bytes. -/
def doubled : World Epoll := (lifted 4).next epoll (.read 0) [{ ret := 4, bytes := [1, 2, 3, 4] }]

/-- After a read that filled the buffer and doubled it, the next call keeps the size in range exactly
if there is room. -/
theorem sized_of_room_doubled :
    ∃ c, doubled.abs.slot 0 = some c ∧ c.Sized ∧
      ∀ l w', (sizing epoll 0 (boundAs 0)).step doubled l w' → (KeepsSize 0 c l w' ↔ Room 0 c l) := by
  have hc : (boundAs 0).abs.slot 0 = some { newConn 5 0 0 0 0 with status := .bind } := by decide
  have hlifted : (lifted 4).abs.slot 0 = some { newConn 5 0 0 0 0 with status := .bind, rbuffersz := 4 } := by
    decide
  refine (sized_of_room (reach_boundAs 0) hc rfl).2 (.inl rfl) _
    (.step (l := ⟨.read 0, 4⟩) sizing_lifted_four ⟨⟨?_, rfl, by decide⟩, fun c hc' _ => ?_⟩)
  · exact step_next _ (by decide) (by decide) (by decide)
  · obtain rfl := Option.some.inj (hlifted.symm.trans hc')
    decide

/-- A read buffer of 2^30 bytes that adapts again. -/
def widened : World Epoll := lifted (2 ^ 30)

theorem sizing_widened : (sizing epoll 0 (boundAs 0)).Reach widened := by
  refine .step (l := ⟨.limit 0 0 0, 0⟩) (s := (boundAs 0).next epoll (.limit 0 0 (2 ^ 30)) [])
    (.step (l := ⟨.limit 0 0 (2 ^ 30), 0⟩) (.init rfl) ?_) ?_
  · exact ⟨step_next [] (by decide) (by decide) (by decide), ⟨rfl, by decide⟩, by decide⟩
  · exact ⟨step_next [] (by decide) (by decide) (by decide), ⟨rfl, by decide⟩, by decide⟩

/-- A read of any size is a call on the slot. -/
theorem sizing_filled {n : ℤ} (w₀ : World σ) (hw : Rep B w w.abs) (hc : w.abs.slot i = some c)
    (hp : c.protocol = .tcp) (hs : c.status ≠ .halfclose) (hn : 0 < n) (hle : n ≤ c.rbuffersz)
    (hlog : .destroyed ∉ w.log) : ∃ w', (sizing B i w₀).step w ⟨.read i, n⟩ w' := by
  obtain ⟨v, w', hrun, rfl, hw', hc'⟩ := read_filled hw hc hp hs hn hle
  have hwithin : Within w.net.max i := ⟨Int.natCast_nonneg i, by exact_mod_cast hw.lt_max hc⟩
  exact ⟨w', ⟨hlog, hwithin, _, Prog.map_of_ok ReadResult.n hrun⟩, rfl, (hw'.live hc').1⟩

/-- A read that fills the buffer doubles the size to a negative number. -/
theorem not_sized_full : ∃ w₀ w w' : World Epoll, ∃ c₀ c l, (net epoll).Reach w₀ ∧
    w₀.abs.slot 0 = some c₀ ∧ c₀.rbuffersz = RBUFFER_SZ ∧ c₀.rlimit = 0 ∧
    (sizing epoll 0 w₀).Reach w ∧ w.abs.slot 0 = some c ∧ (sizing epoll 0 w₀).step w l w' ∧
    ¬ KeepsSize 0 c l w' := by
  have hc : widened.abs.slot 0 = some { newConn 5 0 0 0 0 with status := .bind, rbuffersz := 2 ^ 30 } := by
    decide
  have hreach : (net epoll).Reach widened :=
    .of_startedIn (reach_boundAs 0) (.of_restrict sizing_widened)
  obtain ⟨w', hstep⟩ := sizing_filled (n := 2 ^ 30) (boundAs 0) (reach_abs hreach).1 hc rfl
    (by decide) (by decide) (by decide) (by decide)
  refine ⟨boundAs 0, widened, w', { newConn 5 0 0 0 0 with status := .bind }, _, _, reach_boundAs 0,
    by decide, rfl, rfl, sizing_widened, hc, hstep, ?_⟩
  rintro ⟨hshifts, -⟩
  have := hshifts ⟨rfl, rfl, by decide, rfl⟩ (.inl rfl)
  exact absurd this (by decide)

end Lsocket
