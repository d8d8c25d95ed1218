import Lsocket.Net.Atomic
import Lsocket.Net.Ownership
import Lsocket.Net.Registry
import Lsocket.Net.Spare

/-!
# The ledger of descriptors

In a run whose calls open their descriptors themselves and do not block, a descriptor is open as often as
slots have it, at every boundary of the interface: none is lost, none is closed twice, and `net_free`
closes them all.
-/

namespace Lsocket

open CInt

variable {σ : Type} {B : Backend σ} {d : ℤ} {i : ℕ} {w : World σ} {a a' : Abs σ} {c c' : Conn}
variable {evs log : List Ev} {op : Op} {v : ℤ} {np : σ}

/-! ## What the slots have -/

/-- By how much the event changes how often slots have `d`. -/
def Ev.placed (d : ℤ) : Ev → ℤ
  | .opened _ fd _ => if fd = d then 1 else 0
  | .closed _ fd _ => if fd = d then -1 else 0
  | _ => 0

/-- How often slots have `d`, by the log. -/
def placedCount (d : ℤ) (log : List Ev) : ℤ := (log.map (Ev.placed d)).sum

/-- Only opening and closing a slot places a descriptor. -/
theorem Ev.placed_of_steady {e : Ev} (h : e.Steady) : e.placed d = 0 := by
  cases e <;> first | rfl | exact h.elim

/-- The counts of the parts of a log add up. -/
theorem placedCount_append : placedCount d (evs ++ log) = placedCount d evs + placedCount d log := by
  rw [placedCount, List.map_append, List.sum_append, placedCount, placedCount]

theorem placedCount_steady (h : ∀ e ∈ evs, e.Steady) : placedCount d evs = 0 :=
  List.sum_eq_zero <| List.forall_mem_map.mpr fun e he => Ev.placed_of_steady (h e he)

theorem placedCount_of_steady (h : ∀ e ∈ evs, e.Steady) :
    placedCount d (evs ++ log) = placedCount d log := by
  rw [placedCount_append, placedCount_steady h, zero_add]

/-- What is open is in a slot, or it is spare. -/
theorem openCount_eq (d : ℤ) (log : List Ev) : openCount d log = spare d log + placedCount d log := by
  induction log with
  | nil => rfl
  | cons e log ih =>
    unfold openCount spare placedCount at *
    cases e <;> simp only [Ev.shift, Ev.placed, List.map_cons, List.sum_cons, List.count_cons,
      beq_iff_eq, reduceCtorEq, Ev.acquired.injEq, Ev.released.injEq, if_false] <;> grind

namespace Abs

/-- The slots that have `d`. -/
def holders (d : ℤ) (a : Abs σ) : Finset ℕ :=
  {i ∈ Finset.range a.max | (a.slot i).map Conn.fd = some d}

/-- The slots that hold the descriptor. -/
theorem mem_holders {a : Abs σ} :
    i ∈ a.holders d ↔ i < a.max ∧ (a.slot i).map Conn.fd = some d := by
  rw [holders, Finset.mem_filter, Finset.mem_range]

/-- They depend on the descriptors of the slots alone. -/
theorem holders_congr (hmax : a'.max = a.max)
    (hslot : ∀ i, (a'.slot i).map Conn.fd = (a.slot i).map Conn.fd) : a'.holders d = a.holders d := by
  ext i
  rw [mem_holders, mem_holders, hmax, hslot]

/-- A slot is given to a connection. -/
theorem card_holders_insert (hi : i < a.max) (hn : a.slot i = none) (hmax : a'.max = a.max)
    (hslot : a'.slot = Function.update a.slot i (some c)) :
    ((a'.holders d).card : ℤ) = (a.holders d).card + if c.fd = d then 1 else 0 := by
  have hnot : i ∉ a.holders d := fun h => by
    have := (mem_holders.mp h).2
    rw [hn] at this
    cases this
  have hset : a'.holders d = if c.fd = d then insert i (a.holders d) else a.holders d := by
    ext j
    rw [apply_ite (j ∈ ·), Finset.mem_insert, mem_holders, mem_holders, hmax, hslot]
    by_cases hj : j = i
    · subst hj
      simp [hi, hn]
    · simp [hj]
  rw [hset]
  split
  · rw [Finset.card_insert_of_notMem hnot, Nat.cast_add_one]
  · rw [add_zero]

/-- A slot is freed. -/
theorem card_holders_erase (hi : i < a.max) (hc : a.slot i = some c) (hmax : a'.max = a.max)
    (hslot : a'.slot = Function.update a.slot i none) :
    ((a'.holders d).card : ℤ) = (a.holders d).card + if c.fd = d then -1 else 0 := by
  have hset : a'.holders d = (a.holders d).erase i := by
    ext j
    rw [Finset.mem_erase, mem_holders, mem_holders, hmax, hslot]
    by_cases hj : j = i
    · subst hj
      simp
    · simp [hj]
  have hmem : i ∈ a.holders d ↔ c.fd = d := by
    rw [mem_holders, hc, Option.map_some, Option.some.injEq, and_iff_right hi]
  rw [hset]
  split
  · next hfd => rw [← Finset.card_erase_add_one (hmem.mpr hfd), Nat.cast_add_one, add_neg_cancel_right]
  · next hfd => rw [Finset.erase_eq_of_notMem (hmem.not.mpr hfd), add_zero]

end Abs

/-- The log tells how often slots have `d`. -/
def Seated (d : ℤ) (a : Abs σ) : Prop := placedCount d a.log = (a.holders d).card

namespace Seated

/-- What gives no slot another descriptor keeps the account. -/
theorem keep (h : Seated d a) (evs : List Ev) (hmax : a'.max = a.max)
    (hslot : ∀ i, (a'.slot i).map Conn.fd = (a.slot i).map Conn.fd) (hlog : a'.log = evs ++ a.log)
    (hevs : placedCount d evs = 0) : Seated d a' := by
  rw [Seated, hlog, placedCount_append, hevs, zero_add, Abs.holders_congr hmax hslot]
  exact h

/-- The connection in a slot goes on with the same descriptor. -/
theorem put (h : Seated d a) (hc : a.slot i = some c) (hfd : c'.fd = c.fd)
    (hevs : ∀ e ∈ evs, e.Steady) : Seated d (a.put i c' np evs) := by
  refine h.keep evs rfl (fun j => ?_) rfl (placedCount_steady hevs)
  rcases eq_or_ne j i with rfl | hj
  · rw [Abs.put_slot_self, hc, Option.map_some, Option.map_some, hfd]
  · exact congrArg _ (Function.update_of_ne hj ..)

/-- A slot that is closed gives its descriptor back, in the log and in fact. -/
theorem close (h : Seated d a) (hi : i < a.max) (hc : a.slot i = some c) :
    Seated d (a.close i B c) := by
  have hcard : (((a.close i B c).holders d).card : ℤ) = (a.holders d).card + if c.fd = d then -1 else 0 :=
    Abs.card_holders_erase hi hc (Abs.close_max ..) (Abs.close_slot ..)
  rw [Seated, Abs.close_log, placedCount_of_steady closeEvs_steady, hcard, ← h]
  exact add_comm ..

/-- A slot that is opened takes its descriptor. -/
theorem create {rest : List ℕ} (h : Seated d a) (hi : i < a.max) (hn : a.slot i = none) :
    Seated d (a.create i rest c) := by
  have hcard : (((a.create i rest c).holders d).card : ℤ) =
      (a.holders d).card + if c.fd = d then 1 else 0 := Abs.card_holders_insert hi hn rfl rfl
  rw [Seated, hcard, ← h]
  exact add_comm ..

/-- Every change keeps the account. -/
theorem change (h : Seated d a) (ha : InOrder a) (hch : Change B op v a a') : Seated d a' := by
  cases hch with
  | err | polled => exact h.keep [] rfl (fun _ => rfl) rfl rfl
  | @note e he => exact h.keep [e] rfl (fun _ => rfl) rfl (placedCount_steady (by simpa using he.steady))
  | @raised e => exact h.keep [.raised e] rfl (fun _ => rfl) rfl rfl
  | refused => exact h.keep [.refused] rfl (fun _ => rfl) rfl rfl
  | @drop fd => exact h.keep [.released fd] rfl (fun _ => rfl) rfl rfl
  | destroyed => exact h.keep [.destroyed] rfl (fun _ => rfl) rfl rfl
  | conn hc hs => exact h.put hc hs.subscribes.1 fun e he => (hs.about e he).steady
  | close hc hs =>
    exact (h.put hc hs.subscribes.1 fun e he => (hs.about e he).steady).close (ha.lt_max hc)
      (Abs.put_slot_self ..)
  | opened _ _ hi hn hm =>
    exact (h.create hi hn).put (Function.update_self ..) (hm.subscribes rfl).1 fun e he =>
      (hm.events_local e he).steady
  | bounced _ _ hi hn hs =>
    exact ((h.create hi hn).put (Function.update_self ..) rfl fun e he =>
      (hs.events_local e he).steady).close hi (Abs.put_slot_self ..)

end Seated

/-- In every run, the log tells how many slots have the descriptor. -/
theorem reach_seated (h : (changes B).Reach a) (d : ℤ) : Seated d a := by
  refine h.invariant ?_ fun a l a' hreach ha hs => ha.change (reach_inOrder hreach) hs
  rintro _ ⟨max, -, rfl⟩
  simp [Seated, Abs.holders, Abs.initial, placedCount]

/-! ## The end of the net -/

/-- Only `net_free` destroys the net, when every slot is free. -/
theorem Change.destroyed_or (h : Change B op v a a') (hd : .destroyed ∈ a'.log) :
    .destroyed ∈ a.log ∨ op = .free ∧ ∀ i, a.slot i = none := by
  have hcons {e : Ev} (he : e ≠ .destroyed) (h : .destroyed ∈ e :: a.log) : .destroyed ∈ a.log :=
    (List.mem_cons.mp h).resolve_left he.symm
  have happend {evs log : List Ev} {i : ℕ} (he : ∀ e ∈ evs, e.About i) (h : .destroyed ∈ evs ++ log) :
      .destroyed ∈ log := (List.mem_append.mp h).resolve_left fun h => he .destroyed h
  -- closing a slot logs the blocks it frees and the close, never the end of the net
  have hclose {b : Abs σ} {i : ℕ} {c : Conn} (h : .destroyed ∈ (b.close i B c).log) :
      .destroyed ∈ b.log := by
    rw [Abs.close_log] at h
    rcases List.mem_append.mp h with h | h
    · rcases mem_closeEvs h with ⟨_, h⟩ | h <;> cases h
    · exact (List.mem_cons.mp h).resolve_left (by simp)
  cases h with
  | err | polled => exact .inl hd
  | note he =>
    refine .inl (hcons ?_ hd)
    rintro rfl
    exact he
  | raised | refused | drop => exact .inl (hcons (by simp) hd)
  | conn _ hs => exact .inl (happend hs.about hd)
  | close _ hs => exact .inl (happend hs.about (hclose hd))
  | opened _ _ _ _ hm => exact .inl (hcons (by simp) (happend (fun e he => (hm.events_local e he).about) hd))
  | bounced _ _ _ _ hs =>
    exact .inl (hcons (by simp) (happend (fun e he => (hs.events_local e he).about) (hclose hd)))
  | destroyed hop hnone => exact .inr ⟨hop, hnone⟩

/-- `net_free` opens nothing. -/
theorem Change.vacant (h : Change B .free v a a') (hnone : ∀ i, a.slot i = none) :
    ∀ i, a'.slot i = none := by
  refine fun i => Option.eq_none_iff_forall_ne_some.mpr fun c hc => ?_
  rcases h.origin hc with hc | ⟨hc, -, -⟩ | ⟨-, hm, -⟩
  · cases (hnone i).symm.trans hc
  · cases (hnone i).symm.trans hc
  · cases hm <;> contradiction

/-- After the last change of a call that destroys the net, every slot is free. -/
theorem Changes.vacant (h : Changes B op v a a') (hlog : .destroyed ∉ a.log) (hd : .destroyed ∈ a'.log) :
    op = .free ∧ ∀ i, a'.slot i = none := by
  induction h with
  | refl => exact absurd hd hlog
  | tail _ h ih =>
    obtain ⟨rfl, hnone⟩ := (h.destroyed_or hd).elim ih id
    exact ⟨rfl, h.vacant hnone⟩

/-- The net is gone, and its slots are free. -/
theorem reach_vacant (h : (net B).Reach w) (hd : .destroyed ∈ w.log) : ∀ i, w.abs.slot i = none := by
  cases h with
  | init h =>
    obtain ⟨max, junk, rfl⟩ := h
    exact absurd hd List.not_mem_nil
  | step h hs => exact ((step_changes (reach_abs h).1 hs).2.vacant hs.1 hd).2

/-! ## The account -/

/-- The slots that have `d`. -/
def World.holders (d : ℤ) (w : World σ) : Finset ℕ :=
  {i ∈ Finset.range w.net.max | (w.net.sockets i).status ≠ .invalid ∧ (w.net.sockets i).fd = d}

/-- The slots of the world that hold it. -/
theorem World.abs_holders : w.abs.holders d = w.holders d := by
  ext i
  rw [Abs.mem_holders, World.holders, Finset.mem_filter, Finset.mem_range]
  show i < w.net.max ∧ (if w.Live i then _ else none : Option Conn).map Conn.fd = some d ↔ _
  refine and_congr_right fun hi => ?_
  rw [apply_ite (Option.map Conn.fd), Option.map_some, Option.map_none]
  split
  · next hl => simp [Socket.conn, hl.2]
  · next hl => simpa using fun hs => absurd ⟨hi, hs⟩ hl

/-- No descriptor is lost and none is closed twice. -/
structure Accounted (d : ℤ) (w : World σ) : Prop where
  /-- `d` is open as often as slots have it. -/
  count : openCount d w.log = (w.holders d).card
  /-- If the system opens no descriptor that is open, no two slots have `d`. -/
  alone : History (fun e past => e = .acquired d → openCount d past ≤ 0) w.log → (w.holders d).card ≤ 1
  /-- After `net_free` it is not open. -/
  gone : .destroyed ∈ w.log → openCount d w.log = 0

/-- If the system opens a descriptor only while it is closed, then it is never open twice. -/
theorem openCount_le_one (h : History (fun e past => e = .acquired d → openCount d past ≤ 0) log) :
    openCount d log ≤ 1 := by
  induction log with
  | nil => exact zero_le_one
  | cons e log ih =>
    obtain ⟨he, hlog⟩ := h
    have hle := ih hlog
    simp only [openCount, List.count_cons, beq_iff_eq] at he hle ⊢
    by_cases hacq : e = .acquired d
    · have hzero := he hacq
      subst hacq
      simp only [if_true, reduceCtorEq, if_false]
      omega
    · rw [if_neg hacq]
      split <;> omega

/-- In every run that spares the descriptor, it is open exactly as often as slots hold it. -/
theorem reach_spare (hd : STDERR_FILENO < d)
    (h : ((net B).restrict fun _ l _ => l.op.Spares d).Reach w) : spare d w.log = 0 := by
  refine h.invariant (I := fun w => spare d w.log = 0) ?_ fun w l w' _ ih hs => ?_
  · rintro _ ⟨max, junk, rfl⟩
    rfl
  · obtain ⟨⟨-, -, replies, hrun⟩, hop⟩ := hs
    exact (keeps_op hd hop _ _ _ hrun).trans ((add_zero _).trans ih)

/-- In every run of calls that open their descriptors themselves and do not block. -/
theorem descriptors_accounted (hd : STDERR_FILENO < d)
    (h : ((net B).restrict fun _ l _ => l.op.Spares d).Reach w) : Accounted d w := by
  have hreach := h.of_restrict
  have hcount : openCount d w.log = (w.holders d).card := by
    rw [openCount_eq, reach_spare hd h, zero_add, ← World.abs_holders]
    exact reach_seated (reach_abs hreach).2 d
  refine ⟨hcount, fun hfresh => ?_, fun hgone => ?_⟩
  · have hle := openCount_le_one hfresh
    omega
  · have hnone := reach_vacant hreach hgone
    rw [hcount, ← World.abs_holders, Nat.cast_eq_zero, Finset.card_eq_zero]
    refine Finset.eq_empty_of_forall_notMem fun i hi => ?_
    have := (Abs.mem_holders.mp hi).2
    rw [hnone] at this
    cases this

/-- A listener is opened, and `net_free` closes it. -/
theorem descriptors_accounted_listen :
    Accounted 3 (((fresh epoll 1).next epoll (.listen 0) listens).next epoll .free []) := by
  have hlisten : (net epoll).step (fresh epoll 1) ⟨.listen 0, 0⟩
      ((fresh epoll 1).next epoll (.listen 0) listens) :=
    step_next _ (by decide) trivial (by decide)
  have hfree : (net epoll).step ((fresh epoll 1).next epoll (.listen 0) listens) ⟨.free, 0⟩
      (((fresh epoll 1).next epoll (.listen 0) listens).next epoll .free []) :=
    step_next _ (by decide) trivial (by decide)
  exact descriptors_accounted (by decide)
    (.step (.step (.init ⟨1, zeroed, rfl⟩) ⟨hlisten, trivial⟩) ⟨hfree, trivial⟩)

end Lsocket
