import Lsocket.Net.FreeList
import Mathlib.Algebra.BigOperators.Group.Finset.Piecewise
import Mathlib.Algebra.Order.BigOperators.Group.Finset

/-!
# Who owns a block of data

A block that is handed to a send is freed by the call, or it becomes the beginning of a chunk, and is
freed with that. `charge` counts how often a block was freed and how often it is queued. A call
raises the charge of the block that is handed to it by one, and no other.
-/

namespace Lsocket

variable {σ : Type} {B : Backend σ} {w w' : World σ} {a a' : Abs σ} {i : ℕ} {c c' : Conn} {op : Op}
variable {b : Chunk} {rs : List Reply} {r : Option Reply} {v : ℤ} {np np' : σ} {evs : List Ev}
variable {t n : ℕ}

/-! ## Counting -/

/-- How many chunks of a queue the block is the beginning of. -/
def owned (t : ℕ) (q : List Chunk) : ℕ := (q.filterMap Chunk.begin).count t

/-- How often the block was freed. -/
def releases (t : ℕ) (log : List Ev) : ℕ := log.count (.freed t)

@[simp] theorem owned_nil : owned t [] = 0 := rfl

/-- The blocks of two queues together. -/
theorem owned_append (q q' : List Chunk) : owned t (q ++ q') = owned t q + owned t q' := by
  rw [owned, List.filterMap_append, List.count_append]
  rfl

theorem owned_cons (b : Chunk) (q : List Chunk) : owned t (b :: q) = owned t [b] + owned t q :=
  owned_append [b] q

/-- Only the beginning of a chunk counts. -/
theorem owned_congr {b b' : Chunk} (h : b.begin = b'.begin) (q : List Chunk) :
    owned t (b :: q) = owned t (b' :: q) := by
  rw [owned, owned, List.filterMap_cons, List.filterMap_cons, h]

/-- A chunk has its own block, or none. -/
theorem owned_singleton (b : Chunk) : owned t [b] = if b.begin = some t then 1 else 0 := by
  unfold owned
  rcases hb : b.begin with _ | s
  · simp [hb]
  · by_cases hs : s = t <;> simp [hb, hs]

@[simp] theorem releases_nil : releases t [] = 0 := rfl

@[simp] theorem releases_append (evs log : List Ev) :
    releases t (evs ++ log) = releases t evs + releases t log := List.count_append

theorem releases_cons {e : Ev} (h : e ≠ .freed t) (log : List Ev) :
    releases t (e :: log) = releases t log := List.count_cons_of_ne h

@[simp] theorem releases_freed (b : Chunk) : releases t b.freed = owned t [b] := by
  rw [owned_singleton, Chunk.freed]
  rcases b.begin with _ | s
  · rfl
  · by_cases hs : s = t <;> simp [releases, hs]

@[simp] theorem releases_wrote (i : ℕ) (p : Protocol) (b : Chunk) (n : ℤ) :
    releases t (wrote i p b n) = 0 := by
  unfold wrote
  split <;> rfl

/-- A queue that is freed releases its blocks. -/
theorem releases_freedEvs (q : List Chunk) : releases t (freedEvs q) = owned t q := by
  induction q with
  | nil => rfl
  | cons b q ih =>
    have hcons : owned t (b :: q) = owned t [b] + owned t q := owned_cons b q
    rw [freedEvs, releases_append, releases_freed, ih]
    omega

/-- Closing a connection frees its queue. -/
theorem releases_closeEvs (c : Conn) : releases t (closeEvs c) = owned t c.queue := by
  unfold closeEvs
  rw [releases_append, releases_freedEvs]
  split <;> rfl

theorem Subscribe.releases {fd ret : ℤ} {old new mask : Mask}
    (h : Subscribe B i fd old new np ret mask np' evs) : releases t evs = 0 := by
  cases h <;> rfl

/-! ## The work on a connection -/

/-- A chunk that is written to its end is freed. -/
theorem Drain.owned (h : Drain i c c' evs) :
    Lsocket.releases t evs + Lsocket.owned t c'.queue = Lsocket.owned t c.queue := by
  induction h with
  | stop => simp
  | part hq =>
    rw [hq, releases_wrote, Nat.zero_add]
    exact owned_congr rfl _
  | next hq h ih =>
    rw [hq, owned_cons, releases_append, releases_append, releases_freed, releases_wrote, ← ih]
    omega

/-- A write event releases what it takes off the queue. -/
theorem Flush.owned (h : Flush B i c np c' np' evs) :
    Lsocket.releases t evs + Lsocket.owned t c'.queue = Lsocket.owned t c.queue := by
  cases h with
  | idle => simp
  | rest h => exact h.owned
  | done _ h _ hs =>
    rw [releases_append, hs.releases, Nat.zero_add]
    exact h.owned

/-- Calls that do not send free what they take off a queue. -/
theorem ConnStep.owned (h : ConnStep B op v i c np c' np' evs) (hop : ¬ op.IsSend) :
    Lsocket.releases t evs + Lsocket.owned t c'.queue = Lsocket.owned t c.queue := by
  cases h with
  | tune | received | half => exact Nat.zero_add _
  | enable _ h => rw [h.releases, Nat.zero_add]
  | whole h | start h | behind h => exact absurd h.isSend hop
  | flushed _ h => exact h.owned
  | completed _ _ h => rw [releases_append, h.releases, Nat.zero_add]; exact Nat.zero_add _

/-- What comes before the end of a connection releases no block that is still queued. -/
theorem Closing.owned (h : Closing B op v i c np c' np' evs) (hop : ¬ op.IsSend) :
    Lsocket.releases t evs + Lsocket.owned t c'.queue = Lsocket.owned t c.queue := by
  cases h with
  | forced | idle | destroyed | unread | unconnected => exact Nat.zero_add _
  | unsent h => exact absurd h.isSend hop
  | broken _ _ _ h =>
    rw [releases_cons (by simp)]
    exact h.owned
  | finished _ _ _ h =>
    rw [releases_cons (by simp)]
    exact h.owned

/-- A new connection owns nothing. -/
theorem Opening.Makes.owned (h : Opening.Makes B op i c np c' np' evs) :
    Lsocket.releases t evs = 0 ∧ c'.queue = c.queue := by
  cases h with
  | listening _ h | connecting _ h => exact ⟨h.releases, rfl⟩
  | connected | accepted | bound => exact ⟨rfl, rfl⟩

/-! ## The charge of a block -/

namespace Abs

/-- How many chunks in a slot the block is the beginning of. -/
def held (t : ℕ) (a : Abs σ) (i : ℕ) : ℕ := (a.slot i).elim 0 fun c => owned t c.queue

/-- How often the block was freed, and how often it is queued. -/
def charge (t : ℕ) (a : Abs σ) : ℕ := releases t a.log + ∑ i ∈ Finset.range a.max, a.held t i

/-- Events that free nothing, and no change of a slot. -/
theorem charge_keep (evs : List Ev) (hslot : a'.slot = a.slot) (hmax : a'.max = a.max)
    (hlog : a'.log = evs ++ a.log) (hevs : releases t evs = n) : a'.charge t = a.charge t + n := by
  have hheld : a'.held t = a.held t := by
    funext i
    rw [held, held, hslot]
  rw [charge, charge, hheld, hmax, hlog, releases_append, hevs]
  omega

/-- Events, and a change of one slot. -/
theorem charge_update {o : Option Conn} (evs : List Ev) (hi : i < a.max)
    (hslot : a'.slot = Function.update a.slot i o) (hmax : a'.max = a.max)
    (hlog : a'.log = evs ++ a.log)
    (hevs : releases t evs + (o.elim 0 fun c => owned t c.queue) = a.held t i + n) :
    a'.charge t = a.charge t + n := by
  have hheld : a'.held t = Function.update (a.held t) i (o.elim 0 fun c => owned t c.queue) := by
    funext j
    by_cases hj : j = i
    · subst hj
      rw [held, hslot, Function.update_self, Function.update_self]
    · rw [held, hslot, Function.update_of_ne hj, Function.update_of_ne hj, held]
  have hmem : i ∈ Finset.range a.max := Finset.mem_range.mpr hi
  have hsum := Finset.add_sum_erase _ (a.held t) hmem
  have hsum' := Finset.sum_update_of_mem hmem (a.held t) (o.elim 0 fun c => owned t c.queue)
  rw [Finset.sdiff_singleton_eq_erase] at hsum'
  rw [charge, charge, hheld, hmax, hlog, releases_append, hsum']
  omega

/-- An occupied slot holds the blocks of its queue. -/
theorem held_some (hc : a.slot i = some c) : a.held t i = owned t c.queue := by
  rw [held, hc]
  rfl

/-- A free slot holds nothing. -/
theorem held_none (hc : a.slot i = none) : a.held t i = 0 := by
  rw [held, hc]
  rfl

end Abs

theorem InOrder.lt_max (h : InOrder a) (hc : a.slot i = some c) : i < a.max := by
  refine occupied_lt h.log ?_
  have := (h.slot i).not.mp (by simp [hc])
  simpa using this

/-- The events of a connection that is closed, and its slot. -/
theorem charge_close (evs : List Ev) (hi : i < a.max)
    (hc : a'.slot = Function.update a.slot i (some c')) (hmax : a'.max = a.max) (hlog : a'.log = evs ++ a.log)
    (hevs : releases t evs + owned t c'.queue = a.held t i + n) :
    (a'.close i B c').charge t = a.charge t + n := by
  refine Abs.charge_update (o := none) (closeEvs c' ++ .closed i c'.fd c'.mask :: evs) hi ?_ ?_ ?_ ?_
  · rw [Abs.close_slot, hc, Function.update_idem]
  · rw [Abs.close_max, hmax]
  · rw [Abs.close_log, hlog, List.append_assoc]
    rfl
  · rw [releases_append, releases_closeEvs, releases_cons (by simp)]
    simp only [Option.elim_none]
    omega

/-- No call that does not send changes a charge. -/
theorem Change.charge (h : Change B op v a a') (ha : InOrder a) (hop : ¬ op.IsSend) :
    a'.charge t = a.charge t := by
  cases h with
  | err | polled => exact Abs.charge_keep (n := 0) [] rfl rfl rfl rfl
  | @note e _ hf =>
    have he : e ≠ .freed t := fun he => hop (hf t he)
    exact Abs.charge_keep (n := 0) [e] rfl rfl rfl (releases_cons he _)
  | @raised e => exact Abs.charge_keep (n := 0) [.raised e] rfl rfl rfl rfl
  | refused => exact Abs.charge_keep (n := 0) [.refused] rfl rfl rfl rfl
  | @drop fd => exact Abs.charge_keep (n := 0) [.released fd] rfl rfl rfl rfl
  | destroyed => exact Abs.charge_keep (n := 0) [.destroyed] rfl rfl rfl rfl
  | conn hc hs =>
    refine Abs.charge_update (n := 0) _ (ha.lt_max hc) rfl rfl rfl ?_
    rw [Abs.held_some hc]
    exact hs.owned hop
  | close hc hs =>
    refine charge_close (n := 0) _ (ha.lt_max hc) rfl rfl rfl ?_
    rw [Abs.held_some hc]
    exact hs.owned hop
  | @opened i rest fd slimit udata protocol rlimit c np evs _ _ hi hn hm =>
    refine Abs.charge_update (n := 0) (o := some c) (evs ++ [.opened i fd (protocolOf protocol)]) hi ?_ rfl ?_ ?_
    · exact Function.update_idem ..
    · simp [Abs.put, Abs.create, newConn]
    · obtain ⟨hevs, hq⟩ := hm.owned (t := t)
      rw [Abs.held_none hn, releases_append, hevs, Option.elim_some, hq]
      rfl
  | @bounced i rest fd slimit udata protocol rlimit _ _ _ np evs _ _ hi hn hs =>
    refine charge_close (n := 0) (evs ++ [.opened i fd (protocolOf protocol)]) hi ?_ rfl ?_ ?_
    · exact Function.update_idem ..
    · simp [Abs.put, Abs.create, newConn]
    · rw [Abs.held_none hn, releases_append, hs.releases]
      rfl

/-- All that is not a send leaves the charge for a block as it is. -/
theorem Changes.charge (h : Changes B op v a a') (ha : InOrder a) (hop : ¬ op.IsSend) :
    InOrder a' ∧ a'.charge t = a.charge t := by
  induction h with
  | refl => exact ⟨ha, rfl⟩
  | tail _ h ih => exact ⟨ih.1.change h, (h.charge ih.1 hop).trans ih.2⟩

/-! ## Sends -/

/-- A send that fails frees its block with the queue. -/
theorem charge_fail {n err : ℤ} (hi : i < a.max) (hc : a.slot i = some c) :
    (a.fail B i c b n err).charge t = a.charge t + owned t [b] := by
  have hclose : ((a.put i c a.np (b.freed ++ (wrote i c.protocol b n ++ [.offered i b]))).close i B
      c).charge t = a.charge t + owned t [b] := by
    refine charge_close _ hi rfl rfl rfl ?_
    rw [Abs.held_some hc, releases_append, releases_append, releases_freed, releases_wrote,
      releases_cons (by simp)]
    simp only [releases_nil]
    omega
  exact (Abs.charge_keep (n := 0) [] rfl rfl rfl rfl).trans hclose

/-- A send charges its own block, which is queued or released before it returns. -/
theorem SendEnd.charge (h : SendEnd B i c b a r v a') (hi : i < a.max) (hc : a.slot i = some c) :
    a'.charge t = a.charge t + owned t [b] := by
  have hheld := Abs.held_some (t := t) hc
  cases h with
  | whole =>
    refine Abs.charge_update _ hi rfl rfl rfl ?_
    rw [hheld, releases_append, releases_append, releases_freed, releases_wrote,
      releases_cons (by simp), Option.elim_some]
    simp only [releases_nil]
    omega
  | queued hq _ _ _ _ hs =>
    refine Abs.charge_update _ hi rfl rfl rfl ?_
    rw [hheld, hq, releases_append, releases_append, hs.releases, releases_wrote,
      releases_cons (by simp), Option.elim_some, owned_congr (b.left_begin ..)]
    simp only [releases_nil, owned_nil]
  | behind =>
    refine Abs.charge_update _ hi rfl rfl rfl ?_
    rw [hheld, releases_cons (by simp), Option.elim_some, owned_append]
    simp only [releases_nil]
    omega
  | exceeded | broken => exact charge_fail hi hc

/-- A send raises the charge of the block that is handed to it, and no other. -/
theorem SendCall.charge (h : SendCall B op a rs v a') (ha : InOrder a) :
    a'.charge t = a.charge t + owned t [op.chunk] := by
  have hrejected {a₁ : Abs σ} (hslot : a₁.slot = a.slot) (hmax : a₁.max = a.max)
      (hlog : a₁.log = freedLog [op.chunk] a.log) :
      a₁.charge t = a.charge t + owned t [op.chunk] :=
    Abs.charge_keep _ hslot hmax (hlog.trans (freedLog_eq ..)) (releases_freedEvs _)
  cases h with
  | noSocket => exact hrejected rfl rfl rfl
  | status => exact hrejected rfl rfl rfl
  | sends hc _ _ hend => exact hend.charge (ha.lt_max hc) hc

/-! ## Runs with fresh blocks -/

/-- A net in use, and the blocks that were handed to it. -/
structure Ledger (σ : Type) where
  world : World σ
  handed : List ℕ

/-- Calls with proper arguments, where the block of each send is a new one. -/
def ledger (B : Backend σ) : System (Ledger σ) Call where
  init s := (∃ max junk, s.world = netCreate B max junk) ∧ s.handed = []
  step s l s' := (net B).step s.world l s'.world ∧ (∀ t ∈ l.op.chunk.begin, t ∉ s.handed) ∧
    s'.handed = l.op.chunk.begin.toList ++ s.handed

/-- The block was freed, once, and is not queued. -/
def Released (t : ℕ) (a : Abs σ) : Prop :=
  releases t a.log = 1 ∧ ∀ i c, a.slot i = some c → owned t c.queue = 0

/-- The block was not freed, and is the beginning of one chunk of one connection. -/
def Pending (t : ℕ) (a : Abs σ) : Prop :=
  releases t a.log = 0 ∧ ∃ i c, a.slot i = some c ∧ owned t c.queue = 1 ∧
    ∀ j d, a.slot j = some d → j ≠ i → owned t d.queue = 0

/-- The block is unknown. -/
def Unknown (t : ℕ) (a : Abs σ) : Prop :=
  releases t a.log = 0 ∧ ∀ i c, a.slot i = some c → owned t c.queue = 0

/-- The runs with blocks are runs of the net. -/
theorem ledger_reach {s : Ledger σ} (h : (ledger B).Reach s) : (net B).Reach s.world := by
  induction h with
  | init h =>
    obtain ⟨⟨max, junk, hw⟩, -⟩ := h
    exact .init ⟨max, junk, hw⟩
  | step _ hs ih => exact .step ih hs.1

/-- Only a send hands over a block. -/
theorem Op.chunk_begin (h : ¬ op.IsSend) : op.chunk.begin = none := by
  cases op with
  | send | sendfd => exact absurd trivial h
  | _ => rfl

/-- A call raises the charge of the block that is handed to it, and no other. -/
theorem step_charge {l : Call} (h : (net B).Reach w) (hs : (net B).step w l w') :
    w'.abs.charge t = w.abs.charge t + owned t [l.op.chunk] := by
  have horder := reach_inOrder (reach_abs h).2
  by_cases hsend : l.op.IsSend
  · obtain ⟨-, hop, rs, hrun⟩ := hs
    exact (reach_send h hsend hop hrun).charge horder
  · rw [owned_singleton, if_neg (by simp [Op.chunk_begin hsend])]
    exact ((step_changes (reach_abs h).1 hs).2.charge horder hsend).2

/-- A block has a charge of one from the call on that it is handed to. -/
theorem ledger_charge {s : Ledger σ} (h : (ledger B).Reach s) (t : ℕ) :
    s.world.abs.charge t = if t ∈ s.handed then 1 else 0 := by
  induction h with
  | @init s h =>
    obtain ⟨⟨max, junk, hw⟩, hhanded⟩ := h
    rw [hw, (rep_netCreate max junk).2, hhanded, if_neg List.not_mem_nil]
    simp [Abs.charge, Abs.held, Abs.initial]
  | @step s s' l h hs ih =>
    obtain ⟨hstep, hfresh, hhanded⟩ := hs
    rw [step_charge (ledger_reach h) hstep, ih, owned_singleton, hhanded]
    by_cases ht : l.op.chunk.begin = some t
    · simp [ht, hfresh t ht]
    · simp [ht]

/-- What a charge of one stands for. -/
theorem released_or_pending (ha : InOrder a) (h : a.charge t = 1) : Released t a ∨ Pending t a := by
  have hle {i : ℕ} {c : Conn} (hc : a.slot i = some c) :
      owned t c.queue ≤ ∑ i ∈ Finset.range a.max, a.held t i := by
    rw [← Abs.held_some hc]
    exact Finset.single_le_sum (fun _ _ => Nat.zero_le _) (Finset.mem_range.mpr (ha.lt_max hc))
  unfold Abs.charge at h
  by_cases hrel : releases t a.log = 1
  · refine .inl ⟨hrel, fun i c hc => ?_⟩
    have := hle hc
    omega
  · have hzero : releases t a.log = 0 := by omega
    -- not freed yet, so the one token is in a queue, and in only one of them
    have hsum : ∑ i ∈ Finset.range a.max, a.held t i = 1 := by omega
    refine .inr ⟨hzero, ?_⟩
    obtain ⟨i, hi, hne⟩ := Finset.exists_ne_zero_of_sum_ne_zero (hsum.trans_ne one_ne_zero)
    rcases hc : a.slot i with _ | c
    · exact absurd (Abs.held_none hc) hne
    rw [Abs.held_some hc] at hne
    have hc1 : owned t c.queue = 1 := by
      have := hle hc
      omega
    refine ⟨i, c, hc, hc1, fun j d hd hj => ?_⟩
    have herase := Finset.add_sum_erase _ (a.held t) hi
    rw [Abs.held_some hc, hc1, hsum] at herase
    have hrest : ∑ i ∈ (Finset.range a.max).erase i, a.held t i = 0 := by omega
    rw [← Abs.held_some hd]
    exact Finset.sum_eq_zero_iff.mp hrest j
      (Finset.mem_erase.mpr ⟨hj, Finset.mem_range.mpr (ha.lt_max hd)⟩)

/-- What a charge of zero stands for. -/
theorem unknown_of_charge (ha : InOrder a) (h : a.charge t = 0) : Unknown t a := by
  unfold Abs.charge at h
  refine ⟨by omega, fun i c hc => ?_⟩
  rw [← Abs.held_some hc]
  exact Finset.sum_eq_zero_iff.mp (by omega) i (Finset.mem_range.mpr (ha.lt_max hc))

end Lsocket
