import Lsocket.Net.Types
import Mathlib.Logic.Function.Basic

/-!
# The poller on select

`np_select.h`. The state is all in the process: two sets of descriptors, and an array from
descriptors to slots. Closing a descriptor changes nothing of it.
-/

namespace Lsocket

def FD_SETSIZE : ℤ := 1024

/-- `struct np_state`. The sets that `select` overwrites are part of its answer. -/
structure Select where
  cap : ℕ
  ud : ℤ → Option ℕ
  maxfd : ℤ
  rfds : ℤ → Bool
  wfds : ℤ → Bool

namespace Select

/-- The loops that double the capacity while it is less than `n`. -/
def double (n : ℕ) : ℕ → ℕ → ℕ
  | 0, cap => cap
  | fuel + 1, cap => if cap < n then double n fuel (cap * 2) else cap

/-- `np_init`. -/
def npInit (max : ℕ) : Select where
  cap := double max max 1
  ud _ := none
  maxfd := -1
  rfds _ := false
  wfds _ := false

/-- `_grow`: the part of the array that is new is zero. -/
def grow (s : Select) (maxfd : ℤ) : Select :=
  let cap := double (maxfd.toNat + 1) (maxfd.toNat + 1) s.cap
  { s with cap, ud := fun fd => if s.cap ≤ fd ∧ fd < cap then none else s.ud fd }

/-- `_isvalid_fd`. -/
def Valid (fd : ℤ) : Prop := 0 ≤ fd ∧ fd < FD_SETSIZE

instance (fd : ℤ) : Decidable (Valid fd) := inferInstanceAs (Decidable (_ ∧ _))

/-- The end of `np_add`: remember the slot of the descriptor. -/
def store (s : Select) (fd : ℤ) (ud : ℕ) : Select :=
  let s := if s.cap ≤ fd then s.grow fd else s
  { s with
    ud := Function.update s.ud fd (some ud)
    maxfd := if s.maxfd < fd then fd else s.maxfd }

/-- What `np_add` does for a valid descriptor. -/
def add (s : Select) (fd : ℤ) (mask : Mask) (ud : ℕ) : Select :=
  let s := { s with
    rfds := if mask.rable then Function.update s.rfds fd true else s.rfds
    wfds := if mask.wable then Function.update s.wfds fd true else s.wfds }
  if mask.rable || mask.wable then s.store fd ud else s

/-- A change of the state that fails if the descriptor is not valid. -/
def change (fd : ℤ) (f : Select → Select) : Prog Fault (Select × Os) ℤ :=
  if Valid fd then do
    Prog.write fun s => (f s.1, s.2)
    pure 0
  else pure (-1)

/-- `np_add`. -/
def npAdd (fd : ℤ) (mask : Mask) (ud : ℕ) : Prog Fault (Select × Os) ℤ :=
  change fd fun s => s.add fd mask ud

/-- What `np_mod` does for a valid descriptor. -/
def modify (s : Select) (fd : ℤ) (mask : Mask) : Select :=
  { s with
    rfds := Function.update s.rfds fd mask.rable
    wfds := Function.update s.wfds fd mask.wable }

/-- `np_mod`. -/
def npMod (fd : ℤ) (mask : Mask) (_ud : ℕ) : Prog Fault (Select × Os) ℤ :=
  change fd fun s => s.modify fd mask

/-- The greatest descriptor below `n` with a slot, or -1. -/
def highest (ud : ℤ → Option ℕ) : ℕ → ℤ
  | 0 => -1
  | n + 1 => if (ud n).isSome then n else highest ud n

/-- What `np_del` does for a valid descriptor. -/
def remove (s : Select) (fd : ℤ) : Select :=
  let ud := Function.update s.ud fd none
  { s with
    rfds := Function.update s.rfds fd false
    wfds := Function.update s.wfds fd false
    ud
    maxfd := if fd = s.maxfd then highest ud s.maxfd.toNat else s.maxfd }

/-- `np_del`. -/
def npDel (fd : ℤ) : Prog Fault (Select × Os) ℤ :=
  if Valid fd then do
    let s ← Prog.read Prod.fst
    Prog.check (fd < s.cap) .backend
    Prog.write fun s => (s.1.remove fd, s.2)
    pure 0
  else pure (-1)

/-- `FD_ISSET` in the sets that `select` leaves. -/
def isSet (ready : List Ready) (get : Ready → Bool) (fd : ℤ) : Bool :=
  ready.any fun x => x.fd = fd && get x

/-- What `select` can answer: an error, or the members of the two sets that are ready, and their
number. -/
def Selects (s : Select) (r : Reply) : Prop :=
  r.Failed ∨ ((∀ x ∈ r.ready, 0 ≤ x.fd ∧ x.fd ≤ s.maxfd ∧ (x.read → s.rfds x.fd) ∧
      (x.write → s.wfds x.fd)) ∧
    r.ret = (List.range (s.maxfd + 1).toNat).countP (fun n => isSet r.ready Ready.read n) +
      (List.range (s.maxfd + 1).toNat).countP (fun n => isSet r.ready Ready.write n))

instance (s : Select) : DecidablePred (Selects s) := fun _ => inferInstanceAs (Decidable (_ ∨ _))

/-- The event for a descriptor, if it is ready and has a slot. -/
def event (s : Select) (ready : List Ready) (fd : ℤ) : Option NpEvent :=
  let read := isSet ready Ready.read fd
  let write := isSet ready Ready.write fd
  if read || write then (s.ud fd).map fun ud => { ud, read, write } else none

/-- `np_poll`. -/
def npPoll (_max : ℕ) (_timeout : ℤ) : Prog Fault (Select × Os) (List NpEvent) := do
  let s ← Prog.read Prod.fst
  if s.maxfd = -1 then pure []
  else do
    let r ← Prog.zoom Prod.snd (fun o s => (s.1, o)) (sys (Selects s))
    pure (if 0 < r.ret then
      (List.range (s.maxfd + 1).toNat).filterMap fun (n : ℕ) => s.event r.ready n else [])

/-- The slots in the array. -/
def known (s : Select) (u : ℕ) : Prop := ∃ fd, s.ud fd = some u

/-! ## What the operations do -/

variable {s : Select} {fd d : ℤ} {mask : Mask} {u u' : ℕ}

@[simp] theorem store_rfds : (s.store fd u).rfds = s.rfds := by
  unfold store
  split <;> rfl

@[simp] theorem store_wfds : (s.store fd u).wfds = s.wfds := by
  unfold store
  split <;> rfl

@[simp] theorem store_ud_self : (s.store fd u).ud fd = some u :=
  Function.update_self ..

/-- The other entries are as they were, or cleared by `_grow`. -/
theorem store_ud_of_ne (hd : d ≠ fd) :
    (s.store fd u).ud d = s.ud d ∨ (s.cap ≤ d ∧ (s.store fd u).ud d = none) := by
  have hud : (s.store fd u).ud d = (if s.cap ≤ fd then s.grow fd else s).ud d :=
    Function.update_of_ne hd ..
  rw [hud]
  split
  · simp only [grow]
    split
    · next h => exact .inr ⟨h.1, rfl⟩
    · exact .inl rfl
  · exact .inl rfl

/-- The entry that `np_add` writes, or one that was there. -/
theorem add_ud (h : (s.add fd mask u).ud d = some u') : (d = fd ∧ u' = u) ∨ s.ud d = some u' := by
  unfold add at h
  simp only at h
  split at h
  · by_cases hd : d = fd
    · subst hd
      rw [store_ud_self] at h
      exact .inl ⟨rfl, (Option.some.inj h).symm⟩
    · rcases store_ud_of_ne hd with hud | ⟨-, hud⟩ <;> rw [hud] at h
      · exact .inr h
      · cases h
  · exact .inr h

/-- A registration makes no slot known but its own. -/
theorem known_add (h : (s.add fd mask u).known u') : s.known u' ∨ u' = u := by
  obtain ⟨d, hd⟩ := h
  rcases add_ud hd with ⟨-, h⟩ | h
  · exact .inr h
  · exact .inl ⟨d, h⟩

/-- One that is removed makes none known. -/
theorem known_remove (h : (s.remove fd).known u) : s.known u := by
  obtain ⟨d, hd⟩ := h
  by_cases hfd : d = fd
  · subst hfd
    cases (Function.update_self ..).symm.trans hd
  · exact ⟨d, (Function.update_of_ne hfd ..).symm.trans hd⟩

/-! ## What is registered -/

/-- The mask and the slot of a descriptor that is in one of the sets. -/
def reg (s : Select) (fd : ℤ) : Option (Mask × ℕ) :=
  if s.rfds fd || s.wfds fd then (s.ud fd).map fun ud => (⟨s.rfds fd, s.wfds fd⟩, ud) else none

/-- Every member of the sets has an entry in the array. -/
structure Tidy (s : Select) : Prop where
  cap : 0 < s.cap
  range : ∀ fd u, s.ud fd = some u → fd < s.cap
  member : ∀ fd, (s.rfds fd || s.wfds fd) = true → (s.ud fd).isSome

/-- The capacity is doubled until it is enough. -/
theorem le_double (n fuel cap : ℕ) : cap ≤ double n fuel cap := by
  induction fuel generalizing cap with
  | zero => exact le_rfl
  | succ fuel ih =>
    unfold double
    split
    · exact (Nat.le_mul_of_pos_right cap Nat.zero_lt_two).trans (ih _)
    · exact le_rfl

/-- The loop ends with enough capacity. -/
theorem double_ge {n fuel cap : ℕ} (h : n ≤ cap * 2 ^ fuel) : n ≤ double n fuel cap := by
  induction fuel generalizing cap with
  | zero => simpa [double] using h
  | succ fuel ih =>
    unfold double
    split
    · refine ih ?_
      rwa [Nat.pow_succ', ← Nat.mul_assoc] at h
    · omega

/-- A new poller is in order. -/
theorem Tidy.npInit (max : ℕ) : (npInit max).Tidy := by
  refine ⟨?_, nofun, nofun⟩
  exact Nat.lt_of_lt_of_le Nat.one_pos (le_double max max 1)

namespace Tidy

/-- A descriptor that is not registered is in neither set. -/
theorem not_member (h : s.Tidy) (hreg : s.reg fd = none) : s.rfds fd = false ∧ s.wfds fd = false := by
  by_cases hmem : (s.rfds fd || s.wfds fd) = true
  · obtain ⟨u, hu⟩ := Option.isSome_iff_exists.mp (h.member fd hmem)
    rw [reg, if_pos hmem, hu] at hreg
    cases hreg
  · simpa using hmem

end Tidy

/-- `_grow` clears nothing that is in use. -/
theorem store_ud (h : ∀ fd u, s.ud fd = some u → fd < s.cap) :
    (s.store fd u).ud = Function.update s.ud fd (some u) := by
  funext d
  by_cases hd : d = fd
  · subst hd
    rw [store_ud_self, Function.update_self]
  · rw [Function.update_of_ne hd]
    rcases store_ud_of_ne hd with hud | ⟨hcap, hud⟩ <;> rw [hud]
    rcases hs : s.ud d with _ | u'
    · rfl
    · exact absurd (h d u' hs) (by omega)

/-- The array grows as far as the descriptor needs. -/
theorem store_cap (hcap : 0 < s.cap) : s.cap ≤ (s.store fd u).cap ∧ fd < (s.store fd u).cap := by
  unfold store
  simp only
  split
  · refine ⟨le_double .., ?_⟩
    have hle : fd.toNat + 1 ≤ double (fd.toNat + 1) (fd.toNat + 1) s.cap := by
      refine double_ge (Nat.lt_two_pow_self.le.trans ?_)
      exact Nat.le_mul_of_pos_left _ hcap
    simp only [grow]
    omega
  · exact ⟨le_rfl, by omega⟩

/-- A descriptor that is added is watched for reading if the mask says so, or if it was before. -/
theorem add_rfds : (s.add fd mask u).rfds = Function.update s.rfds fd (s.rfds fd || mask.rable) := by
  have : (s.add fd mask u).rfds =
      if mask.rable then Function.update s.rfds fd true else s.rfds := by
    simp only [add]
    split <;> simp
  rw [this]
  rcases mask.rable with _ | _ <;> simp

/-- The same for writing. -/
theorem add_wfds : (s.add fd mask u).wfds = Function.update s.wfds fd (s.wfds fd || mask.wable) := by
  have : (s.add fd mask u).wfds =
      if mask.wable then Function.update s.wfds fd true else s.wfds := by
    simp only [add]
    split <;> simp
  rw [this]
  rcases mask.wable with _ | _ <;> simp

theorem set_of_ne_none (hm : mask ≠ .none) : (mask.rable || mask.wable) = true := by
  rcases mask with ⟨_ | _, _ | _⟩ <;> first | rfl | exact absurd rfl hm

/-- A call of `np_add` that sets a bit ends in `store`. -/
theorem add_eq_store (hm : mask ≠ .none) : ∃ s' : Select, s.add fd mask u = s'.store fd u ∧
    s'.cap = s.cap ∧ s'.ud = s.ud ∧ s'.maxfd = s.maxfd := by
  refine ⟨{ s with
    rfds := if mask.rable then Function.update s.rfds fd true else s.rfds
    wfds := if mask.wable then Function.update s.wfds fd true else s.wfds }, ?_, rfl, rfl, rfl⟩
  simp only [Select.add, set_of_ne_none hm, if_true]

/-- What is added is found in the array, and nothing else has changed there. -/
theorem add_ud_eq (hm : mask ≠ .none) (h : ∀ fd u, s.ud fd = some u → fd < s.cap) :
    (s.add fd mask u).ud = Function.update s.ud fd (some u) := by
  obtain ⟨s', heq, hcap, hud, -⟩ := add_eq_store (s := s) (u := u) hm
  rw [heq, ← hud]
  apply store_ud
  rwa [hcap, hud]

/-- The array has room for the descriptor that is added. -/
theorem add_cap (hm : mask ≠ .none) (hcap : 0 < s.cap) :
    s.cap ≤ (s.add fd mask u).cap ∧ fd < (s.add fd mask u).cap := by
  obtain ⟨s', heq, hcap', -⟩ := add_eq_store (s := s) (u := u) hm
  rw [heq, ← hcap']
  apply store_cap
  rwa [hcap']

namespace Tidy

/-- `np_add` of a descriptor that is not registered. -/
theorem add (h : s.Tidy) (hreg : s.reg fd = none) (hm : mask ≠ .none) :
    (s.add fd mask u).Tidy ∧ (s.add fd mask u).reg = Function.update s.reg fd (some (mask, u)) := by
  have hset := set_of_ne_none hm
  have hud : (s.add fd mask u).ud = Function.update s.ud fd (some u) := add_ud_eq hm h.range
  obtain ⟨hle, hlt⟩ : s.cap ≤ (s.add fd mask u).cap ∧ fd < (s.add fd mask u).cap := add_cap hm h.cap
  refine ⟨⟨h.cap.trans_le hle, fun d u' hd => ?_, fun d hd => ?_⟩, funext fun d => ?_⟩
  · by_cases hdf : d = fd
    · exact hdf ▸ hlt
    · rw [hud, Function.update_of_ne hdf] at hd
      exact (h.range d u' hd).trans_le (by exact_mod_cast hle)
  · rw [hud]
    by_cases hdf : d = fd
    · rw [hdf, Function.update_self]
      rfl
    · rw [add_rfds, add_wfds, Function.update_of_ne hdf, Function.update_of_ne hdf] at hd
      rw [Function.update_of_ne hdf]
      exact h.member d hd
  · simp only [reg, hud, add_rfds, add_wfds]
    by_cases hdf : d = fd
    · subst hdf
      obtain ⟨hr, hw⟩ := h.not_member hreg
      simp only [Function.update_self, hr, hw, Bool.false_or, hset, if_true, Option.map_some]
    · simp only [Function.update_of_ne hdf, reg]

/-- `np_mod` of a descriptor that is registered. -/
theorem modify {old : Mask} (h : s.Tidy) (hreg : s.reg fd = some (old, u)) (hm : mask ≠ .none) :
    (s.modify fd mask).Tidy ∧ (s.modify fd mask).reg = Function.update s.reg fd (some (mask, u)) := by
  have hud : s.ud fd = some u := by
    unfold reg at hreg
    split at hreg
    · obtain ⟨u', hu', heq⟩ := Option.map_eq_some_iff.mp hreg
      exact (Prod.mk.inj heq).2 ▸ hu'
    · cases hreg
  have hset := set_of_ne_none hm
  refine ⟨⟨h.cap, h.range, fun d hd => ?_⟩, funext fun d => ?_⟩
  · by_cases hdf : d = fd
    · subst hdf
      exact Option.isSome_iff_exists.mpr ⟨u, hud⟩
    · simp only [Select.modify, Function.update_of_ne hdf] at hd
      exact h.member d hd
  · by_cases hdf : d = fd
    · subst hdf
      simp only [reg, Select.modify, Function.update_self, hset, if_true, hud, Option.map_some]
    · simp only [reg, Select.modify, Function.update_of_ne hdf]

/-- `np_del`. -/
theorem remove (h : s.Tidy) :
    (s.remove fd).Tidy ∧ (s.remove fd).reg = Function.update s.reg fd none := by
  refine ⟨⟨h.cap, fun d u hd => ?_, fun d hd => ?_⟩, funext fun d => ?_⟩
  · by_cases hdf : d = fd
    · subst hdf
      simp [Select.remove] at hd
    · simp only [Select.remove, Function.update_of_ne hdf] at hd
      exact h.range d u hd
  · by_cases hdf : d = fd
    · subst hdf
      simp [Select.remove] at hd
    · simp only [Select.remove, Function.update_of_ne hdf] at hd ⊢
      exact h.member d hd
  · by_cases hdf : d = fd
    · subst hdf
      simp [reg, Select.remove]
    · simp only [reg, Select.remove, Function.update_of_ne hdf]

end Tidy

section Rules

variable {t : Select × Os}

/-- A call for a descriptor that is valid, or one that fails. -/
theorem wp_change {f : Select → Select} {Q : ℤ → Select × Os → Prop} {E : Fault → Select × Os → Prop}
    (hfail : Q (-1) t) (hdone : Valid fd → Q 0 (f t.1, t.2)) : Prog.wp (change fd f) Q E t := by
  unfold change
  split
  · exact hdone ‹_›
  · exact hfail

/-- `np_del` succeeds only for a valid descriptor. -/
theorem wp_npDel {Q : ℤ → Select × Os → Prop} (hfail : Q (-1) t)
    (hdone : Valid fd → Q 0 (t.1.remove fd, t.2)) :
    Prog.wp (npDel fd) Q (fun e _ => e.OfPoller) t := by
  unfold npDel
  split
  · simp only [Prog.wp_bind, Prog.wp_read]
    by_cases hcap : fd < t.1.cap
    · exact (Prog.wp_check hcap).mpr (hdone ‹_›)
    · simp only [Prog.check, if_neg hcap]
      exact .inr rfl
  · exact hfail

/-- An event is about the slot of its descriptor. -/
theorem event_ud {ready : List Ready} {e : NpEvent} (h : s.event ready fd = some e) :
    s.ud fd = some e.ud := by
  unfold event at h
  simp only at h
  split at h
  · obtain ⟨u, hu, rfl⟩ := Option.map_eq_some_iff.mp h
    exact hu
  · cases h

/-- `np_poll` changes nothing, and reports slots of the array. -/
theorem wp_npPoll (max : ℕ) (timeout : ℤ) :
    Prog.wp (npPoll max timeout) (fun evs t' => t'.1 = t.1 ∧ ∀ e ∈ evs, known t.1 e.ud)
      (fun e _ => e.OfPoller) t := by
  simp only [npPoll, Prog.wp_bind, Prog.wp_read]
  split
  · exact ⟨rfl, by simp⟩
  · simp only [Prog.wp_bind]
    refine (Prog.wp_zoom ..).mpr (wp_sys (fun r o _ => ⟨rfl, fun e he => ?_⟩) (.inl rfl))
    split at he
    · obtain ⟨n, -, hn⟩ := List.mem_filterMap.mp he
      exact ⟨n, event_ud hn⟩
    · cases he

end Rules

theorem decided_change {fd : ℤ} {f : Select → Select} : Decided (change fd f) :=
  .ite (Prog.Matches.bind (Q := fun _ _ s t => s.2.Alike t.2) (.write fun _ _ h => h)
    fun _ _ => .pure fun _ _ h => ⟨rfl, h⟩) (.pure _)

theorem decided_npDel {fd : ℤ} : Decided (npDel fd) := by
  refine .ite (Prog.Matches.bind (Q := fun _ _ s t => s.2.Alike t.2) (.read fun _ _ h => h) ?_) (.pure _)
  exact fun s₀ t₀ => .bind (Q := fun _ _ s t => s.2.Alike t.2) (.check fun _ _ _ _ h => h)
    fun _ _ => .bind (Q := fun _ _ s t => s.2.Alike t.2) (.write fun _ _ h => h)
      fun _ _ => .pure fun _ _ h => ⟨rfl, h⟩

end Select

/-- The poller on select. -/
def select : Backend Select where
  npInit := Select.npInit
  npAdd := Select.npAdd
  npMod := Select.npMod
  npDel := Select.npDel
  npPoll := Select.npPoll
  closed _ s := s
  known := Select.known
  known_init := by
    rintro max u ⟨fd, h⟩
    cases h
  known_add fd mask ud s :=
    Select.wp_change (fun _ h => .inl h) fun _ _ h => Select.known_add h
  known_mod fd mask ud s := Select.wp_change (fun _ h => .inl h) fun _ _ h => .inl h
  known_del fd s := Select.wp_npDel (fun _ h => h) fun _ _ h => Select.known_remove h
  known_poll max timeout s :=
    Prog.wp_mono (Select.wp_npPoll max timeout) fun _ _ h => ⟨fun _ hu => h.1 ▸ hu, h.2⟩
  known_closed _ _ _ h := h
  decided_add _ _ _ := Select.decided_change
  decided_mod _ _ _ := Select.decided_change
  decided_del _ := Select.decided_npDel

end Lsocket
