import Lsocket.Lib.System
import Lsocket.Net.Select
import Mathlib.Data.List.Forall2
import Mathlib.Order.Bounds.Basic

/-!
# The table of the poller on select

What is registered is a partial function from descriptors to masks and slots. The two sets, the array and
`maxfd` of the poller represent it after any calls of `np_add`, `np_mod` and `np_del` that go with it, and
`np_poll` reports what is ready of it (`reach_represents`).
-/

namespace Lsocket.Select

/-! ## What is registered -/

/-- The mask and the slot of each descriptor that is registered. -/
abbrev Table := ℤ → Option (Mask × ℕ)

/-- The mask of a descriptor: that of a descriptor that is not registered is 0. -/
def Table.mask (t : Table) (fd : ℤ) : Mask := ((t fd).map Prod.fst).getD .none

/-- A call that changes what is registered. -/
inductive Call
  | add (fd : ℤ) (mask : Mask) (ud : ℕ)
  | mod (fd : ℤ) (mask : Mask) (ud : ℕ)
  | del (fd : ℤ)

namespace Call

/-- The descriptor that a call is about. -/
def fd : Call → ℤ
  | add fd _ _ => fd
  | mod fd _ _ => fd
  | del fd => fd

/-- The function that is called. -/
def prog : Call → Prog Fault (Select × Os) ℤ
  | add fd mask ud => npAdd fd mask ud
  | mod fd mask ud => npMod fd mask ud
  | del fd => npDel fd

/-- What a call makes of an entry. A slot stays registered as it was added. -/
def entry (old : Option (Mask × ℕ)) : Call → Option (Mask × ℕ)
  | add _ mask ud => some (mask, ud)
  | mod _ mask _ => old.map fun x => (mask, x.2)
  | del _ => none

/-- A descriptor is added, for something, when it is not registered; other calls need one that is. -/
def Allowed (old : Option (Mask × ℕ)) : Call → Prop
  | add _ mask _ => mask ≠ .none ∧ old = none
  | mod _ _ _ => old.isSome
  | del _ => old.isSome

/-- The call goes with what is registered, or is about a descriptor that is not valid. -/
def Fits (t : Table) (call : Call) : Prop := Valid call.fd → call.Allowed (t call.fd)

/-- What is registered after a call. -/
def next (t : Table) (call : Call) : Table :=
  if Valid call.fd then Function.update t call.fd (call.entry (t call.fd)) else t

end Call

/-- The calls after `np_init`, with what is registered when they are made. -/
def calls (max : ℕ) : System ((Select × Os) × Table) Call where
  init x := x.1.1 = npInit max ∧ x.2 = fun _ => none
  step x call x' := call.Fits x.2 ∧ x'.1 = (call.prog x.1).2 ∧ x'.2 = call.next x.2

/-- The poller holds what is registered. Its capacity is one that doubling 1 in an `int` can reach. -/
structure Represents (s : Select) (t : Table) : Prop where
  valid : ∀ fd, (t fd).isSome → Valid fd
  ud : ∀ fd, s.ud fd = (t fd).map Prod.snd
  rfds : ∀ fd, s.rfds fd = (t.mask fd).rable
  wfds : ∀ fd, s.wfds fd = (t.mask fd).wable
  maxfd : IsGreatest {fd | (t fd).isSome} s.maxfd ∨ s.maxfd = -1 ∧ ∀ fd, t fd = none
  maxfd_lt : s.maxfd < s.cap
  cap : ∃ k ≤ 30, s.cap = 2 ^ k

variable {s : Select} {t : Table} {fd d : ℤ} {mask : Mask} {u : ℕ} {call : Call} {r : Reply}
variable {x : (Select × Os) × Table}

/-! ## Capacity -/

/-- The loops that double the capacity do not leave the range of `int`. -/
theorem double_pow {n k fuel : ℕ} (hn : n ≤ 2 ^ 30) (hk : k ≤ 30) :
    ∃ k' ≤ 30, double n fuel (2 ^ k) = 2 ^ k' := by
  induction fuel generalizing k with
  | zero => exact ⟨k, hk, rfl⟩
  | succ fuel ih =>
    unfold double
    split
    · next hlt =>
      have hk' : k < 30 := (Nat.pow_lt_pow_iff_right (by decide)).mp (hlt.trans_le hn)
      rw [← Nat.pow_succ]
      exact ih hk'
    · exact ⟨k, hk, rfl⟩

/-- The capacity stays a power of two that an `int` holds. -/
theorem store_cap_pow (hfd : Valid fd) (hcap : ∃ k ≤ 30, s.cap = 2 ^ k) :
    ∃ k ≤ 30, (s.store fd u).cap = 2 ^ k := by
  unfold store
  simp only
  split
  · obtain ⟨k, hk, hcap⟩ := hcap
    obtain ⟨hpos, hlt⟩ := hfd
    unfold FD_SETSIZE at hlt
    simp only [grow, hcap]
    exact double_pow (by omega) hk
  · exact hcap

/-! ## The greatest descriptor -/

/-- The scan of `np_del` stops at the greatest entry below its start. -/
theorem highest_spec (ud : ℤ → Option ℕ) (n : ℕ) :
    (∀ k : ℤ, 0 ≤ k → k < n → (ud k).isSome → k ≤ highest ud n) ∧
      (highest ud n = -1 ∨ 0 ≤ highest ud n ∧ highest ud n < n ∧ (ud (highest ud n)).isSome) := by
  induction n with
  | zero => exact ⟨fun k hpos hlt => by omega, .inl rfl⟩
  | succ n ih =>
    obtain ⟨hle, hin⟩ := ih
    unfold highest
    split
    · next hn => exact ⟨fun k _ hlt _ => by omega, .inr ⟨by omega, by omega, hn⟩⟩
    · next hn =>
      refine ⟨fun k hpos hlt hk => ?_, hin.imp_right fun ⟨hpos, hlt, hsome⟩ => ⟨hpos, by omega, hsome⟩⟩
      rcases eq_or_ne k n with rfl | hne
      · exact absurd hk hn
      · exact hle k hpos (by omega) hk

namespace Represents

/-- A descriptor that is registered is not above `maxfd`. -/
theorem le_maxfd (h : Represents s t) (hfd : (t fd).isSome) : 0 ≤ fd ∧ fd ≤ s.maxfd := by
  rcases h.maxfd with ⟨-, hub⟩ | ⟨-, hnone⟩
  · exact ⟨(h.valid fd hfd).1, hub hfd⟩
  · rw [hnone fd] at hfd
    cases hfd

/-- The array has an entry just for what is registered. -/
theorem isSome_ud (h : Represents s t) (fd : ℤ) : (s.ud fd).isSome = (t fd).isSome := by
  rw [h.ud, Option.isSome_map]

/-- It is within the array. -/
theorem lt_cap (h : Represents s t) (hfd : (t fd).isSome) : fd < s.cap :=
  (h.le_maxfd hfd).2.trans_lt h.maxfd_lt

/-- The highest descriptor is registered, if there is one. -/
theorem maxfd_eq_or (h : Represents s t) : s.maxfd = -1 ∨ (t s.maxfd).isSome := by
  rcases h.maxfd with ⟨hmem, -⟩ | ⟨hmax, -⟩
  · exact .inr hmem
  · exact .inl hmax

/-! ## The calls -/

/-- One entry is changed, and `maxfd` goes with it. -/
theorem update {s' : Select} {e : Option (Mask × ℕ)} (h : Represents s t) (hfd : Valid fd)
    (hud : s'.ud = Function.update s.ud fd (e.map Prod.snd))
    (hr : s'.rfds = Function.update s.rfds fd ((e.map Prod.fst).getD .none).rable)
    (hw : s'.wfds = Function.update s.wfds fd ((e.map Prod.fst).getD .none).wable)
    (hle : ∀ d, (Function.update t fd e d).isSome → d ≤ s'.maxfd)
    (hin : s'.maxfd = -1 ∨ (Function.update t fd e s'.maxfd).isSome)
    (hlt : s'.maxfd < s'.cap) (hcap : ∃ k ≤ 30, s'.cap = 2 ^ k) :
    Represents s' (Function.update t fd e) := by
  have hvalid : ∀ d, (Function.update t fd e d).isSome → Valid d := by
    intro d hd
    rcases eq_or_ne d fd with rfl | hne
    · exact hfd
    · rw [Function.update_of_ne hne] at hd
      exact h.valid d hd
  refine ⟨hvalid, fun d => ?_, fun d => ?_, fun d => ?_, ?_, hlt, hcap⟩
  · rw [hud]
    rcases eq_or_ne d fd with rfl | hne
    · rw [Function.update_self, Function.update_self]
    · rw [Function.update_of_ne hne, Function.update_of_ne hne, h.ud]
  · rw [hr, Table.mask]
    rcases eq_or_ne d fd with rfl | hne
    · rw [Function.update_self, Function.update_self]
    · rw [Function.update_of_ne hne, Function.update_of_ne hne, h.rfds, Table.mask]
  · rw [hw, Table.mask]
    rcases eq_or_ne d fd with rfl | hne
    · rw [Function.update_self, Function.update_self]
    · rw [Function.update_of_ne hne, Function.update_of_ne hne, h.wfds, Table.mask]
  -- `maxfd` is registered, or nothing is
  · rcases hin with hnone | hsome
    · refine .inr ⟨hnone, fun d => ?_⟩
      by_contra hd
      have hd' := Option.isSome_iff_ne_none.mpr hd
      have hpos := (hvalid d hd').1
      have := hle d hd'
      omega
    · exact .inl ⟨hsome, fun d hd => hle d hd⟩

/-- A set has no bit for what is not registered. -/
theorem not_member (h : Represents s t) (hfd : t fd = none) : s.rfds fd = false ∧ s.wfds fd = false := by
  rw [h.rfds, h.wfds, Table.mask, hfd]
  exact ⟨rfl, rfl⟩

/-- `np_add` of a descriptor that is not registered. -/
theorem add (h : Represents s t) (hfd : Valid fd) (hm : mask ≠ .none) (hnone : t fd = none) :
    Represents (s.add fd mask u) (Function.update t fd (some (mask, u))) := by
  obtain ⟨hr, hw⟩ := h.not_member hnone
  have hrange : ∀ d v, s.ud d = some v → d < s.cap := by
    intro d v hd
    refine h.lt_cap ?_
    rw [← h.isSome_ud, hd]
    rfl
  have hpos : 0 < s.cap := by
    obtain ⟨k, -, hk⟩ := h.cap
    rw [hk]
    exact Nat.two_pow_pos k
  obtain ⟨hcap, hlt⟩ : s.cap ≤ (s.add fd mask u).cap ∧ fd < (s.add fd mask u).cap := add_cap hm hpos
  -- `add` grows the array before it stores the descriptor, and raises `maxfd` to it
  have hmaxfd : (s.add fd mask u).maxfd = if s.maxfd < fd then fd else s.maxfd := by
    obtain ⟨s', heq, -, -, hs'⟩ := add_eq_store (s := s) (u := u) hm
    rw [heq, ← hs', store]
    split <;> rfl
  refine h.update hfd (add_ud_eq hm hrange) ?_ ?_ (fun d hd => ?_) ?_ ?_ ?_
  · rw [add_rfds, hr]
    rfl
  · rw [add_wfds, hw]
    rfl
  · rw [hmaxfd]
    rcases eq_or_ne d fd with rfl | hne
    · split <;> omega
    · rw [Function.update_of_ne hne] at hd
      have := (h.le_maxfd hd).2
      split <;> omega
  · rw [hmaxfd]
    split
    · rw [Function.update_self]
      exact .inr rfl
    · next hge =>
      refine h.maxfd_eq_or.imp_right fun hsome => ?_
      rwa [Function.update_of_ne]
      rintro heq
      rw [heq, hnone] at hsome
      cases hsome
  · rw [hmaxfd]
    have := h.maxfd_lt
    split <;> omega
  · obtain ⟨s', heq, hs', -⟩ := add_eq_store (s := s) (u := u) hm
    rw [heq]
    exact store_cap_pow hfd (hs' ▸ h.cap)

/-- `np_mod` of one that is. -/
theorem modify (h : Represents s t) (hsome : (t fd).isSome) :
    Represents (s.modify fd mask) (Function.update t fd ((t fd).map fun x => (mask, x.2))) := by
  obtain ⟨old, hold⟩ := Option.isSome_iff_exists.mp hsome
  have hdom (d : ℤ) : (Function.update t fd ((t fd).map fun x => (mask, x.2)) d).isSome = (t d).isSome := by
    rcases eq_or_ne d fd with rfl | hne
    · rw [Function.update_self, Option.isSome_map]
    · rw [Function.update_of_ne hne]
  refine h.update (h.valid fd hsome) ?_ ?_ ?_ (fun d hd => ?_) ?_ h.maxfd_lt h.cap
  · rw [Option.map_map]
    exact (Function.update_eq_self_iff.mpr (h.ud fd).symm).symm
  · rw [hold]
    rfl
  · rw [hold]
    rfl
  · rw [hdom] at hd
    exact (h.le_maxfd hd).2
  · rw [hdom]
    exact h.maxfd_eq_or

/-- `np_del` looks for the next lower descriptor if it takes the highest off. -/
theorem remove (h : Represents s t) (hsome : (t fd).isSome) :
    Represents (s.remove fd) (Function.update t fd none) := by
  have hfd := h.valid fd hsome
  have hdom (d : ℤ) : (Function.update s.ud fd none d).isSome = (Function.update t fd none d).isSome := by
    rcases eq_or_ne d fd with rfl | hne
    · rw [Function.update_self, Function.update_self]
      rfl
    · rw [Function.update_of_ne hne, Function.update_of_ne hne, h.isSome_ud]
  -- the loop of `remove` stops at the highest descriptor that is left
  obtain ⟨hle, hin⟩ := highest_spec (Function.update s.ud fd none) s.maxfd.toNat
  have hmaxfd : (s.remove fd).maxfd =
      if fd = s.maxfd then highest (Function.update s.ud fd none) s.maxfd.toNat else s.maxfd := rfl
  have hpos : 0 ≤ s.maxfd := (h.le_maxfd hsome).1.trans (h.le_maxfd hsome).2
  have hlt := h.maxfd_lt
  refine h.update hfd rfl rfl rfl (fun d hd => ?_) ?_ ?_ h.cap
  · have hne : d ≠ fd := by
      rintro rfl
      rw [Function.update_self] at hd
      cases hd
    have hd' := hd
    rw [Function.update_of_ne hne] at hd'
    obtain ⟨hd0, hdle⟩ := h.le_maxfd hd'
    rw [hmaxfd]
    split
    · exact hle d hd0 (by omega) ((hdom d).trans hd)
    · exact hdle
  · rw [hmaxfd]
    split
    · refine hin.imp_right fun hin => ?_
      rw [← hdom]
      exact hin.2.2
    · next hne =>
      refine h.maxfd_eq_or.imp_right fun hmem => ?_
      rwa [Function.update_of_ne (Ne.symm hne)]
  · have hcap : (s.remove fd).cap = s.cap := rfl
    rw [hmaxfd, hcap]
    split <;> omega

end Represents

/-- A new poller holds nothing. -/
theorem represents_npInit {max : ℕ} (hmax : max ≤ 2 ^ 30) : Represents (npInit max) fun _ => none := by
  obtain ⟨k, hk, hcap⟩ : ∃ k ≤ 30, double max max (2 ^ 0) = 2 ^ k := double_pow hmax (Nat.zero_le _)
  refine ⟨nofun, fun _ => rfl, fun _ => rfl, fun _ => rfl, .inr ⟨rfl, fun _ => rfl⟩, ?_, k, hk, hcap⟩
  have hmaxfd : (npInit max).maxfd = -1 := rfl
  omega

theorem change_of_valid {f : Select → Select} (h : Valid fd) (x : Select × Os) :
    change fd f x = (.ok 0, (f x.1, x.2)) := by
  rw [change, if_pos h]
  rfl

/-- `np_del` of a descriptor within the array. -/
theorem npDel_of_valid {o : Os} (h : Valid fd) (hcap : fd < s.cap) :
    npDel fd (s, o) = (.ok 0, (s.remove fd, o)) := by
  rw [npDel, if_pos h, Prog.bind_apply, Prog.read_apply]
  simp only [Prog.bind_apply, Prog.check_apply hcap, Prog.write_apply, Prog.pure_apply]

/-- A call on a descriptor that is not valid fails, and changes nothing. -/
theorem prog_of_not_valid (h : ¬ Valid call.fd) (x : Select × Os) : call.prog x = (.ok (-1), x) := by
  cases call with
  | add fd mask ud =>
    rw [Call.prog, npAdd, change, if_neg (by exact h)]
    rfl
  | mod fd mask ud =>
    rw [Call.prog, npMod, change, if_neg (by exact h)]
    rfl
  | del fd =>
    rw [Call.prog, npDel, if_neg (by exact h)]
    rfl

/-- A call that goes with what is registered returns, without a failed assertion, and registers its entry. -/
theorem Represents.prog {o : Os} (h : Represents s t) (hfits : call.Fits t) :
    ∃ s', call.prog (s, o) = (.ok (if Valid call.fd then 0 else -1), (s', o)) ∧
      Represents s' (call.next t) := by
  by_cases hfd : Valid call.fd
  swap
  · rw [if_neg hfd, Call.next, if_neg hfd]
    exact ⟨s, prog_of_not_valid hfd _, h⟩
  have hallowed := hfits hfd
  rw [if_pos hfd, Call.next, if_pos hfd]
  cases call with
  | add fd mask ud =>
    refine ⟨s.add fd mask ud, ?_, h.add hfd hallowed.1 hallowed.2⟩
    exact change_of_valid (f := fun s => s.add fd mask ud) hfd (s, o)
  | mod fd mask ud =>
    refine ⟨s.modify fd mask, ?_, h.modify hallowed⟩
    exact change_of_valid (f := fun s => s.modify fd mask) hfd (s, o)
  | del fd => exact ⟨s.remove fd, npDel_of_valid hfd (h.lt_cap hallowed), h.remove hallowed⟩

/-- The calls keep the poller to what is registered. -/
theorem reach_calls {max : ℕ} (hmax : max ≤ 2 ^ 30) (h : (calls max).Reach x) :
    Represents x.1.1 x.2 := by
  refine h.invariant (I := fun x => Represents x.1.1 x.2) ?_ ?_
  · rintro ⟨⟨s, o⟩, t⟩ ⟨rfl, rfl⟩
    exact represents_npInit hmax
  · rintro ⟨⟨s, o⟩, t⟩ call ⟨⟨s', o'⟩, t'⟩ - hrep ⟨hfits, hrun, rfl⟩
    obtain ⟨s'', hok, hrep'⟩ := hrep.prog (o := o) hfits
    rw [hok] at hrun
    obtain ⟨rfl, -⟩ := Prod.mk.inj hrun
    exact hrep'

/-! ## Polling -/

/-- The descriptors that `select` finds ready. A call that fails finds none. -/
def Finds (r : Reply) (fd : ℤ) : Prop :=
  ¬ r.Failed ∧ (isSet r.ready Ready.read fd || isSet r.ready Ready.write fd) = true

/-- The event of a descriptor that is registered. -/
def EventOf (t : Table) (r : Reply) (fd : ℤ) (e : NpEvent) : Prop :=
  (t fd).map Prod.snd = some e.ud ∧ e.read = isSet r.ready Ready.read fd ∧
    e.write = isSet r.ready Ready.write fd

/-- Every descriptor that is registered and ready is reported once, and nothing else is. -/
def Reports (t : Table) (r : Reply) (evs : List NpEvent) : Prop :=
  ∃ fds : List ℤ, fds.Nodup ∧ (∀ fd, fd ∈ fds ↔ (t fd).isSome ∧ Finds r fd) ∧
    List.Forall₂ (EventOf t r) fds evs

/-- Nothing is found, and nothing is reported. -/
theorem reports_nil (h : ∀ fd, (t fd).isSome → ¬ Finds r fd) : Reports t r [] :=
  ⟨[], .nil, fun fd => iff_of_false List.not_mem_nil fun hand => h fd hand.1 hand.2, .nil⟩

/-- What `filterMap` keeps, and what of it it makes. -/
theorem forall₂_filterMap {α β : Type} (f : α → Option β) (l : List α) :
    List.Forall₂ (fun a b => f a = some b) (l.filter fun a => (f a).isSome) (l.filterMap f) := by
  induction l with
  | nil => exact .nil
  | cons a l ih =>
    rcases hfa : f a with _ | b
    · rwa [List.filter_cons_of_neg (by simp [hfa]), List.filterMap_cons_none hfa]
    · rw [List.filter_cons_of_pos (by simp [hfa]), List.filterMap_cons_some hfa]
      exact .cons hfa ih

/-- The loop of `np_poll`. -/
theorem Represents.reports_events (h : Represents s t) (hr : ¬ r.Failed) :
    Reports t r ((List.range (s.maxfd + 1).toNat).filterMap fun n : ℕ => s.event r.ready n) := by
  have hevent (fd : ℤ) : (s.event r.ready fd).isSome ↔ (t fd).isSome ∧ Finds r fd := by
    rw [Select.event, ← h.isSome_ud]
    unfold Finds
    split
    · next hset => simp [hr, hset]
    · next hset => simp [hset]
  -- the descriptors the loop reports, each once and in increasing order
  refine ⟨((List.range (s.maxfd + 1).toNat).filter fun n : ℕ => (s.event r.ready n).isSome).map
    (fun n : ℕ => (n : ℤ)), ?_, fun fd => ?_, ?_⟩
  · exact (List.nodup_range.filter _).map fun _ _ => Int.ofNat_inj.mp
  · rw [List.mem_map]
    constructor
    · rintro ⟨n, hn, rfl⟩
      exact (hevent n).mp (List.mem_filter.mp hn).2
    · intro hfd
      obtain ⟨hpos, hle⟩ := h.le_maxfd hfd.1
      refine ⟨fd.toNat, List.mem_filter.mpr ⟨List.mem_range.mpr (by omega), ?_⟩, by omega⟩
      rw [Int.toNat_of_nonneg hpos]
      exact (hevent fd).mpr hfd
  · rw [List.forall₂_map_left_iff]
    refine (forall₂_filterMap _ _).imp fun n e hn => ?_
    unfold Select.event at hn
    simp only at hn
    split at hn
    · obtain ⟨u, hu, rfl⟩ := Option.map_eq_some_iff.mp hn
      exact ⟨(h.ud n).symm.trans hu, rfl, rfl⟩
    · cases hn

/-- An answer of `select` without a ready descriptor. -/
theorem not_finds (h : Represents s t) (hr : Selects s r) (hret : r.ret ≤ 0) (hfd : (t fd).isSome) :
    ¬ Finds r fd := by
  rintro ⟨hok, hset⟩
  obtain ⟨-, hcount⟩ := hr.resolve_left hok
  obtain ⟨hpos, hle⟩ := h.le_maxfd hfd
  have hzero (get : Ready → Bool)
      (hget : (List.range (s.maxfd + 1).toNat).countP (fun n => isSet r.ready get n) = 0) :
      isSet r.ready get fd = false := by
    refine Bool.eq_false_iff.mpr (List.countP_eq_zero.mp hget fd ?_)
    exact List.mem_flatMap.mpr ⟨fd.toNat, List.mem_range.mpr (by omega), by simp [hpos]⟩
  rw [hzero Ready.read (by omega), hzero Ready.write (by omega)] at hset
  cases hset

/-- `np_poll` reports what is registered and ready, whatever `select` answers. -/
theorem Represents.npPoll {rs : List Reply} {errno : ℤ} (h : Represents s t) (hr : Selects s r)
    (max : ℕ) (timeout : ℤ) : ∃ evs o, npPoll max timeout (s, ⟨r :: rs, errno⟩) = (.ok evs, (s, o)) ∧
      Reports t r evs := by
  by_cases hmax : s.maxfd = -1
  · refine ⟨[], ⟨r :: rs, errno⟩, ?_, reports_nil fun fd hfd => ?_⟩
    · simp [Select.npPoll, hmax]
    · have := h.le_maxfd hfd
      omega
  · have hrun : Select.npPoll max timeout (s, ⟨r :: rs, errno⟩) =
        (.ok (if 0 < r.ret then
            (List.range (s.maxfd + 1).toNat).filterMap fun n : ℕ => s.event r.ready n else []),
          (s, ⟨rs, if r.ret = -1 then r.errno else errno⟩)) := by
      simp [Select.npPoll, hmax, Prog.zoom, sys, hr]
    refine ⟨_, _, hrun, ?_⟩
    split
    · next hpos => exact h.reports_events fun hfail => by rw [hfail.1] at hpos; cases hpos
    · next hret => exact reports_nil fun fd hfd => not_finds h hr (not_lt.mp hret) hfd

/-- What holds after any calls that go with what is registered. -/
theorem reach_represents {max : ℕ} (hmax : max ≤ 2 ^ 30) (h : (calls max).Reach x) :
    Represents x.1.1 x.2 ∧
    (∀ call : Call, ¬ Valid call.fd → call.prog x.1 = (.ok (-1), x.1)) ∧
    (∀ call : Call, call.Fits x.2 → ∃ s', Represents s' (call.next x.2) ∧
      call.prog x.1 = (.ok (if Valid call.fd then 0 else -1), (s', x.1.2))) ∧
    ∀ r, Selects x.1.1 r → ∀ n timeout rs errno, ∃ evs o, Reports x.2 r evs ∧
      npPoll n timeout (x.1.1, ⟨r :: rs, errno⟩) = (.ok evs, (x.1.1, o)) := by
  have hrep := reach_calls hmax h
  refine ⟨hrep, fun call hfd => prog_of_not_valid hfd _, fun call hfits => ?_,
    fun r hr n timeout rs errno => ?_⟩
  · obtain ⟨s', hrun, hrep'⟩ := hrep.prog (o := x.1.2) hfits
    exact ⟨s', hrep', hrun⟩
  · obtain ⟨evs, o, hrun, hevs⟩ := hrep.npPoll hr n timeout
    exact ⟨evs, o, hevs, hrun⟩

/-- One more call. -/
def Call.after (x : (Select × Os) × Table) (call : Call) : (Select × Os) × Table :=
  ((call.prog x.1).2, call.next x.2)

theorem reach_after {max : ℕ} (call : Call) (h : (calls max).Reach x) (hfits : call.Fits x.2) :
    (calls max).Reach (Call.after x call) :=
  h.step (l := call) ⟨hfits, rfl, rfl⟩

/-- Two descriptors are added, the second one beyond the capacity, and the second one is deleted. -/
def scanned : (Select × Os) × Table :=
  [Call.add 5 ⟨true, false⟩ 0, .add 9 ⟨true, true⟩ 1, .del 9].foldl Call.after
    ((npInit 2, ⟨[], 0⟩), fun _ => none)

/-- The poller of the example is reached. -/
theorem reach_scanned : (calls 2).Reach scanned := by
  apply reach_after (.del 9)
  · apply reach_after (.add 9 ⟨true, true⟩ 1)
    · apply reach_after (.add 5 ⟨true, false⟩ 0)
      · exact .init ⟨rfl, rfl⟩
      · exact fun _ => ⟨by decide, rfl⟩
    · exact fun _ => ⟨by decide, rfl⟩
  · exact fun _ => rfl

theorem reach_represents_scanned :
    Represents scanned.1.1 scanned.2 ∧ scanned.1.1.maxfd = 5 ∧ scanned.1.1.cap = 16 :=
  ⟨(reach_represents (by decide) reach_scanned).1, by decide, by decide⟩

end Lsocket.Select
