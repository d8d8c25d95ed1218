import Lsocket.Net.Registry
import Lsocket.Net.Kqueue

/-!
# The arrays of a poll

`socket_poll` has room for `max` events of the poller and for `max` events of its own. The loop makes
at most one of each event of the poller. Epoll and kqueue are told the size of the array; the poller
on select stores one entry for each descriptor that it finds in its tables. These are as many as
slots, as long as every slot is closed without a registration (`pollFits_all`).
-/

namespace Lsocket

variable {σ : Type} {B : Backend σ} {w : World σ} {a a' : Abs σ} {i : ℕ} {c c' : Conn} {op : Op}
variable {v : ℤ}

/-! ## The loop -/

theorem wp_raise_length (e : SocketEvent) (w : World σ) :
    Prog.wp (raise e) (fun es _ => es.length ≤ 1) (fun _ _ => True) w :=
  Prog.wp_bind_of_forall fun _ _ => le_refl 1

theorem wp_pollRead_length (udata : ℤ) (ie : NpEvent) (w : World σ) :
    Prog.wp (pollRead i udata ie) (fun es _ => es.length ≤ 1) (fun _ _ => True) w := by
  unfold pollRead
  split
  · exact wp_raise_length _ w
  · exact Nat.zero_le 1

/-- A connection that is closed with an event. -/
theorem wp_raiseClose_length (e : SocketEvent) (w : World σ) :
    Prog.wp (do let es ← raise e; closeSocket B i; pure es) (fun es _ => es.length ≤ 1)
      (fun _ _ => True) w := by
  refine (Prog.wp_bind ..).mpr (Prog.wp_mono (wp_raise_length e w) fun es w' hes => ?_)
  exact Prog.wp_bind_of_forall fun _ _ => hes

/-- One event of the poller makes at most one event. -/
theorem wp_pollConn_length (ie : NpEvent) (w : World σ) :
    Prog.wp (pollConn B i ie) (fun es _ => es.length ≤ 1) (fun _ _ => True) w := by
  refine Prog.wp_bind_of_forall fun s w => ?_
  split
  · refine Prog.wp_bind_of_forall fun err w => ?_
    split
    · exact wp_raiseClose_length _ w
    · refine Prog.wp_bind_of_forall fun s w => ?_
      split
      · exact wp_raiseClose_length _ w
      · exact wp_pollRead_length _ ie w
  · exact wp_pollRead_length _ ie w

/-- The body of the loop stores one event at most. -/
theorem wp_pollEvent_length (ie : NpEvent) (w : World σ) :
    Prog.wp (pollEvent B ie) (fun es _ => es.length ≤ 1) (fun _ _ => True) w := by
  refine Prog.wp_bind_of_forall fun s w => ?_
  split
  · refine Prog.wp_bind_of_forall fun r w => ?_
    split
    · exact Nat.zero_le 1
    · exact Prog.wp_bind_of_forall fun _ w => wp_raise_length _ w
  · exact Prog.wp_bind_of_forall fun _ w => wp_raise_length _ w
  · exact Nat.zero_le 1
  · exact wp_pollConn_length ie w

/-- The loop stores no more events than there are of the poller. -/
theorem wp_pollLoop_length (ies : List NpEvent) (w : World σ) :
    Prog.wp (pollLoop B ies) (fun es _ => es.length ≤ ies.length) (fun _ _ => True) w := by
  induction ies generalizing w with
  | nil => exact Nat.zero_le 0
  | cons ie ies ih =>
    refine (Prog.wp_bind ..).mpr (Prog.wp_mono (wp_pollEvent_length ie w) fun es w hes => ?_)
    refine (Prog.wp_bind ..).mpr (Prog.wp_mono (ih w) fun es' w hes' => ?_)
    simp only [Prog.wp_pure, List.length_append, List.length_cons]
    omega

/-! ## The arrays -/

/-- The next `socket_poll` stays within its arrays, whatever the system answers: `np_poll` stores at
most `max` events, each of them leads to one event at most, and these are at most `max`. -/
structure PollFits (B : Backend σ) (w : World σ) : Prop where
  entries : ∀ replies timeout ies w', poller (B.npPoll w.net.max timeout) (w.answer replies)
    = (.ok ies, w') → ies.length ≤ w.net.max
  one : ∀ ie w' es w'', pollEvent B ie w' = (.ok es, w'') → es.length ≤ 1
  emitted : ∀ replies timeout ies w' es w'', poller (B.npPoll w.net.max timeout) (w.answer replies)
    = (.ok ies, w') → pollLoop B ies w' = (.ok es, w'') → es.length ≤ w.net.max

/-- The loop fits if the entries do. -/
theorem PollFits.of_entries (h : ∀ o timeout, Prog.wp (B.npPoll w.net.max timeout)
    (fun ies _ => ies.length ≤ w.net.max) (fun _ _ => True) (w.np, o)) : PollFits B w := by
  have hentries : ∀ replies timeout ies w', poller (B.npPoll w.net.max timeout) (w.answer replies)
      = (.ok ies, w') → ies.length ≤ w.net.max := by
    intro replies timeout ies w' hp
    have hwp : Prog.wp (poller (B.npPoll w.net.max timeout)) (fun ies _ => ies.length ≤ w.net.max)
        (fun _ _ => True) (w.answer replies) :=
      (Prog.wp_zoom ..).mpr (h _ timeout)
    have hle := Prog.wp_ok hwp hp
    exact hle
  refine ⟨hentries, fun ie w' es w'' he => ?_, fun replies timeout ies w' es w'' hp hl => ?_⟩
  · have hle := Prog.wp_ok (wp_pollEvent_length ie w') he
    exact hle
  · have hle := Prog.wp_ok (wp_pollLoop_length ies w') hl
    exact hle.trans (hentries _ _ _ _ hp)

/-- `epoll_wait` is told how many events there is room for. -/
theorem pollFits_epoll (w : World Epoll) : PollFits epoll w :=
  .of_entries fun o timeout => Prog.wp_mono
    (Prog.wp_of_any_fault (Epoll.wp_npPoll w.net.max timeout (w.np, o))) fun _ _ h => h.2.1

/-- So is `kevent`. -/
theorem pollFits_kqueue (w : World Kqueue) : PollFits kqueue w :=
  .of_entries fun o timeout => Prog.wp_mono
    (Prog.wp_of_any_fault (Kqueue.wp_npPoll w.net.max timeout (w.np, o))) fun _ _ h => h.2.1

/-! ## The tables of select -/

variable {np np' : Select} {evs : List Ev} {fd d : ℤ} {u : ℕ}

/-- The user data of a descriptor is a slot that has the descriptor, with a mask. -/
def Owned (np : Select) (slot : ℕ → Option Conn) : Prop :=
  ∀ fd u, np.ud fd = some u → ∃ c, slot u = some c ∧ c.fd = fd ∧ c.mask ≠ .none

/-- The calls of the poller write user data for the descriptor and the slot they are given. -/
theorem Subscribe.ud_eq {r : ℤ} {old new mask : Mask}
    (h : Subscribe select i fd old new np r mask np' evs)
    (hmine : ∀ d, np.ud d = some i → d = fd ∧ old ≠ .none) (hud : np'.ud d = some u) :
    (u = i ∧ d = fd ∧ mask ≠ .none) ∨ (u ≠ i ∧ np.ud d = some u) := by
  -- an entry that was there is of another slot, or the mask is the old one
  have hold : np.ud d = some u → (mask ≠ .none ∨ old = .none) →
      (u = i ∧ d = fd ∧ mask ≠ .none) ∨ (u ≠ i ∧ np.ud d = some u) := by
    intro hd hmask
    by_cases hu : u = i
    · subst hu
      obtain ⟨hdfd, hne⟩ := hmine d hd
      exact .inl ⟨rfl, hdfd, hmask.resolve_right hne⟩
    · exact .inr ⟨hu, hd⟩
  have hcalls : ∀ {r : ℤ} {np' : Select}, select.Calls i fd old new np r np' →
      (r ≠ 0 → np' = np) ∧ (r = 0 → np'.ud d = some u →
        (d ≠ fd ∧ np.ud d = some u) ∨ (new ≠ .none ∧ (d = fd ∧ u = i ∨ np.ud d = some u))) := by
    rintro r np' ⟨o, o', hcall⟩
    split at hcall
    · have hwp : Prog.wp (Select.npDel fd) (fun r t => (r ≠ 0 → t.1 = np) ∧ (r = 0 →
          t.1.ud d = some u → (d ≠ fd ∧ np.ud d = some u) ∨ (new ≠ .none ∧
            (d = fd ∧ u = i ∨ np.ud d = some u)))) (fun e _ => e.OfPoller) (np, o) :=
        Select.wp_npDel ⟨fun _ => rfl, nofun⟩ fun _ => ⟨fun h => absurd rfl h, fun _ hd => by
          by_cases hdf : d = fd
          · subst hdf
            simp [Select.remove] at hd
          · simp only [Select.remove, Function.update_of_ne hdf] at hd
            exact .inl ⟨hdf, hd⟩⟩
      have hout := Prog.wp_ok hwp hcall
      exact hout
    · next hnew =>
      have hwp : Prog.wp (if old = .none then Select.npAdd fd new i else Select.npMod fd new i)
          (fun r t => (r ≠ 0 → t.1 = np) ∧ (r = 0 → t.1.ud d = some u →
            (d ≠ fd ∧ np.ud d = some u) ∨ (new ≠ .none ∧ (d = fd ∧ u = i ∨ np.ud d = some u))))
          (fun e _ => e.OfPoller) (np, o) := by
        split
        · exact Select.wp_change ⟨fun _ => rfl, nofun⟩ fun _ =>
            ⟨fun h => absurd rfl h, fun _ hd => .inr ⟨hnew, Select.add_ud hd⟩⟩
        · exact Select.wp_change ⟨fun _ => rfl, nofun⟩ fun _ =>
            ⟨fun h => absurd rfl h, fun _ hd => .inr ⟨hnew, .inr hd⟩⟩
      have hout := Prog.wp_ok hwp hcall
      exact hout
  cases h with
  | same => exact hold hud (Classical.or_iff_not_imp_right.mpr id)
  | done _ hc =>
    rcases (hcalls hc).2 rfl hud with ⟨hdf, hd⟩ | ⟨hnew, ⟨rfl, rfl⟩ | hd⟩
    · exact .inr ⟨fun hu => hdf (hmine d (hu ▸ hd)).1, hd⟩
    · exact .inl ⟨rfl, rfl, hnew⟩
    · exact hold hd (.inl hnew)
  | failed _ hr hc =>
    rw [(hcalls hc).1 hr] at hud
    exact hold hud (Classical.or_iff_not_imp_right.mpr id)

namespace Owned

variable {slot : ℕ → Option Conn} {b b' : Abs Select}

/-- A connection that asks the poller for a mask. -/
theorem put {r : ℤ} {new : Mask} {evs' : List Ev} (h : Owned b.np b.slot) (hc : b.slot i = some c)
    (hfd : c'.fd = c.fd) (hs : Subscribe select i c.fd c.mask new b.np r c'.mask np' evs) :
    Owned np' (b.put i c' np' evs').slot := by
  intro d u hud
  have hmine : ∀ d, b.np.ud d = some i → d = c.fd ∧ c.mask ≠ .none := by
    intro d hd
    obtain ⟨c₀, hc₀, rfl, hm⟩ := h d i hd
    obtain rfl := Option.some.inj (hc.symm.trans hc₀)
    exact ⟨rfl, hm⟩
  rcases hs.ud_eq hmine hud with ⟨rfl, rfl, hm⟩ | ⟨hu, hd⟩
  · exact ⟨c', Abs.put_slot_self .., hfd, hm⟩
  · obtain ⟨d', hd', hfd', hm⟩ := h d u hd
    exact ⟨d', (Function.update_of_ne hu ..).trans hd', hfd', hm⟩

/-- A connection without a mask is user data of no descriptor. -/
theorem remove (h : Owned np slot) (hc : slot i = some c) (hm : c.mask = .none) :
    Owned np (Function.update slot i none) := by
  intro d u hud
  obtain ⟨c₀, hc₀, hfd, hm₀⟩ := h d u hud
  have hu : u ≠ i := by
    rintro rfl
    obtain rfl := Option.some.inj (hc.symm.trans hc₀)
    exact hm₀ hm
  exact ⟨c₀, by rw [Function.update_of_ne hu, hc₀], hfd, hm₀⟩

/-- A slot that was free is user data of no descriptor. -/
theorem create (h : Owned np slot) (hn : slot i = none) (c : Conn) :
    Owned np (Function.update slot i (some c)) := by
  intro d u hud
  obtain ⟨c₀, hc₀, hfd, hm₀⟩ := h d u hud
  have hu : u ≠ i := by
    rintro rfl
    cases hn.symm.trans hc₀
  exact ⟨c₀, by rw [Function.update_of_ne hu, hc₀], hfd, hm₀⟩

/-- A slot without interest is closed, and nothing of the poller was about it. -/
theorem close (h : Owned b.np b.slot) (hc : b.slot i = some c) (hm : c.mask = .none) :
    Owned (b.close i select c).np (b.close i select c).slot := by
  have hnp : (b.close i select c).np = b.np := by
    unfold Abs.close
    split <;> rfl
  rw [Abs.close_slot, hnp]
  exact h.remove hc hm

/-- Every change keeps it that closes a slot without a registration. -/
theorem change (h : Owned b.np b.slot) (hch : Change select op v b b')
    (hforget : ∀ e ∈ b'.log, e.Forgotten false) : Owned b'.np b'.slot := by
  cases hch with
  | err | note | raised | refused | destroyed | drop => exact h
  | @polled np' o o' ies timeout _ hp =>
    have hsame := Prog.wp_ok (Select.wp_npPoll b.max timeout) hp
    have hnp := hsame.1
    subst hnp
    exact h
  | conn hc hs =>
    obtain ⟨hfd, _, _, _, hsub⟩ := hs.subscribes
    exact h.put hc hfd hsub
  | @close j c c' np' evs hc hs =>
    obtain ⟨hfd, _, _, evs', hsub⟩ := hs.subscribes
    rw [Abs.close_log] at hforget
    -- the log rules out a close that leaves the descriptor registered
    have hput : Owned (b.put j c' np' evs).np (b.put j c' np' evs).slot := h.put hc hfd hsub
    exact hput.close (Abs.put_slot_self ..) ((hforget _ (List.mem_append_right _
      List.mem_cons_self)).resolve_right fun h => by cases h.1)
  | @opened j rest fd slimit udata protocol rlimit c np' evs _ _ _ hn hm =>
    obtain ⟨hfd, _, _, evs', hsub⟩ := hm.subscribes rfl
    have hopen : Owned (b.create j rest (newConn fd slimit udata protocol rlimit)).np
        (b.create j rest (newConn fd slimit udata protocol rlimit)).slot := h.create hn _
    exact hopen.put (Function.update_self ..) hfd hsub
  | @bounced j rest fd slimit udata protocol rlimit r mask new np' evs _ _ _ hn hs hr =>
    have hopen : Owned (b.create j rest (newConn fd slimit udata protocol rlimit)).np
        (b.create j rest (newConn fd slimit udata protocol rlimit)).slot := h.create hn _
    -- what bounced the slot is a refused registration, so there is none to leave behind
    have hmask : mask = .none := by
      cases hs with
      | same => rfl
      | done hne => exact hr.elim (fun hr => absurd hr hne) fun hr => absurd rfl hr
      | failed => rfl
    subst hmask
    set x := newConn fd slimit udata protocol rlimit
    have hput : Owned ((b.create j rest x).put j x np' evs).np ((b.create j rest x).put j x np' evs).slot :=
      hopen.put (Function.update_self ..) rfl hs
    exact hput.close (Abs.put_slot_self ..) rfl

end Owned

/-- In every run in which the poller is told before a descriptor is closed, its user data are about
slots that have the descriptor. -/
theorem reach_owned {b : Abs Select} (h : (changes select).Reach b)
    (hforget : ∀ e ∈ b.log, e.Forgotten false) : Owned b.np b.slot := by
  refine h.invariant (I := fun b => (∀ e ∈ b.log, e.Forgotten false) → Owned b.np b.slot) ?_
    (fun b l b' _ ih hs hforget => ?_) hforget
  · rintro _ ⟨max, -, rfl⟩ - d u hud
    cases hud
  · exact (ih fun e he => hforget e (hs.log_suffix.mem he)).change hs hforget

/-- The entries that `np_poll` stores are about different slots. -/
theorem nodup_entries {slot : ℕ → Option Conn} (h : Owned np slot) (ready : List Ready) (ks : List ℕ)
    (hks : ks.Nodup) :
    ((ks.filterMap fun k : ℕ => np.event ready k).map NpEvent.ud).Nodup := by
  refine List.Nodup.map_on ?_ ?_
  · intro x hx y hy hxy
    obtain ⟨k, -, hk⟩ := List.mem_filterMap.mp hx
    obtain ⟨m, -, hm⟩ := List.mem_filterMap.mp hy
    -- two entries about one slot are about its descriptor
    obtain ⟨c, hc, hcfd, -⟩ := h k x.ud (Select.event_ud hk)
    obtain ⟨d, hd, hdfd, -⟩ := h m y.ud (Select.event_ud hm)
    rw [hxy] at hc
    obtain rfl := Option.some.inj (hc.symm.trans hd)
    have hkm : (k : ℤ) = m := hcfd.symm.trans hdfd
    rw [hkm] at hk
    exact Option.some.inj (hk.symm.trans hm)
  · refine hks.filterMap fun k m e hk hm => ?_
    obtain ⟨c, hc, hcfd, -⟩ := h k e.ud (Select.event_ud hk)
    obtain ⟨d, hd, hdfd, -⟩ := h m e.ud (Select.event_ud hm)
    obtain rfl := Option.some.inj (hc.symm.trans hd)
    exact_mod_cast hcfd.symm.trans hdfd

/-- The tables have no more entries than there are slots. -/
theorem pollFits_select {w : World Select} (h : (net select).Reach w)
    (hforget : ∀ e ∈ w.log, e.Forgotten false) : PollFits select w := by
  obtain ⟨hrep, hreach⟩ := reach_abs h
  have howned : Owned w.np w.abs.slot := reach_owned hreach hforget
  refine .of_entries fun o timeout => ?_
  show Prog.wp (Select.npPoll w.net.max timeout) _ _ _
  simp only [Select.npPoll, Prog.wp_bind, Prog.wp_read]
  split
  · exact Nat.zero_le _
  · simp only [Prog.wp_bind]
    refine (Prog.wp_zoom ..).mpr (wp_sys (fun r o _ => ?_) trivial)
    simp only [Prog.wp_pure]
    split
    -- each entry names a slot of its own, so there are at most `max` of them
    · have hnodup := nodup_entries howned r.ready (List.range (w.np.maxfd + 1).toNat) List.nodup_range
      refine le_of_eq_of_le (List.length_map _).symm (le_of_le_of_eq
        (hnodup.subperm fun u hu => ?_).length_le List.length_range)
      obtain ⟨e, he, rfl⟩ := List.mem_map.mp hu
      obtain ⟨k, -, hk⟩ := List.mem_filterMap.mp he
      exact List.mem_range.mpr (hrep.1.known e.ud ⟨k, Select.event_ud hk⟩)
    · exact Nat.zero_le _

/-! ## The three pollers -/

/-- In every run on epoll and kqueue, and on select in every run in which each slot is closed without
a registration, a poll stays within its arrays. -/
theorem pollFits_all (w : World Epoll) (w' : World Kqueue) (w'' : World Select) :
    ((net epoll).Reach w → PollFits epoll w) ∧ ((net kqueue).Reach w' → PollFits kqueue w') ∧
      ((net select).Reach w'' → (∀ e ∈ w''.log, e.Forgotten false) → PollFits select w'') :=
  ⟨fun _ => pollFits_epoll w, fun _ => pollFits_kqueue w', fun h hforget => pollFits_select h hforget⟩

/-- A descriptor is registered and deregistered before its slot is closed, then another one is
registered. -/
def tidyCalls : List (Op × List Reply) :=
  forgetSelect ++ [(.bind 6 0 0, [{ ret := 0 }, { ret := 0 }]), (.enableread 0 true, [])]

theorem pollFits_all_tidy : PollFits epoll (fresh epoll 1) ∧ PollFits kqueue (fresh kqueue 1) ∧
    PollFits select ((fresh select 1).after select tidyCalls) := by
  obtain ⟨hepoll, hkqueue, hselect⟩ := pollFits_all (fresh epoll 1) (fresh kqueue 1)
    ((fresh select 1).after select tidyCalls)
  exact ⟨hepoll (.init ⟨1, zeroed, rfl⟩), hkqueue (.init ⟨1, zeroed, rfl⟩),
    hselect (reach_fresh (by decide +kernel)) (by decide +kernel)⟩

/-- The slot is closed while its descriptor is registered. -/
def staleCalls : List (Op × List Reply) :=
  forgetEpoll ++ [(.bind 6 0 0, [{ ret := 0 }, { ret := 0 }]), (.enableread 0 true, [])]

/-- The poller on select finds both descriptors ready, and stores two entries in an array of one. -/
theorem not_pollFits_stale :
    ∃ w, (net select).Reach w ∧ w.net.max = 1 ∧ ¬ PollFits select w := by
  refine ⟨(fresh select 1).after select staleCalls, reach_fresh (by decide), by decide, fun h => ?_⟩
  have hrun : (poller (select.npPoll 1 0) (((fresh select 1).after select staleCalls).answer
      [{ ret := 2, ready := [⟨5, true, false, false⟩, ⟨6, true, false, false⟩] }])).1
        = .ok [⟨0, true, false⟩, ⟨0, true, false⟩] := by
    decide +kernel
  have hle := h.entries _ 0 _ _ (Prod.ext hrun rfl)
  revert hle
  decide

end Lsocket
