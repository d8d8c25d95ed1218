import Lsocket.Net.Sends

/-!
# What the calls do

The other functions of the library, and with them every call of the interface, as chains of changes.
-/

namespace Lsocket

open CInt

variable {σ : Type} {B : Backend σ} {a a' : Abs σ} {i : ℕ} {c : Conn} {op : Op}

/-- No change alters the length of the array. -/
theorem Changes.max_eq {v : ℤ} (h : Changes B op v a a') : a'.max = a.max := by
  induction h with
  | refl => rfl
  | tail _ h ih =>
    refine Eq.trans ?_ ih
    cases h
    case close =>
      unfold Abs.close
      split <;> rfl
    case bounced =>
      unfold Abs.close
      split <;> rfl
    all_goals rfl

/-- A chain of changes that goes on in a call. -/
theorem does_trans {α : Type} {p : NetM σ α} {Q : α → Abs σ → Prop}
    (h : ∀ v, Changes B op v a a') (hp : Does B p a' fun r a'' => (∀ v, Changes B op v a' a'') ∧ Q r a'') :
    Does B p a' fun r a'' => (∀ v, Changes B op v a a'') ∧ Q r a'' :=
  hp.mono fun _ _ hr => ⟨fun v => (h v).trans (hr.1 v), hr.2⟩

/-! ## Closing, and fields of a slot -/

/-- Writing a field that only the callers and the reads look at. -/
theorem Change.tune {v : ℤ} (hc : a.slot i = some c) (udata rbuffersz slimit rlimit : ℤ)
    (hop : op.Tunes i) (hs : 0 < c.slimit → 0 < slimit) :
    Change B op v a (a.set i { c with udata, rbuffersz, slimit, rlimit }) :=
  .conn hc (.tune udata rbuffersz slimit rlimit hop hs)

/-- `socket_close`. It returns 1 only if it leaves the connection half-closed. -/
theorem does_socketClose {id : ℤ} (force : Bool) (hid : Within a.max id) :
    Does B (socketClose B id force) a fun v a' => Changes B (.close id force) v a a' ∧
      (v = 1 → ∃ c, a'.slot id.toNat = some c ∧ c.status = .halfclose) := by
  obtain ⟨j, rfl⟩ := Int.eq_ofNat_of_zero_le hid.1
  refine .bind (does_socketOf hid.1 hid.2) ?_
  rintro r _ (⟨rfl, -, rfl⟩ | ⟨c, rfl, hc, rfl⟩)
  · exact .pure ⟨.single (.err _), fun h => absurd h (by decide)⟩
  refine .bind (does_slotAt hc) ?_
  rintro s a ⟨rfl, hs⟩
  have hput := (Abs.put_self hc).symm
  -- closed at once when forced or when nothing is queued, half-closed otherwise
  refine .ite (fun h => ?_) fun h => ?_
  · refine .bind (does_closeSocket hc) ?_
    rintro _ _ rfl
    refine .pure ⟨.single ?_, fun h => absurd h (by decide)⟩
    have hcl : Closing B (.close (j : ℤ) force) 0 j c a.np c a.np [] := by
      rcases h with rfl | h
      · exact .forced rfl
      · exact .idle rfl (hs.head_iff.mp h)
    have := Change.close hc hcl
    rwa [← hput] at this
  · rw [not_or] at h
    obtain rfl : force = false := by simpa using h.1
    have hq : c.queue ≠ [] := fun hq => h.2 (hs.head_iff.mpr hq)
    refine .bind (does_setSlot (fun c => { c with status := .halfclose }) hc (fun _ _ => rfl)
      (fun _ => ⟨rfl, rfl⟩) (fun _ => by simp) rfl) ?_
    rintro _ _ rfl
    refine .bind (does_queue (Abs.set_slot_self ..)) ?_
    rintro _ _ ⟨rfl, rfl⟩
    refine .bind (does_emit _) ?_
    rintro _ _ rfl
    exact .pure ⟨.single (.conn hc (.half rfl rfl hq)), fun _ => ⟨_, Abs.set_slot_self .., rfl⟩⟩

/-- `socket_enableread`. -/
theorem does_socketEnableread {id : ℤ} (read : Bool) (hid : Within a.max id) :
    Does B (socketEnableread B id read) a fun v a' => Changes B (.enableread id read) v a a' := by
  obtain ⟨j, rfl⟩ := Int.eq_ofNat_of_zero_le hid.1
  refine .bind (does_socketOf hid.1 hid.2) ?_
  rintro r _ (⟨rfl, -, rfl⟩ | ⟨c, rfl, hc, rfl⟩)
  · exact .pure (.single (.err _))
  refine .bind (does_slotAt hc) ?_
  rintro s _ ⟨rfl, hs⟩
  rw [show s.mask = c.mask from congrArg Conn.mask hs.conn_eq]
  refine (does_subscribe _ hc).mono ?_
  rintro v _ ⟨m, np, evs, hsub, rfl⟩
  exact .single (.conn hc (.enable rfl hsub))

/-- `socket_udata`. -/
theorem does_socketUdata {id : ℤ} (udata : ℤ) (hid : Within a.max id) :
    Does B (socketUdata id udata) a fun v a' => Changes B (.udata id udata) v a a' := by
  refine .bind (does_socketOf hid.1 hid.2) ?_
  rintro r _ (⟨rfl, -, rfl⟩ | ⟨c, rfl, hc, rfl⟩)
  · exact .pure (.single (.err _))
  refine .bind (does_setSlot (fun c => { c with udata }) hc (fun _ _ => rfl)
    (fun _ => ⟨rfl, rfl⟩) (fun h => h) rfl) ?_
  rintro _ _ rfl
  exact .pure (.single (.tune hc _ _ _ _ (Int.toNat_of_nonneg hid.1).symm fun h => h))

/-- A limit of zero or less stands for the largest one. -/
theorem limit_pos (slimit : ℤ) : 0 < if slimit ≤ 0 then INT_MAX else slimit := by
  unfold INT_MAX
  split <;> omega

/-- `socket_limit`. -/
theorem does_socketLimit {id : ℤ} (slimit rlimit : ℤ) (hid : Within a.max id) :
    Does B (socketLimit id slimit rlimit) a
      fun v a' => Changes B (.limit id slimit rlimit) v a a' := by
  refine .bind (does_socketOf hid.1 hid.2) ?_
  rintro r _ (⟨rfl, -, rfl⟩ | ⟨c, rfl, hc, rfl⟩)
  · exact .pure (.single (.err _))
  refine .bind (does_setSlot (fun c => { c with slimit := if slimit ≤ 0 then INT_MAX else slimit }) hc
    (fun _ _ => rfl) (fun _ => ⟨rfl, rfl⟩) (fun h => h) rfl) ?_
  rintro _ _ rfl
  refine .ite (fun _ => ?_) fun _ => ?_
  · refine .bind (does_setSlot (fun c => { c with rlimit := 0 }) (Abs.set_slot_self ..)
      (fun _ _ => rfl) (fun _ => ⟨rfl, rfl⟩) (fun h => h) rfl) ?_
    rintro _ _ rfl
    rw [Abs.set_set]
    exact .pure (.single (.tune hc _ _ _ _ (Int.toNat_of_nonneg hid.1).symm fun _ => limit_pos slimit))
  · refine .bind (does_setSlot (fun c => { c with rlimit, rbuffersz := rlimit })
      (Abs.set_slot_self ..) (fun _ _ => rfl) (fun _ => ⟨rfl, rfl⟩) (fun h => h) rfl) ?_
    rintro _ _ rfl
    rw [Abs.set_set]
    exact .pure (.single (.tune hc _ _ _ _ (Int.toNat_of_nonneg hid.1).symm fun _ => limit_pos slimit))

/-- `socket_fd`. -/
theorem does_socketFd {id : ℤ} (hid : Within a.max id) :
    Does B (socketFd id) a fun v a' => Changes B (.fd id) v a a' := by
  refine .bind (does_socketOf hid.1 hid.2) ?_
  rintro r _ (⟨rfl, -, rfl⟩ | ⟨c, rfl, hc, rfl⟩)
  · exact .pure (.single (.err _))
  refine .bind (does_slotAt hc) ?_
  rintro s _ ⟨rfl, hs⟩
  exact .pure .refl

/-- `socket_address`. -/
theorem does_socketAddress {id : ℤ} (hid : Within a.max id) :
    Does B (socketAddress id) a fun v a' => Changes B (.address id) v a a' := by
  refine .bind (does_socketOf hid.1 hid.2) ?_
  rintro r _ (⟨rfl, -, rfl⟩ | ⟨c, rfl, hc, rfl⟩)
  · exact .pure (.single (.err _))
  refine .bind (does_call _) ?_
  rintro r _ ⟨-, rfl⟩
  exact .pure .refl

/-- The loop of `net_free` leaves no slot occupied. -/
theorem does_closeAll (k j : ℕ) (hk : j + k = a.max) :
    Does B (closeAll B k j) a fun _ a' => Changes B .free 0 a a' ∧
      ∀ n, (j ≤ n ∧ n < a.max ∨ a.slot n = none) → a'.slot n = none := by
  induction k generalizing a j with
  | zero =>
    refine .pure ⟨.refl, fun n hn => ?_⟩
    rcases hn with hn | hn
    · omega
    · exact hn
  | succ k ih =>
    have hj : j < a.max := by omega
    rcases hc : a.slot j with _ | c
    · refine .bind (does_slotAt_free hc hj) ?_
      rintro s _ ⟨rfl, hs⟩
      rw [if_neg (by simpa using hs)]
      refine (ih (j + 1) (by omega)).mono ?_
      rintro _ a' ⟨hch, ha'⟩
      refine ⟨hch, fun n hn => ha' n ?_⟩
      rcases hn with hn | hn
      · rcases eq_or_lt_of_le hn.1 with rfl | h
        · exact .inr hc
        · exact .inl ⟨h, hn.2⟩
      · exact .inr hn
    · refine .bind (does_slotAt hc) ?_
      rintro s a ⟨rfl, hs⟩
      have hst : s.status ≠ .invalid := by
        rw [show s.status = c.status from congrArg Conn.status hs.conn_eq]
        exact hs.status
      rw [if_pos hst]
      have hclose := Change.close hc (.destroyed (B := B) (v := 0) rfl)
      rw [Abs.put_self hc] at hclose
      have hmax : (a.close j B c).max = a.max := Changes.max_eq (.single hclose)
      refine .bind (does_closeSocket hc) ?_
      rintro _ _ rfl
      refine (ih (j + 1) (by omega)).mono ?_
      rintro _ a' ⟨hch, ha'⟩
      refine ⟨.trans (.single hclose) hch, fun n hn => ha' n ?_⟩
      rw [hmax, Abs.close_slot]
      by_cases hnj : n = j
      · exact .inr (by rw [hnj, Function.update_self])
      · rw [Function.update_of_ne hnj]
        rcases hn with hn | hn
        · exact .inl ⟨by omega, hn.2⟩
        · exact .inr hn

/-- `net_free`, which leaves no connection. -/
theorem does_netFree :
    Does B (netFree B) a fun _ a' => Changes B .free 0 a a' ∧ ∀ j, a'.slot j = none := by
  refine .bind does_max ?_
  rintro n a ⟨rfl, hn, hout⟩
  refine .bind (does_closeAll n.max 0 (by omega)) ?_
  rintro _ a' ⟨hch, hnone⟩
  have hall (j : ℕ) : a'.slot j = none := by
    refine hnone j ?_
    by_cases hj : j < a.max
    · exact .inl ⟨j.zero_le, hj⟩
    · exact .inr (hout j (not_lt.mp hj))
  refine (does_emit _).mono ?_
  rintro _ _ rfl
  exact ⟨.tail hch (.destroyed rfl hall), hall⟩

/-! ## Reading -/

/-- `_read_close` leaves everything as it is. -/
theorem does_readClose (fuel : ℕ) : Does B (readClose fuel) a fun _ a' => a' = a := by
  induction fuel with
  | zero => exact .fault Fault.outside_stuck
  | succ fuel ih =>
    refine .bind (does_call _) ?_
    rintro r _ ⟨-, rfl⟩
    refine .ite (fun _ => ?_) fun _ => .ite (fun _ => .pure rfl) fun _ => .pure rfl
    exact .ite (fun _ => .pure rfl) fun _ => .ite (fun _ => ih) fun _ => .pure rfl

/-- A read that closes the slot returns -1. -/
theorem does_readFail (err : ℤ) (hc : a.slot i = some c) (hop : op = .read i) :
    Does B (readFail B i err) a fun r a' => Changes B op r.n a a' := by
  refine .bind (does_closeSocket hc) ?_
  rintro _ _ rfl
  refine .bind (does_setErr err) ?_
  rintro _ _ rfl
  have hclose := Change.close hc (.unread (B := B) hop rfl)
  rw [Abs.put_self hc] at hclose
  exact .pure (.tail (.single hclose) (.err err))

/-- Data that are handed to the caller. -/
theorem does_received (bytes : List UInt8) (cfd : Option ℤ) (res : ReadResult)
    (hres : 0 < res.n) (hc : a.slot i = some c) (hop : op = .read i)
    (h : (c.protocol = .tcp ∧ c.status ≠ .halfclose ∧ cfd = none) ∨ c.protocol = .ipc) :
    Does B (do
        emit (.received i bytes cfd)
        pure res)
      a fun r a' => Changes B op r.n a a' := by
  refine .bind (does_emit _) ?_
  rintro _ _ rfl
  have hrec : Change B op res.n a (a.put i c a.np [.received i bytes cfd]) :=
    .conn hc (.received hop hres h)
  rw [Abs.put_emit_self hc] at hrec
  exact .pure (.single hrec)

/-- The loop of `_read`. -/
theorem does_readLoop (sz : ℤ) (fuel : ℕ) (hc : a.slot i = some c) (hop : op = .read i)
    (hp : c.protocol = .tcp) (hs : c.status ≠ .halfclose) :
    Does B (readLoop B i sz fuel) a fun r a' => Changes B op r.n a a' := by
  induction fuel with
  | zero => exact .fault Fault.outside_stuck
  | succ fuel ih =>
    refine .bind (does_call _) ?_
    rintro r _ ⟨-, rfl⟩
    refine .ite (fun _ => ?_) fun hneg => .ite (fun _ => does_readFail _ hc hop) fun hzero => ?_
    · exact .ite (fun _ => .pure .refl) fun _ => .ite (fun _ => ih) fun _ => does_readFail _ hc hop
    have hpos : 0 < r.ret := by omega
    refine .bind (does_slotAt hc) ?_
    rintro s a ⟨rfl, -⟩
    have hdone := fun (res : ReadResult) (hres : 0 < res.n) (bytes : List UInt8) =>
      does_received (B := B) bytes none res hres hc hop (.inl ⟨hp, hs, rfl⟩)
    -- doubling and halving are one argument with the new size as a function of the old
    have htune : ∀ (f : ℤ → ℤ) (res : ReadResult) (_ : 0 < res.n) (bytes : List UInt8), Does B (do
        setSlot i fun s => { s with rbuffersz := f s.rbuffersz }
        emit (.received i bytes none)
        pure res) a fun r a' => Changes B op r.n a a' := by
      intro f res hres bytes
      refine .bind (does_setSlot (fun c => { c with rbuffersz := f c.rbuffersz }) hc (fun _ _ => rfl)
        (fun _ => ⟨rfl, rfl⟩) (fun h => h) rfl) ?_
      rintro _ _ rfl
      have htunes : op.Tunes i := hop ▸ rfl
      refine does_after (fun _ => .single (.tune hc _ _ _ _ htunes fun h => h)) ?_
      exact does_received _ _ _ hres (Abs.set_slot_self ..) hop (.inl ⟨hp, hs, rfl⟩)
    refine .ite (fun _ => ?_) fun _ => hdone _ hpos _
    refine .ite (fun _ => htune (fun z => wrap (z * 2)) _ hpos _) fun _ => ?_
    exact .ite (fun _ => htune (fun z => z / 2) _ hpos _) fun _ => hdone _ hpos _

/-- `_read`. -/
theorem does_read (hc : a.slot i = some c) (hop : op = .read i) (hp : c.protocol = .tcp) :
    Does B (read B i) a fun r a' => Changes B op r.n a a' := by
  refine .bind (does_slotAt hc) ?_
  rintro s _ ⟨rfl, hs⟩
  have hst : s.status = c.status := congrArg Conn.status hs.conn_eq
  refine .bind does_answersLeft ?_
  rintro fuel a rfl
  rw [hst]
  -- a half-closed connection reads only to find out whether the peer is gone
  refine .ite (fun _ => ?_) fun h => does_readLoop _ _ hc hop hp h
  refine .bind (does_readClose fuel) ?_
  rintro err a rfl
  refine .bind (does_setErr err) ?_
  rintro _ _ rfl
  refine .ite (fun _ => ?_) fun _ => .pure (.single (.err _))
  refine .bind (does_closeSocket hc) ?_
  rintro _ _ rfl
  have hclose := Change.close (a := a.setErr err) hc (.unread (B := B) hop rfl)
  rw [Abs.put_self (a := a.setErr err) hc] at hclose
  exact .pure (.tail (.single (.err err)) hclose)

/-- The loop of `_readfd`. -/
theorem does_readfdLoop (fuel : ℕ) (hc : a.slot i = some c) (hop : op = .read i)
    (hp : c.protocol = .ipc) :
    Does B (readfdLoop B i fuel) a fun r a' => Changes B op r.n a a' := by
  induction fuel with
  | zero => exact .fault Fault.outside_stuck
  | succ fuel ih =>
    refine .bind (does_call _) ?_
    rintro r _ ⟨-, rfl⟩
    refine .ite (fun _ => ?_) fun hneg => .ite (fun _ => does_readFail _ hc hop) fun hzero => ?_
    · exact .ite (fun _ => .pure .refl) fun _ => .ite (fun _ => ih) fun _ => does_readFail _ hc hop
    have hpos : 0 < r.ret := by omega
    refine .ite (fun _ => does_readFail _ hc hop) fun _ => .ite (fun _ => ?_) fun _ => ?_
    · refine .ite (fun _ => does_readFail _ hc hop) fun _ => ?_
      exact does_received _ _ _ (by simp only; omega) hc hop (.inr hp)
    · exact does_received _ _ _ hpos hc hop (.inr hp)

/-- `_readfd`. -/
theorem does_readfd (hc : a.slot i = some c) (hop : op = .read i) :
    Does B (readfd B i) a fun r a' => Changes B op r.n a a' := by
  refine .bind (does_slotAt hc) ?_
  rintro s _ ⟨rfl, hs⟩
  rw [show s.protocol = c.protocol from congrArg Conn.protocol hs.conn_eq]
  refine .ite (fun _ => ?_) fun hp => ?_
  · refine .bind (does_setErr _) ?_
    rintro _ _ rfl
    exact .pure (.single (.err _))
  · refine .bind does_answersLeft ?_
    rintro fuel _ rfl
    exact does_readfdLoop fuel hc hop (not_not.mp hp)

/-- `socket_read`. -/
theorem does_socketRead {id : ℤ} (hid : Within a.max id) :
    Does B (socketRead B id) a fun r a' => Changes B (.read id) r.n a a' := by
  obtain ⟨j, rfl⟩ := Int.eq_ofNat_of_zero_le hid.1
  refine .bind (does_socketOf hid.1 hid.2) ?_
  rintro r _ (⟨rfl, -, rfl⟩ | ⟨c, rfl, hc, rfl⟩)
  · exact .pure (.single (.err _))
  refine .bind (does_slotAt hc) ?_
  rintro s _ ⟨rfl, hs⟩
  have hp : s.protocol = c.protocol := congrArg Conn.protocol hs.conn_eq
  rcases h : s.protocol with _ | _ | _ <;> rw [h] at hp
  · exact does_read hc rfl hp.symm
  · exact .pure .refl
  · exact does_readfd hc rfl

end Lsocket
