import Lsocket.Net.Stream
import Lsocket.Net.Results

/-!
# Whether a send takes its data

A send takes its data if the bytes written to the connection and those of its queue grow by them
(`Took`). What the connection holds and what its first write answers decide it (`Accepts`), and the number
that `socket_send` returns says less than that (`SendCall.took_iff`, `SendCall.pos_iff`).
-/

namespace Lsocket

open CInt

variable {σ : Type} {B : Backend σ} {w w' : World σ} {a a' : Abs σ} {i : ℕ} {c : Conn} {op : Op}
variable {b : Chunk} {rs : List Reply} {r : Option Reply} {v : ℤ}

/-- What was written to the connection and what is queued on it have grown by the data of the send. -/
def Took (op : Op) (a a' : Abs σ) : Prop :=
  ∃ c c', a.slot op.target = some c ∧ a'.slot op.target = some c' ∧
    wire op.target a'.log ++ streams c'.queue =
      wire op.target a.log ++ streams c.queue ++ op.chunk.stream

/-- The connection keeps a chunk that is sent, given the answer to the first write, if there is one: what
the write leaves of the chunk is within the limit. -/
def Accepts (c : Conn) (b : Chunk) : Option Reply → Prop
  | some x => ¬ x.Broken ∧ (x.ret < b.sz → wrap (c.sbuffersz + (b.left c.protocol x.ret).sz) ≤ c.slimit)
  | none => wrap (c.sbuffersz + b.sz) ≤ c.slimit

/-- A send leaves the slot occupied exactly if the connection keeps the data. -/
theorem SendEnd.accepts_iff (h : SendEnd B i c b a r v a') (hr : c.queue ≠ [] → r = none)
    (hb : 0 < b.sz) : Accepts c b r ↔ a'.slot i ≠ none := by
  cases h with
  | whole _ hx hsz =>
    refine iff_of_true ?_ (by simp)
    rw [hx]
    exact ⟨fun hbroken => by have := hbroken.1; omega, fun h => absurd h (not_lt.mpr hsz)⟩
  | queued _ hx hn hbroken hfit =>
    refine iff_of_true ?_ (by simp)
    rw [hx]
    exact ⟨hbroken, fun _ => hfit⟩
  | behind hq hfit =>
    refine iff_of_true ?_ (by simp)
    rw [hr hq]
    exact hfit
  | exceeded _ hn _ hover =>
    refine iff_of_false ?_ (by simp)
    rcases r with _ | x
    · intro hfit
      have hleft : b.left c.protocol 0 = b := if_neg (lt_irrefl 0)
      rw [show written (none : Option Reply) = 0 from rfl, hleft] at hover
      exact absurd hfit (not_le.mpr hover)
    · exact fun h => absurd (h.2 hn) (not_le.mpr hover)
  | broken _ hx hbroken =>
    refine iff_of_false ?_ (by simp)
    rw [hx]
    exact fun h => h.1 hbroken

/-- The events of a send that takes the data of `b`. -/
theorem supply_send {evs : List Ev} (hevs : ∀ e ∈ evs, e.Silent) (p : Protocol) (n : ℤ) (log : List Ev) :
    supply i ((evs ++ (wrote i p b n ++ [.offered i b])) ++ log) = supply i log ++ b.stream := by
  have hopens : ∀ e ∈ evs ++ (wrote i p b n ++ [.offered i b]), ¬ e.Opens i := by
    intro e he
    rcases List.mem_append.mp he with he | he
    · exact (hevs e he).not_opens
    rcases List.mem_append.mp he with he | he
    · exact (wrote_local p b n e he).steady.not_opens
    · rw [List.mem_singleton.mp he]
      exact fun h => h
  rw [supply_append hopens, (flow_silent hevs _).2, (flow_send b p n).2]

/-- A send that leaves the slot occupied has offered its data. -/
theorem SendEnd.supply (h : SendEnd B i c b a r v a') (hlive : a'.slot i ≠ none) :
    Lsocket.supply i a'.log = Lsocket.supply i a.log ++ b.stream := by
  cases h with
  | whole =>
    have := supply_send (i := i) (b := b) b.freed_silent c.protocol b.sz a.log
    rwa [← List.append_assoc b.freed] at this
  | queued _ _ _ _ _ hs => exact supply_send hs.silent _ _ _
  | behind => exact supply_send (List.forall_mem_nil _) c.protocol 0 _
  | exceeded => exact absurd (Abs.fail_slot ..) hlive
  | broken => exact absurd (Abs.fail_slot ..) hlive

/-- A send takes its data exactly if the slot is occupied, its protocol and status allow the send, and
the connection keeps the data. -/
theorem SendCall.took_iff (h : SendCall B op a rs v a') (ha : Streaming a) (ha' : Streaming a')
    (hb : op.chunk.bytes ≠ []) (hsz : 0 < op.chunk.sz) :
    Took op a a' ↔ ∃ c, a.slot op.target = some c ∧ op.Takes c.protocol c.status ∧
      Accepts c op.chunk (firstAnswer c rs) := by
  cases h with
  | noSocket hc => exact iff_of_false (fun ⟨c, _, hc', _⟩ => by simp [hc] at hc') (by simp [hc])
  | @status c hc hno =>
    refine iff_of_false ?_ ?_
    · rintro ⟨d, d', hd, hd', heq⟩
      obtain rfl : d = d' := Option.some.inj (hd.symm.trans hd')
      -- a rejected send logs at most that it freed the block
      have hlog : ((a.freeData [op.chunk]).setErr LS_ERR_STATUS).log = op.chunk.freed ++ a.log := by
        unfold Abs.setErr Abs.freeData freedLog Chunk.freed
        rcases op.chunk.begin with _ | token <;> rfl
      have hopens : ∀ e ∈ op.chunk.freed, ¬ e.Opens op.target := fun e he =>
        (op.chunk.freed_silent e he).not_opens
      rw [hlog, wire_append hopens, wire_silent op.chunk.freed_silent, List.append_nil] at heq
      have hbytes := map_fst_tag op.chunk.fd op.chunk.bytes
      rw [show tag op.chunk.fd op.chunk.bytes = [] from List.self_eq_append_right.mp heq] at hbytes
      exact hb hbytes.symm
    · rintro ⟨d, hd, hok, -⟩
      exact hno (Option.some.inj (hc.symm.trans hd) ▸ hok)
  | @sends c v a' hc hok hs hend =>
    have hfirst : c.queue ≠ [] → firstAnswer c rs = none := fun hq => if_neg hq
    have hiff := hend.accepts_iff hfirst hsz
    constructor
    · rintro ⟨d, d', hd, hd', -⟩
      exact ⟨c, hc, hok, hiff.mpr (by simp [hd'])⟩
    · rintro ⟨d, hd, -, hacc⟩
      obtain rfl : c = d := Option.some.inj (hc.symm.trans hd)
      have hlive := hiff.mp hacc
      obtain ⟨c', hc'⟩ := Option.ne_none_iff_exists'.mp hlive
      refine ⟨c, c', hc, hc', ?_⟩
      rw [ha'.conn _ _ hc', ha.conn _ _ hc]
      exact hend.supply hlive

/-! ## The number returned -/

/-- A write of all the data makes `socket_send` return what it returned. -/
theorem doesWith_socketSend_whole {data : Block} {sz : ℤ} {x : Reply} (hc : a.slot i = some c)
    (hi : i < a.max) (hp : c.protocol = .tcp) (hs : c.status ≠ .halfclose) (hq : c.queue = [])
    (hsz : 0 < sz) (hx : rs.head? = some x) (hall : sz ≤ x.ret) :
    DoesWith B (socketSend B i data sz) (a, rs) fun v _ => v = x.ret := by
  let b : Chunk := { sz, fd := -1, begin := some data.token, ptr := some data.bytes }
  refine doesWith_bind (.check (Q := fun _ a' => a' = a) hsz rfl) (.check _ _) ?_
  rintro _ a rfl
  refine doesWith_bind (does_socketOf (by omega) (by omega)) (.socketOf _) ?_
  rintro r _ (⟨rfl, hnone, rfl⟩ | ⟨d, rfl, hd, rfl⟩)
  · cases hc.symm.trans hnone
  obtain rfl : c = d := Option.some.inj (hc.symm.trans hd)
  refine doesWith_bind (does_slotAt hc) (.slotAt _) ?_
  rintro s a ⟨rfl, hshows⟩
  rw [show s.protocol = c.protocol from congrArg Conn.protocol hshows.conn_eq,
    show s.status = c.status from congrArg Conn.status hshows.conn_eq]
  refine .ite (fun hno => (hno.elim (· hp) (hs ·)).elim) fun _ => ?_
  refine doesWith_bind (does_emit _) (.emit _) ?_
  rintro _ _ rfl
  refine .ite (fun _ => ?_) fun hhead => absurd (hshows.head_iff.mpr hq) hhead
  refine .bind (doesWith_write (b := b) sz hc (if_neg (by simp [hp]))) ?_
  rintro y ⟨a', rs'⟩ ⟨-, -, hrs⟩
  obtain rfl : y = x := by
    rw [hrs] at hx
    exact Option.some.inj hx
  refine .ite (fun _ => ?_) fun hnot => absurd hall hnot
  exact .bind (doesWith_any (does_freeData b)) fun _ _ _ => .pure rfl

/-- The result of a send is positive only if its first write wrote something, and the data is taken. -/
theorem SendEnd.pos_iff (h : SendEnd B i c b a r v a') (hr : c.queue ≠ [] → r = none) (hb : 0 < b.sz)
    (hwhole : ∀ x, r = some x → b.sz ≤ x.ret → v = x.ret) :
    0 < v ↔ a'.slot i ≠ none ∧ ∃ x, r = some x ∧ 0 < x.ret := by
  cases h with
  | whole _ hx hsz =>
    have hv := hwhole _ hx hsz
    exact iff_of_true (by omega) ⟨by simp, _, hx, by omega⟩
  | queued _ hx =>
    refine ⟨fun hpos => ⟨by simp, _, hx, hpos⟩, ?_⟩
    rintro ⟨-, y, hy, hpos⟩
    obtain rfl := Option.some.inj (hx.symm.trans hy)
    exact hpos
  | behind hq =>
    refine iff_of_false (lt_irrefl 0) ?_
    rintro ⟨-, x, hx, -⟩
    cases (hr hq).symm.trans hx
  | exceeded => exact iff_of_false (by decide) fun h => h.1 (Abs.fail_slot ..)
  | broken => exact iff_of_false (by decide) fun h => h.1 (Abs.fail_slot ..)

/-- A call returns a positive number exactly if it takes the data and its first write writes something. -/
theorem SendCall.pos_iff (h : SendCall B op a rs v a') (hb : 0 < op.chunk.sz)
    (hwhole : ∀ c x, a.slot op.target = some c → op.Takes c.protocol c.status →
      firstAnswer c rs = some x → op.chunk.sz ≤ x.ret → v = x.ret) :
    0 < v ↔ ∃ c, a.slot op.target = some c ∧ op.Takes c.protocol c.status ∧
      Accepts c op.chunk (firstAnswer c rs) ∧ ∃ x, firstAnswer c rs = some x ∧ 0 < x.ret := by
  cases h with
  | noSocket hc => exact iff_of_false (by decide) fun ⟨c, hc', _⟩ => by simp [hc] at hc'
  | @status c hc hno =>
    refine iff_of_false (by decide) ?_
    rintro ⟨d, hd, hok, -⟩
    exact hno (Option.some.inj (hc.symm.trans hd) ▸ hok)
  | @sends c _ _ hc hok _ hend =>
    have hfirst : c.queue ≠ [] → firstAnswer c rs = none := fun hq => if_neg hq
    rw [hend.pos_iff hfirst hb (hwhole c · hc hok), ← hend.accepts_iff hfirst hb]
    constructor
    · rintro ⟨hacc, hx⟩
      exact ⟨c, hc, hok, hacc, hx⟩
    · rintro ⟨d, hd, -, hacc, hx⟩
      obtain rfl : c = d := Option.some.inj (hc.symm.trans hd)
      exact ⟨hacc, hx⟩

/-- A send from a world that represents a net that is reached: whether it takes the data, and whether it
returns a positive number. -/
theorem socketSend_tells {id sz : ℤ} {data : Block} (hw : Rep B w w.abs)
    (ha : (changes B).Reach w.abs) (hid : Within w.net.max id) (hd : Supplies (some data) sz)
    (hrun : socketSend B id data sz (w.answer rs) = (.ok v, w')) :
    (Took (.send id data sz) w.abs w'.abs ↔ ∃ c, w.abs.slot id.toNat = some c ∧
        (Op.send id data sz).Takes c.protocol c.status ∧
        Accepts c (Op.send id data sz).chunk (firstAnswer c rs)) ∧
      (0 < v ↔ ∃ c, w.abs.slot id.toNat = some c ∧ (Op.send id data sz).Takes c.protocol c.status ∧
        Accepts c (Op.send id data sz).chunk (firstAnswer c rs) ∧
        ∃ x, firstAnswer c rs = some x ∧ 0 < x.ret) := by
  have hid' : Within w.abs.max id := hw.max_eq ▸ hid
  obtain ⟨⟨a', rs'⟩, ⟨⟨-, rfl⟩, -⟩, hcall⟩ :=
    (doesWith_socketSend (B := B) hid' hd).ok ⟨hw.answer rs, rfl⟩ hrun
  obtain ⟨a'', ⟨-, rfl⟩, hch⟩ :=
    (does_call_changes (B := B) (.send id data sz) ⟨hid', hd⟩).ok (hw.answer rs) hrun
  have hbytes : (Op.send id data sz).chunk.bytes ≠ [] := by
    have hlen : (data.bytes.take sz.toNat).length = sz.toNat := by
      have := hd.2.2
      rw [List.length_take]
      simp only [Option.elim_some] at this
      omega
    intro hnil
    rw [show data.bytes.take sz.toNat = [] from hnil, List.length_nil] at hlen
    have := hd.1
    omega
  refine ⟨hcall.took_iff (reach_streaming ha) (reach_streaming (hch.reach ha)) hbytes hd.1,
    hcall.pos_iff hd.1 fun c x hc hok hx hall => ?_⟩
  have hq : c.queue = [] := by
    by_contra hq
    cases (if_neg hq).symm.trans hx
  obtain ⟨j, rfl⟩ := Int.eq_ofNat_of_zero_le hid.1
  have hi : j < w.abs.max := by
    have := hid'.2
    omega
  obtain ⟨-, -, hv⟩ := (doesWith_socketSend_whole (B := B) hc hi hok.1 hok.2 hq hd.1
    ((if_pos hq).symm.trans hx) hall).ok ⟨hw.answer rs, rfl⟩ hrun
  exact hv

end Lsocket
