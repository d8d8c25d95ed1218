import Lsocket.Lib.Channel
import Lsocket.Net.Course
import Lsocket.Net.HalfClose
import Lsocket.Net.Results

/-!
# From one net to another

Two nets that are joined by a stream, as TCP provides it: what is written to a connection of one is read
from a connection of the other. The queue of the sender, the stream and the reads of the receiver
together lose nothing and change no order, in any interleaving of the calls on both sides.
-/

namespace Lsocket

variable {σ τ : Type} {B : Backend σ} {B' : Backend τ} {a a' : Abs σ} {i j g : ℕ} {c c' : Conn}
variable {op : Op} {v : ℤ} {np np' : σ} {evs log : List Ev} {w w' w₀ : World σ} {l : Call}

/-! ## What a connection has written by its end -/

/-- What was written to the connection in the slot, now or when it was closed, is the beginning of the
data, and all of it if the end of the writing was reported. -/
structure Shipped (i : ℕ) (log : List Ev) : Prop where
  start : wire i log <+: supply i log
  all : .wridoneclose ∈ since i (Ev.told i) log → wire i log = supply i log

/-- What is about other slots offers nothing here. -/
theorem supply_elsewhere (h : ∀ e ∈ evs, e.Elsewhere i) : supply i evs = [] := by
  refine since_eq_nil (fun e he => ⟨(h e he).not_opens, ?_⟩) fun _ _ _ => rfl
  have := h e he
  cases e <;> first | rfl | exact if_neg this

/-- Nothing is reported that no event reports. -/
theorem not_mem_told {x : EventType} (h : ∀ e ∈ evs, x ∉ e.told i) :
    x ∉ since i (Ev.told i) evs := by
  induction evs with
  | nil => exact List.not_mem_nil
  | cons e evs ih =>
    have hrest := ih fun e he => h e (List.mem_cons_of_mem _ he)
    by_cases ho : e.Opens i
    · cases e with
      | opened j fd p =>
        rw [show since i (Ev.told i) (.opened j fd p :: evs) = [] from if_pos ho]
        exact List.not_mem_nil
      | _ => exact ho.elim
    · rw [since_cons ho fun _ _ _ => rfl, List.mem_append]
      exact fun hx => hx.elim hrest (h e List.mem_cons_self)

/-- Nor does it report the end of the writing. -/
theorem Ev.Elsewhere.not_told {e : Ev} (h : e.Elsewhere i) : .wridoneclose ∉ e.told i := by
  cases e with
  | raised e =>
    rcases h with h | h
    · simp [Ev.told, h]
    · show EventType.wridoneclose ∉ if e.id = i then [e.type] else []
      split <;> simp [h.2.symm]
  | _ => exact List.not_mem_nil

/-- Events that open no slot, and report no end of the writing. -/
theorem told_append (hopens : ∀ e ∈ evs, ¬ e.Opens i) (h : ∀ e ∈ evs, .wridoneclose ∉ e.told i) :
    .wridoneclose ∈ since i (Ev.told i) (evs ++ log) ↔ .wridoneclose ∈ since i (Ev.told i) log := by
  rw [since_append hopens fun _ _ _ => rfl, List.mem_append, or_iff_left (not_mem_told h)]

/-- Events that say nothing of the stream. -/
theorem Shipped.append (h : Shipped i log) (hopens : ∀ e ∈ evs, ¬ e.Opens i)
    (hwire : wire i evs = []) (hsupply : supply i evs = [])
    (htold : ∀ e ∈ evs, .wridoneclose ∉ e.told i) : Shipped i (evs ++ log) := by
  refine ⟨?_, fun hdone => ?_⟩
  · rw [wire_append hopens, supply_append hopens, hwire, hsupply, List.append_nil, List.append_nil]
    exact h.start
  · rw [wire_append hopens, supply_append hopens, hwire, hsupply, List.append_nil, List.append_nil]
    exact h.all ((told_append hopens htold).mp hdone)

/-- A connection that was just opened has nothing to write. -/
theorem shipped_opened (fd : ℤ) (p : Protocol) (log : List Ev) : Shipped i (.opened i fd p :: log) := by
  obtain ⟨hwire, hsupply⟩ := flow_opened_self (i := i) fd p log
  exact ⟨by rw [hwire, hsupply], fun _ => hwire.trans hsupply.symm⟩

/-- The slot is in order, and it was whenever it was given to a new connection. -/
structure Ships (i : ℕ) (a : Abs σ) : Prop where
  now : Shipped i a.log
  free : .wridoneclose ∈ since i (Ev.told i) a.log → a.slot i = none
  past : History (fun e past => e.Opens i → Shipped i past) a.log

/-- The end of a connection says nothing of the stream. -/
theorem closed_quiet : ∀ e ∈ closeEvs c ++ [.closed i c.fd c.mask],
    (e.Silent ∧ ¬ e.Opens i) ∧ .wridoneclose ∉ e.told i := by
  intro e he
  have hs : e.Silent ∧ e.Unreported := by
    rcases List.mem_append.mp he with he | he
    · exact ⟨closeEvs_silent e he, closeEvs_unreported e he⟩
    · exact List.mem_singleton.mp he ▸ ⟨trivial, trivial⟩
  exact ⟨⟨hs.1, hs.1.not_opens⟩, by rw [hs.2.told]; exact List.not_mem_nil⟩

/-- A connection that stays has the rest in its queue. -/
theorem Streaming.shipped (h : Streaming a) (hc : a.slot i = some c) :
    wire i a.log <+: supply i a.log :=
  h.conn i c hc ▸ List.prefix_append ..

/-- Before a connection ends, what it wrote is the beginning of what was offered; and all of it, if the
end of the writing is reported. -/
theorem Closing.shipped (h : Closing B op v i c np c' np' evs)
    (hopen : .wridoneclose ∉ since i (Ev.told i) log) (hq : c.Queued)
    (hc : wire i log ++ streams c.queue = supply i log) : Shipped i (evs ++ log) := by
  have hopens : ∀ e ∈ evs, ¬ e.Opens i := fun e he => (h.about e he).steady.not_opens
  refine ⟨?_, ?_⟩
  · rw [wire_append hopens, supply_append hopens, ← hc, List.append_assoc]
    exact (List.prefix_append_right_inj _).mpr (h.flows hq)
  -- only `finished` tells the program that all was written; the other ends tell it nothing
  have hlocal {evs : List Ev} (hevs : ∀ e ∈ evs, e.Local i) :
      .wridoneclose ∉ since i (Ev.told i) (evs ++ log) := by
    rw [told_append fun e he => (hevs e he).steady.not_opens]
    · exact hopen
    · exact fun e he => by rw [(hevs e he).unreported.told]; exact List.not_mem_nil
  cases h with
  | forced | idle | destroyed | unread | unconnected => exact fun hd => absurd hd hopen
  | unsent h =>
    refine fun hd => absurd hd (hlocal fun e he => ?_)
    rcases List.mem_append.mp he with he | he
    · exact Chunk.freed_local _ e he
    · rcases List.mem_append.mp he with he | he
      · exact wrote_local _ _ _ e he
      · exact List.mem_singleton.mp he ▸ rfl
  | broken _ _ _ h =>
    intro hd
    rw [List.cons_append, since_cons id fun _ _ _ => rfl, List.mem_append] at hd
    refine absurd hd (not_or.mpr ⟨hlocal h.events_local, ?_⟩)
    simp [Ev.told]
  | @finished _ _ evs _ _ _ _ h hdone =>
    intro _
    obtain ⟨-, hflow, hoff⟩ := h.flows hq
    have hopens : ∀ e ∈ evs, ¬ e.Opens i := fun e he => (h.events_local e he).steady.not_opens
    have hall : wire i (evs ++ log) = supply i (evs ++ log) := by
      rw [wire_append hopens, supply_append hopens, hoff, List.append_nil, ← hc, ← hflow, hdone,
        streams_nil, List.append_nil]
    exact congrArg (· ++ []) hall

/-- Every change keeps the account of the connection in the slot. -/
theorem Ships.change (h : Ships i a) (ha : (changes B).Reach a) (hch : Change B op v a a') :
    Ships i a' := by
  have hstream := reach_streaming ha
  have hstream' := reach_streaming (ha.step (l := ⟨op, v⟩) hch)
  rcases hch.course i with ⟨evs, hslot, hlog, hevs⟩ | @⟨c, c', np', evs, hc, hs⟩ |
    @⟨c, c', np', evs, hc, hs⟩ |
    @⟨rest, fd, slimit, udata, protocol, rlimit, c, np, evs, hn, hm⟩ |
    @⟨rest, fd, slimit, udata, protocol, rlimit, r, mask, new, np, evs, hn, hs⟩
  -- elsewhere: the log grows by nothing of slot `i`
  · have hopens : ∀ e ∈ evs, ¬ e.Opens i := fun e he => (hevs e he).not_opens
    have htold : ∀ e ∈ evs, .wridoneclose ∉ e.told i := fun e he => (hevs e he).not_told
    refine ⟨?_, fun hd => ?_, ?_⟩ <;> rw [hlog] at *
    · exact h.now.append hopens (wire_elsewhere hevs) (supply_elsewhere hevs) htold
    · exact hslot.trans (h.free ((told_append hopens htold).mp hd))
    · exact h.past.append fun e he _ ho => absurd ho (hopens e he)
  -- a step: the connection is still there, so its end has not been told
  · have hopens : ∀ e ∈ evs, ¬ e.Opens i := fun e he => (hs.about e he).steady.not_opens
    have hnot : .wridoneclose ∉ since i (Ev.told i) (evs ++ a.log) := by
      rw [told_append hopens]
      · exact fun hd => absurd ((h.free hd).symm.trans hc) (Option.some_ne_none _).symm
      · exact fun e he => by rw [(hs.unreported e he).told]; exact List.not_mem_nil
    refine ⟨⟨?_, fun hd => absurd hd hnot⟩, fun hd => absurd hd hnot, ?_⟩
    · exact hstream'.shipped (Abs.put_slot_self ..)
    · exact h.past.append fun e he _ ho => absurd ho (hopens e he)
  · have hopens : ∀ e ∈ evs, ¬ e.Opens i := fun e he => (hs.about e he).steady.not_opens
    have hnot : .wridoneclose ∉ since i (Ev.told i) a.log := fun hd =>
      absurd ((h.free hd).symm.trans hc) (Option.some_ne_none _).symm
    -- the end: closing itself only logs what it frees
    have hship : Shipped i (evs ++ a.log) :=
      hs.shipped hnot (hstream.queued i _ hc) (hstream.conn i _ hc)
    have hquiet := closed_quiet (i := i) (c := c')
    have hlog : ((a.put i c' np' evs).close i B c').log =
        (closeEvs c' ++ [.closed i c'.fd c'.mask]) ++ (evs ++ a.log) := by
      rw [Abs.close_log, List.append_assoc]
      rfl
    refine ⟨?_, fun _ => ?_, ?_⟩
    · rw [hlog]
      exact hship.append (fun e he => (hquiet e he).1.2) (wire_silent fun e he => (hquiet e he).1.1)
        (supply_silent fun e he => (hquiet e he).1.1) fun e he => (hquiet e he).2
    · rw [Abs.close_slot, Function.update_self]
    · rw [hlog]
      exact (h.past.append fun e he _ ho => absurd ho (hopens e he)).append
        fun e he _ ho => absurd ho (hquiet e he).1.2
  -- a new connection: what the old one shipped becomes part of the past
  · have hlocal : ∀ e ∈ evs, ¬ e.Opens i ∧ e.told i = [] := fun e he =>
      ⟨(hm.events_local e he).steady.not_opens, (hm.events_local e he).unreported.told⟩
    have hnot : .wridoneclose ∉ since i (Ev.told i) (evs ++ .opened i fd (protocolOf protocol) :: a.log) := by
      rw [told_append fun e he => (hlocal e he).1]
      · rw [show since i (Ev.told i) (.opened i fd (protocolOf protocol) :: a.log) = [] from if_pos rfl]
        exact List.not_mem_nil
      · exact fun e he => by rw [(hlocal e he).2]; exact List.not_mem_nil
    refine ⟨⟨?_, fun hd => absurd hd hnot⟩, fun hd => absurd hd hnot, ?_⟩
    · exact hstream'.shipped (Abs.put_slot_self ..)
    · exact History.append ⟨fun _ => h.now, h.past⟩ fun e he _ ho => absurd ho (hlocal e he).1
  -- opened and closed again: it shipped nothing
  · have hquiet := closed_quiet (i := i) (c := newConn fd slimit udata protocol rlimit)
    have hlocal := hs.events_local
    have hlog := Abs.close_log (B := B) (i := i) (c := newConn fd slimit udata protocol rlimit)
      (a := (a.create i rest (newConn fd slimit udata protocol rlimit)).put i
        (newConn fd slimit udata protocol rlimit) np evs)
    rw [List.append_cons] at hlog
    refine ⟨?_, fun _ => ?_, ?_⟩
    · rw [hlog]
      refine ((shipped_opened fd (protocolOf protocol) a.log).append ?_ ?_ ?_ ?_).append ?_ ?_ ?_ ?_
      · exact fun e he => (hlocal e he).steady.not_opens
      · exact wire_silent hs.silent
      · exact supply_silent hs.silent
      · exact fun e he => by rw [(hlocal e he).unreported.told]; exact List.not_mem_nil
      · exact fun e he => (hquiet e he).1.2
      · exact wire_silent fun e he => (hquiet e he).1.1
      · exact supply_silent fun e he => (hquiet e he).1.1
      · exact fun e he => (hquiet e he).2
    · rw [Abs.close_slot, Function.update_self]
    · rw [hlog]
      refine History.append (History.append ⟨fun _ => h.now, h.past⟩ ?_) ?_
      · exact fun e he _ ho => absurd ho (hlocal e he).steady.not_opens
      · exact fun e he _ ho => absurd ho (hquiet e he).1.2

/-- In every run, what was written to a connection is the beginning of what was offered. -/
theorem reach_ships (h : (changes B).Reach a) (i : ℕ) : Ships i a := by
  refine h.invariant (I := Ships i) ?_ fun a l a' hr ih hs => ih.change hr hs
  rintro _ ⟨max, -, rfl⟩
  exact ⟨⟨List.prefix_rfl, fun _ => rfl⟩, fun _ => rfl, trivial⟩

/-- Every connection that a slot has held. -/
theorem Ships.upTo (h : Ships i a) (g : ℕ) : Shipped i (upTo i g a.log) := by
  rcases upTo_ends i g a.log with heq | ⟨post, fd, p, hlog⟩
  · rw [heq]
    exact h.now
  · have hpast := h.past
    rw [hlog] at hpast
    exact hpast.at_event rfl

/-! ## What the caller of a read gets -/

/-- The bytes that are handed to the caller of a read on the slot. -/
def Ev.heard (j : ℕ) : Ev → List UInt8
  | .received k bytes _ => if k = j then bytes else []
  | _ => []

/-- All that was read from the connection `g` of slot `j`. -/
def heard (j g : ℕ) (log : List Ev) : List UInt8 := since j (Ev.heard j) (upTo j g log)

theorem Ev.Mute.heard {e : Ev} (h : e.Mute j) : e.heard j = [] := by
  cases e <;> first | rfl | exact if_neg h

/-- The slot holds the connection `g`, and a read hands out what has arrived: on TCP, a half-closed
connection throws it away. -/
def Abs.Attends (a : Abs σ) (j g : ℕ) : Prop :=
  generation j a.log = g ∧ ∃ c, a.slot j = some c ∧ ¬ (c.protocol = .tcp ∧ c.status = .halfclose)

/-- Events that hand nothing over. -/
theorem heard_append (hg : generation j log = g) (hopens : ∀ e ∈ evs, ¬ e.Opens j)
    (h : ∀ e ∈ evs, e.heard j = []) : heard j g (evs ++ log) = heard j g log := by
  have hle : generation j (evs ++ log) ≤ g := by
    rw [(generation_ignores j).append hopens, hg]
  rw [heard, heard, upTo_of_le hle, upTo_of_le hg.le, since_append hopens fun _ _ _ => rfl,
    since_eq_nil (fun e he => ⟨hopens e he, h e he⟩) fun _ _ _ => rfl, List.append_nil]

/-- A later connection in the slot does not count. -/
theorem heard_opened (hg : generation j log = g) (fd : ℤ) (p : Protocol) (evs : List Ev) :
    g < generation j (evs ++ .opened j fd p :: log) ∧
      heard j g (evs ++ .opened j fd p :: log) = heard j g log := by
  have hlt : g < generation j (.opened j fd p :: log) := by
    rw [generation_opens (e := .opened j fd p) rfl, hg]
    exact Nat.lt_succ_self g
  refine ⟨hlt.trans_le (generation_le ..), ?_⟩
  rw [heard, heard, upTo_append_of_lt hlt, upTo_cons_of_lt hlt]

/-- Nothing is read from a connection that no longer attends, and it does not attend again. -/
theorem Change.deaf (h : Change B op v a a') (ha : (changes B).Reach a) (hg : g ≤ generation j a.log)
    (hn : ¬ a.Attends j g) : ¬ a'.Attends j g ∧ heard j g a'.log = heard j g a.log := by
  have hopen {log : List Ev} (hlt : g < generation j log) (hlog : a'.log = log) : ¬ a'.Attends j g :=
    fun hatt => by
      have := hatt.1
      rw [hlog] at this
      omega
  -- an earlier generation is over: whatever happens is not for it
  rcases hg.lt_or_eq with hlt | heq
  · obtain ⟨evs, hlog⟩ := h.log_suffix
    refine ⟨hopen (hlt.trans_le (generation_le j evs a.log)) hlog.symm, ?_⟩
    rw [← hlog, heard, heard, upTo_append_of_lt hlt]
  rcases h.course j with ⟨evs, hslot, hlog, hevs⟩ | @⟨c, c', np', evs, hc, hs⟩ |
    @⟨c, c', np', evs, hc, hs⟩ |
    @⟨rest, fd, slimit, udata, protocol, rlimit, c, np, evs, hn, hm⟩ |
    @⟨rest, fd, slimit, udata, protocol, rlimit, r, mask, new, np, evs, hn, hs⟩
  · have hopens : ∀ e ∈ evs, ¬ e.Opens j := fun e he => (hevs e he).not_opens
    refine ⟨fun ⟨hgen, hatt⟩ => hn ⟨heq.symm, hslot ▸ hatt⟩, ?_⟩
    rw [hlog]
    exact heard_append heq.symm hopens fun e he => (hevs e he).mute.heard
  -- of the present generation only a half-closed TCP connection does not attend
  · have hhalf : c.protocol = .tcp ∧ c.status = .halfclose := by
      by_contra h
      exact hn ⟨heq.symm, c, hc, h⟩
    obtain ⟨hs', hp', hmute, -⟩ := hs.mute hhalf.2 (reach_settled ha j _ hc)
      ((reach_streaming ha).queued j _ hc) fun hp => by rw [hhalf.1] at hp; cases hp
    refine ⟨?_, heard_append heq.symm (fun e he => (hmute e he).not_opens) fun e he => (hmute e he).heard⟩
    rintro ⟨-, d, hd, hatt⟩
    obtain rfl := Option.some.inj ((Abs.put_slot_self ..).symm.trans hd)
    exact hatt ⟨hp'.trans hhalf.1, hs'⟩
  · have hhalf : c.protocol = .tcp ∧ c.status = .halfclose := by
      by_contra h
      exact hn ⟨heq.symm, c, hc, h⟩
    have hquiet : ∀ e ∈ evs, e.heard j = [] := by
      rcases hs.mute hhalf.2 (reach_settled ha j _ hc) ((reach_streaming ha).queued j _ hc)
        with ⟨hmute, -⟩ | ⟨e, evs', rfl, -, hmute, -⟩
      · exact fun e he => (hmute e he).heard
      · exact List.forall_mem_cons.mpr ⟨rfl, fun e he => (hmute e he).heard⟩
    refine ⟨?_, ?_⟩
    · rintro ⟨-, d, hd, -⟩
      rw [Abs.close_slot, Function.update_self] at hd
      cases hd
    · have hlog : ((a.put j c' np' evs).close j B c').log =
          (closeEvs c' ++ [.closed j c'.fd c'.mask] ++ evs) ++ a.log := by
        rw [Abs.close_log, List.append_cons, List.append_assoc _ evs]
        rfl
      rw [hlog]
      refine heard_append heq.symm (fun e he => ?_) fun e he => ?_
      · rcases List.mem_append.mp he with he | he
        · exact (closed_quiet e he).1.2
        · exact (hs.about e he).steady.not_opens
      · rcases List.mem_append.mp he with he | he
        · rcases List.mem_append.mp he with he | he
          · rcases mem_closeEvs he with ⟨token, rfl⟩ | rfl <;> rfl
          · exact List.mem_singleton.mp he ▸ rfl
        · exact hquiet e he
  · have := heard_opened heq.symm fd (protocolOf protocol) evs
    exact ⟨hopen this.1 rfl, this.2⟩
  · have hlog := Abs.close_log (B := B) (i := j) (c := newConn fd slimit udata protocol rlimit)
      (a := (a.create j rest (newConn fd slimit udata protocol rlimit)).put j
        (newConn fd slimit udata protocol rlimit) np evs)
    have hlog := hlog.trans (List.append_assoc (closeEvs _) (_ :: evs) (_ :: a.log)).symm
    have := heard_opened heq.symm fd (protocolOf protocol)
      (closeEvs (newConn fd slimit udata protocol rlimit) ++ .closed j fd .none :: evs)
    exact ⟨hopen this.1 hlog, hlog ▸ this.2⟩

/-- Induction over the changes of a call. -/
theorem Changes.deaf (h : Changes B op v a a') (ha : (changes B).Reach a)
    (hg : g ≤ generation j a.log) (hn : ¬ a.Attends j g) :
    ¬ a'.Attends j g ∧ heard j g a'.log = heard j g a.log := by
  induction h with
  | refl => exact ⟨hn, rfl⟩
  | tail hab hch ih =>
    obtain ⟨evs, hlog⟩ := Changes.log_suffix hab
    have hle := hg.trans (generation_le j evs _)
    obtain ⟨hn', hsame⟩ := hch.deaf (Changes.reach hab ha) (hlog ▸ hle) ih.1
    exact ⟨hn', hsame.trans ih.2⟩

/-! ## Two nets and a stream -/

/-- The slot holds the connection `g`, and reads on it hand out what has arrived. -/
def World.Attends (w : World σ) (j g : ℕ) : Prop :=
  w.Live j ∧ generation j w.log = g ∧
    ¬ ((w.net.sockets j).protocol = .tcp ∧ (w.net.sockets j).status = .halfclose)

/-- What a world attends its net attends. -/
theorem World.attends_iff : w.Attends j g ↔ w.abs.Attends j g := by
  constructor
  · rintro ⟨hl, hg, hn⟩
    exact ⟨hg, _, if_pos hl, hn⟩
  · rintro ⟨hg, c, hc, hn⟩
    by_cases hl : w.Live j
    · obtain rfl := Option.some.inj ((if_pos hl).symm.trans hc)
      exact ⟨hl, hg, hn⟩
    · cases (if_neg hl).symm.trans hc

/-- The data of the sends on the connection `g` of slot `i`. -/
def givenTo (i g : ℕ) (log : List Ev) : List UInt8 := (supply i (upTo i g log)).map Prod.fst

/-- The bytes written to the connection `g` of slot `i`. -/
def writtenTo (i g : ℕ) (log : List Ev) : List UInt8 := (wire i (upTo i g log)).map Prod.fst

/-- In a run from a world that was reached, the log grows. -/
theorem log_suffix_of_startedIn (h₀ : (net B).Reach w₀) (h : ((net B).startedIn w₀).Reach w) :
    w₀.log <:+ w.log := by
  refine h.invariant (I := fun w => w₀.log <:+ w.log) (fun w hw => ?_) fun w l w' hr ih hs => ?_
  · obtain rfl : w = w₀ := hw
    exact List.suffix_rfl
  · exact ih.trans (log_suffix (.of_startedIn h₀ hr) hs)

/-- So does the number of connections that a slot has had. -/
theorem generation_le_of_startedIn (h₀ : (net B).Reach w₀) (h : ((net B).startedIn w₀).Reach w) :
    generation i w₀.log ≤ generation i w.log := by
  obtain ⟨evs, hlog⟩ := log_suffix_of_startedIn h₀ h
  exact hlog ▸ generation_le i evs w₀.log

/-- The connection in slot `i` of `w₀`, as a source of bytes. -/
def sending (h₀ : (net B).Reach w₀) (i : ℕ) : Channel.Source (World σ) Call UInt8 where
  toSystem := (net B).startedIn w₀
  out w := writtenTo i (generation i w₀.log) w.log
  grows h hs := by
    obtain ⟨evs, hlog⟩ := log_suffix (.of_startedIn h₀ h) hs
    rw [← hlog]
    exact (since_upTo_le (fun _ _ _ => rfl) (generation_le_of_startedIn h₀ h) evs).map Prod.fst

/-- The connection in slot `j` of `w₀`, as a sink of bytes. -/
def receiving (h₀ : (net B).Reach w₀) (j : ℕ) : Channel.Sink (World σ) Call UInt8 where
  toSystem := (net B).startedIn w₀
  taken w := heard j (generation j w₀.log) w.log
  attends w := w.Attends j (generation j w₀.log)
  grows h hs := by
    obtain ⟨evs, hlog⟩ := log_suffix (.of_startedIn h₀ h) hs
    rw [← hlog]
    exact since_upTo_le (fun _ _ _ => rfl) (generation_le_of_startedIn h₀ h) evs
  deaf h hn hs := by
    have hreach : (net B).Reach _ := .of_startedIn h₀ h
    obtain ⟨hrep, habs⟩ := reach_abs hreach
    obtain ⟨hn', hsame⟩ := (step_changes hrep hs).2.deaf habs (generation_le_of_startedIn h₀ h)
      (World.attends_iff.not.mp hn)
    exact ⟨World.attends_iff.not.mpr hn', hsame⟩

/-- What the reads on the connection `h` of slot `j` have returned, against the sends on the connection
`g` of slot `i` in the other net. -/
structure EndToEnd (i g j h : ℕ) (s : Channel.State (World σ) (World τ) UInt8) : Prop where
  /-- What was read is the beginning of the data. -/
  order : heard j h s.receiver.log <+: givenTo i g s.sender.log
  /-- As long as both connections last, the rest is on its way or queued. -/
  rest : s.whole = true → s.receiver.Attends j h → s.sender.Live i →
    generation i s.sender.log = g →
    heard j h s.receiver.log ++ s.inflight ++ (s.sender.queue i).flatMap Chunk.bytes
      = givenTo i g s.sender.log
  /-- When the end of the writing is reported, the rest is on its way. -/
  drained : s.whole = true → s.receiver.Attends j h → .wridoneclose ∈ told i g s.sender.log →
    heard j h s.receiver.log ++ s.inflight = givenTo i g s.sender.log

/-- A net whose slot `i` is joined to slot `j` of another by a stream, from a time when nothing was
written or read: in every interleaving of any calls on both nets, with any other connections, what is
read is what was sent, in order, and nothing is lost but with the stream or a connection. -/
theorem end_to_end {v₀ : World τ} {s : Channel.State (World σ) (World τ) UInt8}
    (hw : (net B).Reach w₀) (hv : (net B').Reach v₀)
    (h : (Channel.system (sending hw i) (receiving hv j)).Reach s) :
    EndToEnd i (generation i w₀.log) j (generation j v₀.log) s := by
  have hsender : (net B).Reach s.sender := .of_startedIn hw (Channel.reach_sender h)
  obtain ⟨htaken, -, hwhole⟩ := Channel.reach_conserved h
  have hships : Shipped i (upTo i (generation i w₀.log) s.sender.log) :=
    (reach_ships (reach_abs hsender).2 i).upTo _
  refine ⟨htaken.trans (hships.start.map Prod.fst), fun hw' hatt hlive hgen => ?_,
    fun hw' hatt hdone => ?_⟩
  · have hout := hwhole hatt hw'
    obtain ⟨-, hstream⟩ := reach_queued hsender hlive
    have hout : heard j _ s.receiver.log ++ s.inflight = writtenTo i _ s.sender.log := hout
    rw [hout, givenTo, writtenTo, upTo_of_le hgen.le, ← map_fst_streams, ← List.map_append, hstream]
  · have hout : heard j _ s.receiver.log ++ s.inflight = writtenTo i _ s.sender.log := hwhole hatt hw'
    rw [hout, givenTo, writtenTo, hships.all hdone]

/-- A short write of three bytes. -/
def sentTwo : World Epoll :=
  boundTcp.next epoll (.send 0 ⟨1, [1, 2, 3]⟩ 3) [{ ret := 2 }, { addr := 0 }, { ret := 0 }]

/-- One of two bytes is read. -/
def readOne : World Epoll := boundTcp.next epoll (.read 0) [{ ret := 1, bytes := [1] }]

/-- One byte is read, one is on its way and one is queued. -/
theorem end_to_end_partial : EndToEnd 0 1 0 1 ⟨sentTwo, readOne, [2], true⟩ := by
  have hbound : (net epoll).Reach boundTcp := reach_fresh (by decide)
  let C := sending hbound 0
  let D := receiving hbound 0
  have hnone : writtenTo 0 (generation 0 boundTcp.log) boundTcp.log = [] ∧
      heard 0 (generation 0 boundTcp.log) boundTcp.log = [] := by decide
  have hsent : writtenTo 0 (generation 0 boundTcp.log) sentTwo.log
      = writtenTo 0 (generation 0 boundTcp.log) boundTcp.log ++ [1, 2] := by decide +kernel
  have hread : heard 0 (generation 0 boundTcp.log) readOne.log
      = heard 0 (generation 0 boundTcp.log) boundTcp.log ++ [1] := by decide +kernel
  have hinit : (Channel.system C D).Reach ⟨boundTcp, boundTcp, [], true⟩ :=
    .init ⟨rfl, rfl, hnone.1, hnone.2, rfl, rfl⟩
  have hput : Channel.Step C D ⟨boundTcp, boundTcp, [], true⟩
      (some (.inl ⟨.send 0 ⟨1, [1, 2, 3]⟩ 3, 2⟩)) ⟨sentTwo, boundTcp, [] ++ [1, 2], true⟩ :=
    .put (step_next _ (by decide) (by decide) (by decide +kernel)) hsent
  have htake : Channel.Step C D ⟨sentTwo, boundTcp, [1] ++ ([] ++ [2]), true⟩ (some (.inr ⟨.read 0, 1⟩))
      ⟨sentTwo, readOne, [2], true⟩ :=
    .take (step_next _ (by decide) (by decide) (by decide +kernel))
      hread (absurd rfl)
  exact end_to_end hbound hbound ((hinit.step hput).step htake)

end Lsocket
