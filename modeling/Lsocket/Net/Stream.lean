import Lsocket.Net.Fate
import Lsocket.Net.Epoll
import Mathlib.Algebra.Order.BigOperators.Group.List

/-!
# What is sent, and what is left to send

The bytes that were written to a connection, followed by the bytes of its queue, are the data of all
sends on it. A byte carries the descriptor that is attached to it, if any, so that the equation
holds of descriptors as well.
-/

namespace Lsocket

open CInt

variable {σ : Type} {B : Backend σ} {w : World σ} {a a' : Abs σ} {i j : ℕ} {c c' : Conn} {op : Op}
variable {np np' : σ} {evs log : List Ev} {v : ℤ}

/-! ## Bytes with descriptors -/

/-- A byte, and the descriptor that travels with it. -/
abbrev TaggedByte : Type := UInt8 × Option ℤ

/-- Bytes that are sent with a descriptor attached: the first one carries it. -/
def tag (cfd : ℤ) : List UInt8 → List TaggedByte
  | [] => []
  | b :: bs => (b, if 0 ≤ cfd then some cfd else none) :: bs.map fun b => (b, none)

theorem tag_neg_one (bs : List UInt8) : tag (-1) bs = bs.map fun b => (b, none) := by
  cases bs <;> rfl

/-- Only the first of several sends of the same bytes attaches the descriptor. -/
theorem tag_append {cfd : ℤ} {bs : List UInt8} (h : bs ≠ []) (bs' : List UInt8) :
    tag cfd (bs ++ bs') = tag cfd bs ++ tag (-1) bs' := by
  obtain ⟨b, bs, rfl⟩ := List.exists_cons_of_ne_nil h
  rw [tag_neg_one, List.cons_append, tag, tag, List.map_append, List.cons_append]

/-- Without the descriptors these are the bytes. -/
theorem map_fst_tag (cfd : ℤ) (bs : List UInt8) : (tag cfd bs).map Prod.fst = bs := by
  cases bs with
  | nil => rfl
  | cons b bs => simp [tag, Function.comp_def]

/-- What a chunk stands for. -/
def Chunk.stream (b : Chunk) : List TaggedByte := tag b.fd b.bytes

/-- What a queue stands for. -/
def streams (q : List Chunk) : List TaggedByte := q.flatMap Chunk.stream

@[simp] theorem streams_nil : streams [] = [] := rfl

@[simp] theorem streams_cons (b : Chunk) (q : List Chunk) :
    streams (b :: q) = b.stream ++ streams q := rfl

@[simp] theorem streams_append (q q' : List Chunk) : streams (q ++ q') = streams q ++ streams q' :=
  List.flatMap_append

/-! ## What the log says -/

/-- What an event writes to the slot `i`. -/
def Ev.written (i : ℕ) : Ev → List TaggedByte
  | .sent j bytes cfd => if j = i then tag cfd bytes else []
  | _ => []

/-- What an event offers to the slot `i`. -/
def Ev.offering (i : ℕ) : Ev → List TaggedByte
  | .offered j b => if j = i then b.stream else []
  | _ => []

/-- What was written to the connection in a slot. -/
abbrev wire (i : ℕ) : List Ev → List TaggedByte := since i (Ev.written i)

/-- The data of the sends on the connection in a slot that were not rejected. -/
abbrev supply (i : ℕ) : List Ev → List TaggedByte := since i (Ev.offering i)

/-- What was written to the present connection, in two parts. -/
theorem wire_append (h : ∀ e ∈ evs, ¬ e.Opens i) : wire i (evs ++ log) = wire i log ++ wire i evs :=
  since_append h fun _ _ _ => rfl

/-- What was offered to it, in two parts. -/
theorem supply_append (h : ∀ e ∈ evs, ¬ e.Opens i) :
    supply i (evs ++ log) = supply i log ++ supply i evs :=
  since_append h fun _ _ _ => rfl

/-- An event that neither writes nor offers. -/
def Ev.Silent : Ev → Prop
  | .sent .. | .offered .. | .opened .. => False
  | _ => True

theorem Ev.Silent.not_opens {e : Ev} (h : e.Silent) : ¬ e.Opens i := by
  cases e <;> first | exact h.elim | exact fun h => h

theorem Ev.Silent.written {e : Ev} (h : e.Silent) : e.written i = [] := by
  cases e <;> first | rfl | exact h.elim

theorem Ev.Silent.offering {e : Ev} (h : e.Silent) : e.offering i = [] := by
  cases e <;> first | rfl | exact h.elim

/-- Silent events write nothing. -/
theorem wire_silent (h : ∀ e ∈ evs, e.Silent) : wire i evs = [] :=
  since_eq_nil (fun e he => ⟨(h e he).not_opens, (h e he).written⟩) fun _ _ _ => rfl

theorem supply_silent (h : ∀ e ∈ evs, e.Silent) : supply i evs = [] :=
  since_eq_nil (fun e he => ⟨(h e he).not_opens, (h e he).offering⟩) fun _ _ _ => rfl

/-- Events about one slot say nothing of the others. -/
theorem wire_other (hij : j ≠ i) (h : ∀ e ∈ evs, e.About j) : wire i evs = [] := by
  refine since_eq_nil (fun e he => ⟨(h e he).steady.not_opens, ?_⟩) fun _ _ _ => rfl
  have := h e he
  cases e <;> first | rfl | exact if_neg fun h' => hij (Eq.trans (Eq.symm this) h')

theorem supply_other (hij : j ≠ i) (h : ∀ e ∈ evs, e.About j) : supply i evs = [] := by
  refine since_eq_nil (fun e he => ⟨(h e he).steady.not_opens, ?_⟩) fun _ _ _ => rfl
  have := h e he
  cases e <;> first | rfl | exact if_neg fun h' => hij (Eq.trans (Eq.symm this) h')

theorem Chunk.freed_silent (b : Chunk) : ∀ e ∈ b.freed, e.Silent := by
  unfold Chunk.freed
  rcases b.begin with _ | token <;> simp [Ev.Silent]

theorem Subscribe.silent {fd r : ℤ} {old new mask : Mask}
    (h : Subscribe B i fd old new np r mask np' evs) : ∀ e ∈ evs, e.Silent := by
  cases h <;> simp [Ev.Silent]

theorem closeEvs_silent : ∀ e ∈ closeEvs c, e.Silent := by
  intro e he
  rcases mem_closeEvs he with ⟨token, rfl⟩ | rfl <;> trivial

/-! ## Chunks -/

/-- A chunk with something left to send, and at least that much data. -/
structure Chunk.Ok (p : Protocol) (b : Chunk) : Prop where
  pos : 0 < b.sz
  range : b.sz ≤ INT_MAX
  data : b.sz ≤ b.ptr.elim 1 List.length
  fd : p ≠ .ipc → b.fd = -1

namespace Chunk.Ok

variable {p : Protocol} {b : Chunk} {n : ℤ}

/-- As many bytes are sent as the chunk says. -/
theorem bytes_length (h : b.Ok p) : b.bytes.length = b.sz.toNat := by
  have hd := h.data
  have h0 := h.pos
  unfold Chunk.bytes
  rcases hp : b.ptr with _ | l <;> rw [hp] at hd
  · have : b.sz = 1 := le_antisymm hd h0
    rw [this]
    rfl
  · simp only [Option.elim_some] at hd
    rw [Option.getD_some, List.length_take]
    omega

theorem cfd_eq (h : b.Ok p) : b.cfd p = b.fd := by
  unfold Chunk.cfd
  split
  · rfl
  · next hp => exact (h.fd hp).symm

/-- The whole chunk, in one write. -/
theorem wire_wrote (h : b.Ok p) : wire i (wrote i p b b.sz) = b.stream := by
  rw [wrote, if_pos h.pos, h.cfd_eq]
  show [] ++ (if i = i then tag b.fd _ else []) = _
  rw [if_pos rfl]
  rfl

/-- What a write of a part takes off is what is missing from the rest. -/
theorem wire_wrote_advance (h : b.Ok p) (h0 : 0 ≤ n) (hn : n < b.sz) (hp : p = .ipc → 0 < n) :
    wire i (wrote i p b n) ++ (b.advance p n).stream = b.stream := by
  have hpos := h.pos
  have hrange := h.range
  have hwrap : wrap (b.sz - n) = b.sz - n := wrap_of_nonneg (by omega) (by omega)
  rcases h0.eq_or_lt with rfl | hlt
  · have hne : p ≠ .ipc := fun hi => absurd (hp hi) (lt_irrefl _)
    have hsz : wrap b.sz = b.sz := wrap_of_nonneg hpos.le hrange
    have hptr : b.ptr.map (List.drop (0 : ℤ).toNat) = b.ptr := by
      rcases b.ptr with _ | l <;> rfl
    have hadv : b.advance p 0 = b := by
      simp only [Chunk.advance, Int.sub_zero, hsz, if_neg hne, hptr]
    rw [wrote, if_neg (lt_irrefl _), hadv]
    rfl
  · have hd := h.data
    rcases hl : b.ptr with _ | l <;> rw [hl] at hd
    · simp only [Option.elim_none] at hd
      omega
    simp only [Option.elim_some] at hd
    have hfd : (b.advance p n).fd = -1 := by
      show (if p = .ipc then -1 else b.fd) = -1
      split
      · rfl
      · next hne => exact h.fd hne
    have hw : wire i (wrote i p b n) = tag b.fd (l.take n.toNat) := by
      rw [wrote, if_pos hlt, h.cfd_eq, hl]
      show [] ++ (if i = i then tag b.fd _ else []) = _
      rw [if_pos rfl]
      rfl
    -- the rest goes on without the descriptor, which went with the first byte
    have hbytes : (b.advance p n).bytes = (l.drop n.toNat).take (b.sz - n).toNat := by
      simp only [Chunk.bytes, Chunk.advance, hl, hwrap, Option.map_some, Option.getD_some]
    have hall : b.bytes = l.take n.toNat ++ (l.drop n.toNat).take (b.sz - n).toNat := by
      rw [Chunk.bytes, hl, Option.getD_some, show b.sz.toNat = n.toNat + (b.sz - n).toNat by omega,
        List.take_add]
    have hne : l.take n.toNat ≠ [] := by
      rw [Ne, ← List.length_eq_zero_iff, List.length_take]
      omega
    rw [Chunk.stream, Chunk.stream, hfd, hbytes, hw, hall, tag_append hne]

/-- What is left of a chunk is in order. -/
theorem advance (h : b.Ok p) (h0 : 0 ≤ n) (hn : n < b.sz) : (b.advance p n).Ok p := by
  have hpos := h.pos
  have hrange := h.range
  have hwrap : wrap (b.sz - n) = b.sz - n := wrap_of_nonneg (by omega) (by omega)
  refine ⟨?_, ?_, ?_, fun hp => ?_⟩
  · show 0 < wrap (b.sz - n)
    omega
  · exact (wrap_range _).2
  · show wrap (b.sz - n) ≤ (b.ptr.map (List.drop n.toNat)).elim 1 List.length
    have hd := h.data
    rcases hl : b.ptr with _ | l <;> rw [hl] at hd
    · simp only [Option.elim_none, Option.map_none] at hd ⊢
      omega
    · simp only [Option.elim_some, Option.map_some, List.length_drop] at hd ⊢
      omega
  · show (if p = .ipc then -1 else b.fd) = -1
    rw [if_neg hp]
    exact h.fd hp

/-- It is shorter by what was written. -/
theorem advance_sz (h : b.Ok p) (h0 : 0 ≤ n) (hn : n < b.sz) : (b.advance p n).sz = b.sz - n := by
  have hrange := h.range
  exact wrap_of_nonneg (by omega) (by omega)

end Chunk.Ok

/-- A chunk that is sent is in order. -/
theorem Sends.ok {b : Chunk} (h : Sends i c b op) : b.Ok c.protocol := by
  cases h with
  | send hdata hp _ hb =>
    subst hb
    exact ⟨hdata.1, hdata.2.1, hdata.2.2, fun _ => rfl⟩
  | @sendfd data _ _ hdata hp hb =>
    subst hb
    refine ⟨hdata.1, hdata.2.1, ?_, fun hne => absurd hp hne⟩
    have := hdata.2.2
    rcases data with _ | data <;> exact this

/-! ## The flow of a step -/

/-- The queue of a connection is in order, and its size is accounted for. -/
structure Conn.Queued (c : Conn) : Prop where
  ok : ∀ b ∈ c.queue, b.Ok c.protocol
  size : c.sbuffersz = wrap (c.queue.map Chunk.sz).sum

/-- What the events write was in the queue or is offered by them, and the rest is in the queue. -/
def Flows (i : ℕ) (c c' : Conn) (evs : List Ev) : Prop :=
  wire i evs ++ streams c'.queue = streams c.queue ++ supply i evs

/-- A drain writes what it takes off the queue, in order. -/
theorem Drain.flows (h : Drain i c c' evs) (hc : c.Queued) :
    c'.Queued ∧ wire i evs ++ streams c'.queue = streams c.queue := by
  induction h with
  | stop c => exact ⟨hc, rfl⟩
  | @part c b q n hq h0 hn hp =>
    have hb := hc.ok b (hq ▸ List.mem_cons_self)
    refine ⟨⟨fun x hx => ?_, ?_⟩, ?_⟩
    · rcases List.mem_cons.mp hx with rfl | hx
      · exact hb.advance h0 hn
      · exact hc.ok x (hq ▸ List.mem_cons_of_mem _ hx)
    · show wrap (c.sbuffersz - n) = wrap ((b.advance c.protocol n).sz + (q.map Chunk.sz).sum)
      rw [hc.size, hq, hb.advance_sz h0 hn, wrap_wrap_sub, List.map_cons, List.sum_cons]
      congr 1
      omega
    · rw [hq, streams_cons, streams_cons, ← List.append_assoc, hb.wire_wrote_advance h0 hn hp]
  | @next c c' b q evs hq hd ih =>
    have hb := hc.ok b (hq ▸ List.mem_cons_self)
    have hnext : Conn.Queued { c with queue := q, sbuffersz := wrap (c.sbuffersz - b.sz) } := by
      refine ⟨fun x hx => hc.ok x (hq ▸ List.mem_cons_of_mem _ hx), ?_⟩
      show wrap (c.sbuffersz - b.sz) = wrap (q.map Chunk.sz).sum
      rw [hc.size, hq, wrap_wrap_sub, List.map_cons, List.sum_cons]
      congr 1
      omega
    obtain ⟨hc', hflow⟩ := ih hnext
    refine ⟨hc', ?_⟩
    rw [wire_append fun e he => (hd.events_local e he).steady.not_opens,
      wire_append fun e he => (b.freed_silent e he).not_opens, wire_silent b.freed_silent,
      hb.wire_wrote, List.append_nil, List.append_assoc, hflow, hq]
    rfl

theorem supply_writes (h : ∀ e ∈ evs, e.Writes i) : supply j evs = [] := by
  refine since_eq_nil (fun e he => ⟨(h e he).isLocal.steady.not_opens, ?_⟩) fun _ _ _ => rfl
  have := h e he
  cases e <;> first | rfl | exact this.elim

/-- A write event writes from the front of the queue. -/
theorem Flush.flows (h : Flush B i c np c' np' evs) (hc : c.Queued) :
    c'.Queued ∧ wire i evs ++ streams c'.queue = streams c.queue ∧ supply i evs = [] := by
  cases h with
  | idle => exact ⟨hc, rfl, rfl⟩
  | rest h => exact ⟨(h.flows hc).1, (h.flows hc).2, supply_writes h.writes⟩
  | done _ h _ hs =>
    obtain ⟨hc', hflow⟩ := h.flows hc
    refine ⟨⟨hc'.ok, hc'.size⟩, ?_, ?_⟩
    · rw [wire_append fun e he => (hs.silent e he).not_opens, wire_silent hs.silent, List.append_nil]
      exact hflow
    · rw [supply_append fun e he => (hs.silent e he).not_opens, supply_silent hs.silent,
        supply_writes h.writes]
      rfl

theorem wire_offered (b : Chunk) : wire i [.offered i b] = [] := rfl

theorem supply_offered (b : Chunk) : supply i [.offered i b] = b.stream := by
  show [] ++ (if i = i then b.stream else []) = _
  rw [if_pos rfl]
  rfl

/-- The events of a send that writes `n` bytes of `b`. -/
theorem flow_send (b : Chunk) (p : Protocol) (n : ℤ) :
    wire i (wrote i p b n ++ [.offered i b]) = wire i (wrote i p b n) ∧
      supply i (wrote i p b n ++ [.offered i b]) = b.stream := by
  have hopens : ∀ e ∈ wrote i p b n, ¬ e.Opens i := fun e he =>
    (wrote_local p b n e he).steady.not_opens
  constructor
  · rw [wire_append hopens, wire_offered]
    rfl
  · rw [supply_append hopens, supply_offered, supply_writes (wrote_writes p b n), List.append_nil]

/-- Silent events on top. -/
theorem flow_silent (h : ∀ e ∈ evs, e.Silent) (evs' : List Ev) :
    wire i (evs ++ evs') = wire i evs' ∧ supply i (evs ++ evs') = supply i evs' := by
  have hopens : ∀ e ∈ evs, ¬ e.Opens i := fun e he => (h e he).not_opens
  rw [wire_append hopens, supply_append hopens, wire_silent h, supply_silent h]
  exact ⟨List.append_nil _, List.append_nil _⟩

/-- What the first write leaves of a chunk is queued. -/
theorem Rest.stream {b b' : Chunk} {p : Protocol} {n : ℤ} (h : Rest p b n b') (hb : b.Ok p)
    (hn : n < b.sz) : b'.Ok p ∧ wire i (wrote i p b n) ++ b'.stream = b.stream := by
  cases h with
  | all h =>
    refine ⟨hb, ?_⟩
    rw [wrote_of_nonpos p b h]
    rfl
  | some h0 hp => exact ⟨hb.advance h0 hn, hb.wire_wrote_advance h0 hn hp⟩

/-- Every step writes what was in the queue or is offered by it, in order. -/
theorem ConnStep.flows (h : ConnStep B op v i c np c' np' evs) (hc : c.Queued) :
    c'.Queued ∧ Flows i c c' evs := by
  cases h with
  | tune => exact ⟨⟨hc.ok, hc.size⟩, (List.append_nil _).symm⟩
  | received => exact ⟨hc, (List.append_nil _).symm⟩
  | enable _ h =>
    refine ⟨⟨hc.ok, hc.size⟩, ?_⟩
    rw [Flows, wire_silent h.silent, supply_silent h.silent, List.append_nil]
    rfl
  | half => exact ⟨⟨hc.ok, hc.size⟩, (List.append_nil _).symm⟩
  | @whole b h hq =>
    refine ⟨hc, ?_⟩
    rw [Flows, List.append_assoc, (flow_silent b.freed_silent _).1, (flow_silent b.freed_silent _).2,
      (flow_send b _ _).1, (flow_send b _ _).2, h.ok.wire_wrote, hq, streams_nil, List.append_nil]
    rfl
  | @start b b' n r mask np' evs h hq hn hb hs =>
    obtain ⟨hb', hrest⟩ := hb.stream (i := i) h.ok hn
    refine ⟨⟨fun x hx => List.mem_singleton.mp hx ▸ hb', ?_⟩, ?_⟩
    · have hsize : c.sbuffersz = 0 := by rw [hc.size, hq]; rfl
      show wrap (c.sbuffersz + b'.sz) = wrap (b'.sz + 0)
      rw [hsize]
      congr 1
      omega
    · rw [Flows, (flow_silent hs.silent _).1, (flow_silent hs.silent _).2, (flow_send b _ _).1,
        (flow_send b _ _).2, hq, streams_nil, streams_cons, streams_nil, List.append_nil, hrest]
      rfl
  | @behind b h _ hq =>
    refine ⟨⟨fun x hx => ?_, ?_⟩, ?_⟩
    · rcases List.mem_append.mp hx with hx | hx
      · exact hc.ok x hx
      · exact List.mem_singleton.mp hx ▸ h.ok
    · show wrap (c.sbuffersz + b.sz) = wrap ((c.queue ++ [b]).map Chunk.sz).sum
      rw [hc.size, wrap_wrap_add, List.map_append, List.sum_append]
      congr 2
      simp
    · rw [Flows, wire_offered, supply_offered, streams_append, streams_cons, streams_nil,
        List.append_nil]
      rfl
  | flushed _ h =>
    obtain ⟨hc', hflow, hoff⟩ := h.flows hc
    exact ⟨hc', by rw [Flows, hflow, hoff, List.append_nil]⟩
  | completed _ _ h =>
    refine ⟨⟨hc.ok, hc.size⟩, ?_⟩
    rw [Flows, (flow_silent h.silent _).1, (flow_silent h.silent _).2]
    exact (List.append_nil _).symm

/-- What is written before a connection is closed is a part of what is in the queue or offered. -/
theorem Closing.flows (h : Closing B op v i c np c' np' evs) (hc : c.Queued) :
    wire i evs <+: streams c.queue ++ supply i evs := by
  cases h with
  | forced | idle | destroyed | unread | unconnected => exact List.nil_prefix
  | @unsent b n h _ hn hq =>
    rw [(flow_silent b.freed_silent _).1, (flow_silent b.freed_silent _).2, (flow_send b _ _).1,
      (flow_send b _ _).2]
    -- only a first write that took something can have put bytes on the wire
    rcases le_or_gt n 0 with hle | hlt
    · rw [wrote_of_nonpos _ _ hle]
      exact List.nil_prefix
    · have hrest := h.ok.wire_wrote_advance (i := i) hlt.le hn fun _ => hlt
      rw [hq.resolve_right (not_le.mpr hlt), streams_nil, List.nil_append, ← hrest]
      exact List.prefix_append ..
  | broken _ _ _ h =>
    have hflow := (h.flows hc).2
    rw [← List.singleton_append, (flow_silent (by simp [Ev.Silent]) _).1,
      (flow_silent (by simp [Ev.Silent]) _).2, supply_writes h.writes, List.append_nil, ← hflow]
    exact List.prefix_append ..
  | finished _ _ _ h hq =>
    obtain ⟨-, hflow, hoff⟩ := h.flows hc
    rw [← List.singleton_append, (flow_silent (by simp [Ev.Silent]) _).1,
      (flow_silent (by simp [Ev.Silent]) _).2, hoff, List.append_nil, ← hflow]
    exact List.prefix_append ..

/-! ## The invariant -/

/-- What the log shows of the streams: a close cuts the data short at most, a half-close leaves a
queue with the rest of them, and when the end of the writing is reported nothing is left. -/
def Ev.Streams : Ev → List Ev → Prop
  | .offered _ b, _ => b.bytes ≠ []
  | .closed i _ _, past => wire i past <+: supply i past
  | .halfclosed i q, past => wire i past ++ streams q = supply i past
  | .raised e, past => e.type = .wridoneclose → wire e.id past = supply e.id past
  | _, _ => True

/-- Nothing is lost and nothing is sent twice. -/
structure Streaming (a : Abs σ) : Prop where
  queued : ∀ i c, a.slot i = some c → c.Queued
  conn : ∀ i c, a.slot i = some c → wire i a.log ++ streams c.queue = supply i a.log
  log : History Ev.Streams a.log

/-- There is something to send. -/
theorem Chunk.Ok.bytes_ne_nil {p : Protocol} {b : Chunk} (h : b.Ok p) : b.bytes ≠ [] := by
  have hl := h.bytes_length
  have hpos := h.pos
  intro hnil
  rw [hnil, List.length_nil] at hl
  omega

/-- An event that can come at any time. -/
theorem Ev.Writes.recorded {e : Ev} (h : e.Writes i) (past : List Ev) : e.Streams past := by
  cases e <;> trivial

theorem Subscribe.recorded {fd r : ℤ} {old new mask : Mask}
    (h : Subscribe B i fd old new np r mask np' evs) : ∀ e ∈ evs, ∀ past, e.Streams past := by
  cases h <;> simp [Ev.Streams]

/-- The events of a write are in keeping with the log. -/
theorem Flush.recorded (h : Flush B i c np c' np' evs) : ∀ e ∈ evs, ∀ past, e.Streams past := by
  cases h with
  | idle => simp
  | rest h => exact fun e he => (h.writes e he).recorded
  | done _ h _ hs =>
    intro e he
    rcases List.mem_append.mp he with he | he
    · exact hs.recorded e he
    · exact (h.writes e he).recorded

/-- The events of a send. -/
theorem Sends.recorded {b : Chunk} (h : Sends i c b op) (n : ℤ) :
    ∀ e ∈ wrote i c.protocol b n ++ [.offered i b], ∀ past, e.Streams past := by
  intro e he
  rcases List.mem_append.mp he with he | he
  · exact (wrote_writes _ _ _ e he).recorded
  · obtain rfl := List.mem_singleton.mp he
    exact fun _ => h.ok.bytes_ne_nil

/-- Those of a step are, too: only at a half-close does the log say what is queued. -/
theorem ConnStep.recorded (h : ConnStep B op v i c np c' np' evs) (hlog : History Ev.Streams log)
    (hc : wire i log ++ streams c.queue = supply i log) : History Ev.Streams (evs ++ log) := by
  cases h with
  | tune => exact hlog
  | received => exact ⟨trivial, hlog⟩
  | enable _ h => exact hlog.append h.recorded
  | half => exact ⟨hc, hlog⟩
  | whole h =>
    refine hlog.append fun e he => ?_
    rw [List.append_assoc] at he
    rcases List.mem_append.mp he with he | he
    · exact (Chunk.freed_writes (i := i) _ e he).recorded
    · exact h.recorded _ e he
  | start h _ _ _ hs =>
    refine hlog.append fun e he => ?_
    rcases List.mem_append.mp he with he | he
    · exact hs.recorded e he
    · exact h.recorded _ e he
  | behind h => exact ⟨h.ok.bytes_ne_nil, hlog⟩
  | flushed _ h => exact hlog.append h.recorded
  | completed _ _ h => exact List.append_assoc .. ▸ History.append ⟨trivial, hlog⟩ h.recorded

/-- Those before the end are, too: the end of the writing is reported only when all is written. -/
theorem Closing.recorded (h : Closing B op v i c np c' np' evs) (hlog : History Ev.Streams log)
    (hq : c.Queued) (hc : wire i log ++ streams c.queue = supply i log) :
    History Ev.Streams (evs ++ log) := by
  cases h with
  | forced | idle | destroyed | unread | unconnected => exact hlog
  | unsent h =>
    refine hlog.append fun e he => ?_
    rcases List.mem_append.mp he with he | he
    · exact (Chunk.freed_writes (i := i) _ e he).recorded
    · exact h.recorded _ e he
  | broken _ _ _ h => exact ⟨nofun, hlog.append fun e he => (h.writes e he).recorded⟩
  | @finished _ _ evs _ _ _ _ h hdone =>
    refine ⟨fun _ => ?_, hlog.append h.recorded⟩
    obtain ⟨-, hflow, hoff⟩ := h.flows hq
    have hopens : ∀ e ∈ evs, ¬ e.Opens i := fun e he => (h.events_local e he).steady.not_opens
    show wire i (evs ++ log) = supply i (evs ++ log)
    rw [wire_append hopens, supply_append hopens, hoff, List.append_nil, ← hc, ← hflow, hdone,
      streams_nil, List.append_nil]

/-- A new connection has nothing to send. -/
theorem Opening.Makes.flows (h : Opening.Makes B op i c np c' np' evs) (hq : c.queue = [])
    (hs : c.sbuffersz = 0) : c'.Queued ∧ Flows i c c' evs ∧ ∀ e ∈ evs, ∀ past, e.Streams past := by
  have hnil : ∀ c' : Conn, c'.queue = [] → c'.sbuffersz = 0 → c'.Queued := by
    intro c' hq hs
    refine ⟨fun b hb => ?_, ?_⟩
    · rw [hq] at hb
      cases hb
    · rw [hq, hs]
      rfl
  cases h with
  | listening _ h | connecting _ h =>
    refine ⟨hnil _ hq hs, ?_, h.recorded⟩
    rw [Flows, wire_silent h.silent, supply_silent h.silent, List.append_nil]
    rfl
  | connected | accepted | bound =>
    exact ⟨hnil _ hq hs, (List.append_nil _).symm, fun e he => absurd he List.not_mem_nil⟩

/-- What is about another slot moves no data here. -/
theorem flow_other (hij : j ≠ i) (h : ∀ e ∈ evs, e.About i) :
    wire j (evs ++ log) = wire j log ∧ supply j (evs ++ log) = supply j log := by
  have hopens : ∀ e ∈ evs, ¬ e.Opens j := fun e he => (h e he).steady.not_opens
  rw [wire_append hopens, supply_append hopens, wire_other hij.symm h, supply_other hij.symm h]
  exact ⟨List.append_nil _, List.append_nil _⟩

theorem flow_opened (hij : j ≠ i) (fd : ℤ) (p : Protocol) (log : List Ev) :
    wire j (.opened i fd p :: log) = wire j log ∧ supply j (.opened i fd p :: log) = supply j log :=
  ⟨if_neg hij.symm, if_neg hij.symm⟩

theorem flow_opened_self (fd : ℤ) (p : Protocol) (log : List Ev) :
    wire i (.opened i fd p :: log) = [] ∧ supply i (.opened i fd p :: log) = [] :=
  ⟨if_pos rfl, if_pos rfl⟩

/-- The events of a close say nothing of the streams. -/
theorem flow_close (c : Conn) (log : List Ev) :
    wire j (closeEvs c ++ .closed i c.fd c.mask :: log) = wire j log ∧
      supply j (closeEvs c ++ .closed i c.fd c.mask :: log) = supply j log := by
  have hs : ∀ e ∈ closeEvs c ++ [.closed i c.fd c.mask], e.Silent := by
    intro e he
    rcases List.mem_append.mp he with he | he
    · exact closeEvs_silent e he
    · exact List.mem_singleton.mp he ▸ trivial
  have := flow_silent (i := j) hs log
  rwa [List.append_assoc, List.singleton_append] at this

namespace Streaming

/-- Silent events, and the slots as they are. -/
theorem keep (h : Streaming a) (evs : List Ev) (hslot : a'.slot = a.slot) (hlog : a'.log = evs ++ a.log)
    (hevs : ∀ e ∈ evs, e.Silent ∧ ∀ past, e.Streams past) : Streaming a' where
  queued i c hc := h.queued i c (hslot ▸ hc)
  conn i c hc := by
    rw [hlog, (flow_silent (fun e he => (hevs e he).1) _).1,
      (flow_silent (fun e he => (hevs e he).1) _).2]
    exact h.conn i c (hslot ▸ hc)
  log := hlog ▸ h.log.append fun e he => (hevs e he).2

/-- A step of one connection leaves all streams in order. -/
theorem put (h : Streaming a) (hc : a.slot i = some c) (hevs : ∀ e ∈ evs, e.About i)
    (hq : c'.Queued) (hflow : Flows i c c' evs) (hlog : History Ev.Streams (evs ++ a.log)) :
    Streaming (a.put i c' np evs) where
  queued j d hd := by
    by_cases hji : j = i
    · subst hji
      rw [Abs.put_slot_self] at hd
      exact Option.some.inj hd ▸ hq
    · exact h.queued j d ((Function.update_of_ne hji ..).symm.trans hd)
  conn j d hd := by
    show wire j (evs ++ a.log) ++ _ = supply j (evs ++ a.log)
    by_cases hji : j = i
    · subst hji
      rw [Abs.put_slot_self] at hd
      obtain rfl := Option.some.inj hd
      have hopens : ∀ e ∈ evs, ¬ e.Opens j := fun e he => (hevs e he).steady.not_opens
      rw [wire_append hopens, supply_append hopens, ← h.conn j c hc, List.append_assoc,
        List.append_assoc, hflow]
    · rw [(flow_other hji hevs).1, (flow_other hji hevs).2]
      exact h.conn j d ((Function.update_of_ne hji ..).symm.trans hd)
  log := hlog

/-- So does the end of one: what it wrote is the beginning of what it was offered. -/
theorem close (h : Streaming a) (hc : a.slot i = some c) (hevs : ∀ e ∈ evs, e.About i)
    (hpre : wire i evs <+: streams c.queue ++ supply i evs)
    (hlog : History Ev.Streams (evs ++ a.log)) :
    Streaming ((a.put i c' np evs).close i B c') := by
  have hslot : ((a.put i c' np evs).close i B c').slot = Function.update a.slot i none := by
    rw [Abs.close_slot, Abs.put, Function.update_idem]
  refine ⟨fun j d hd => ?_, fun j d hd => ?_, ?_⟩
  · rw [hslot] at hd
    have hji : j ≠ i := by
      rintro rfl
      rw [Function.update_self] at hd
      cases hd
    exact h.queued j d ((Function.update_of_ne hji ..).symm.trans hd)
  · rw [hslot] at hd
    have hji : j ≠ i := by
      rintro rfl
      rw [Function.update_self] at hd
      cases hd
    rw [Abs.close_log, (flow_close c' _).1, (flow_close c' _).2]
    show wire j (evs ++ a.log) ++ _ = supply j (evs ++ a.log)
    rw [(flow_other hji hevs).1, (flow_other hji hevs).2]
    exact h.conn j d ((Function.update_of_ne hji ..).symm.trans hd)
  · rw [Abs.close_log]
    refine History.append ⟨?_, hlog⟩ fun e he past => ?_
    · have hopens : ∀ e ∈ evs, ¬ e.Opens i := fun e he => (hevs e he).steady.not_opens
      show wire i (evs ++ a.log) <+: supply i (evs ++ a.log)
      -- at the close the wire is a prefix of what was offered, which is what its event records
      rw [wire_append hopens, supply_append hopens, ← h.conn i c hc, List.append_assoc]
      exact (List.prefix_append_right_inj _).mpr hpre
    · rcases mem_closeEvs he with ⟨token, rfl⟩ | rfl <;> trivial

/-- So does a new connection, with nothing written or offered. -/
theorem create (h : Streaming a) {rest : List ℕ} (hq : c.queue = []) (hs : c.sbuffersz = 0) :
    Streaming (a.create i rest c) := by
  refine ⟨fun j d hd => ?_, fun j d hd => ?_, ⟨trivial, h.log⟩⟩
  · by_cases hji : j = i
    · subst hji
      have hd : Function.update a.slot j (some c) j = some d := hd
      rw [Function.update_self] at hd
      obtain rfl := Option.some.inj hd
      refine ⟨fun b hb => ?_, ?_⟩
      · rw [hq] at hb
        cases hb
      · rw [hq, hs]
        rfl
    · exact h.queued j d ((Function.update_of_ne hji ..).symm.trans hd)
  · show wire j (.opened i c.fd c.protocol :: a.log) ++ _ = supply j (.opened i c.fd c.protocol :: a.log)
    by_cases hji : j = i
    · subst hji
      have hd : Function.update a.slot j (some c) j = some d := hd
      rw [Function.update_self] at hd
      obtain rfl := Option.some.inj hd
      rw [(flow_opened_self ..).1, (flow_opened_self ..).2, hq]
      rfl
    · rw [(flow_opened hji ..).1, (flow_opened hji ..).2]
      exact h.conn j d ((Function.update_of_ne hji ..).symm.trans hd)

/-- So does every change. -/
theorem change (h : Streaming a) (hch : Change B op v a a') : Streaming a' := by
  cases hch with
  | err => exact h.keep [] rfl rfl (by simp)
  | @note e he _ => exact h.keep [e] rfl rfl (by cases e <;> first | exact he.elim | simp [Ev.Silent, Ev.Streams])
  | raised _ _ he => exact h.keep [_] rfl rfl (by simp [Ev.Silent, Ev.Streams, he.2])
  | refused => exact h.keep [_] rfl rfl (by simp [Ev.Silent, Ev.Streams])
  | polled => exact h.keep [] rfl rfl (by simp)
  | drop => exact h.keep [_] rfl rfl (by simp [Ev.Silent, Ev.Streams])
  | conn hc hs =>
    obtain ⟨hq, hflow⟩ := hs.flows (h.queued _ _ hc)
    exact h.put hc hs.about hq hflow (hs.recorded h.log (h.conn _ _ hc))
  | close hc hs =>
    exact h.close hc hs.about (hs.flows (h.queued _ _ hc))
      (hs.recorded h.log (h.queued _ _ hc) (h.conn _ _ hc))
  | opened _ _ _ _ hm =>
    obtain ⟨hq, hflow, hstreams⟩ := hm.flows rfl rfl
    refine (h.create rfl rfl).put (Function.update_self ..) (fun e he => (hm.events_local e he).about)
      hq hflow ?_
    exact (h.create (c := newConn ..) rfl rfl).log.append hstreams
  | @bounced i rest fd slimit udata protocol rlimit _ _ _ _ _ _ _ _ _ hs _ =>
    have hcreate : Streaming (a.create i rest (newConn fd slimit udata protocol rlimit)) :=
      h.create rfl rfl
    refine hcreate.close (Function.update_self ..) (fun e he => (hs.events_local e he).about) ?_
      (hcreate.log.append hs.recorded)
    rw [wire_silent hs.silent]
    exact List.nil_prefix
  | destroyed => exact h.keep [_] rfl rfl (by simp [Ev.Silent, Ev.Streams])

end Streaming

/-- In every run, all streams are in order. -/
theorem reach_streaming (h : (changes B).Reach a) : Streaming a := by
  refine h.invariant ?_ fun a l a' _ ha hs => ha.change hs
  rintro _ ⟨max, -, rfl⟩
  have hnone : ∀ i c, (Abs.initial B max).slot i ≠ some c := fun i c => Option.some_ne_none c |>.symm
  exact ⟨fun i c hc => absurd hc (hnone i c), fun i c hc => absurd hc (hnone i c), trivial⟩

/-! ## Sending on TCP -/

/-- What is written to a connection and what is queued on it, byte for byte. -/
structure TcpStream (w : World σ) (i : ℕ) : Prop where
  /-- The bytes written and then those of the queue are the data of the sends. -/
  bytes : (wire i w.log).map Prod.fst ++ (w.queue i).flatMap Chunk.bytes
    = (supply i w.log).map Prod.fst
  /-- Every node has something left, and the data for it. -/
  pos : ∀ b ∈ w.queue i, 0 < b.sz ∧ b.bytes.length = b.sz
  /-- The size of the queue is right as long as it is an `int`. -/
  size : ((w.queue i).map Chunk.sz).sum ≤ INT_MAX →
    (w.net.sockets i).sbuffersz = ((w.queue i).map Chunk.sz).sum
  /-- The tail of a queue that is not empty is its last node. -/
  tail : ∀ p, (w.net.sockets i).head = some p →
    ∃ q t n, w.nodes i = q ++ [(t, n)] ∧ (w.net.sockets i).tail = some t ∧ n.next = none

/-- The bytes of a queue. -/
theorem map_fst_streams (q : List Chunk) : (streams q).map Prod.fst = q.flatMap Chunk.bytes := by
  induction q with
  | nil => rfl
  | cons b q ih =>
    rw [streams_cons, List.map_append, ih, Chunk.stream, map_fst_tag, List.flatMap_cons]

/-- The queue of a live slot, in the world that is reached. -/
theorem reach_queued (h : (net B).Reach w) (hi : w.Live i) :
    ((w.net.sockets i).conn (w.queue i)).Queued ∧
      wire i w.log ++ streams (w.queue i) = supply i w.log := by
  obtain ⟨-, habs⟩ := reach_abs h
  have hstream := reach_streaming habs
  have hslot : w.abs.slot i = some ((w.net.sockets i).conn (w.queue i)) := if_pos hi
  exact ⟨hstream.queued i _ hslot, hstream.conn i _ hslot⟩

/-- The sizes of what is queued do not add up to less than nothing. -/
theorem Conn.Queued.sum_nonneg (h : c.Queued) : 0 ≤ (c.queue.map Chunk.sz).sum := by
  refine List.sum_nonneg fun x hx => ?_
  obtain ⟨b, hb, rfl⟩ := List.mem_map.mp hx
  exact (h.ok b hb).pos.le

/-- In every run, what is written to a live TCP slot and what is queued on it are the data of its
sends; what was written to a connection that is closed is the beginning of them; and the assertions
about the tail of a queue hold. -/
theorem tcp_stream (h : (net B).Reach w) :
    (∀ i, w.Live i → (w.net.sockets i).protocol = .tcp → TcpStream w i) ∧
      (∀ post i fd mask past, w.log = post ++ .closed i fd mask :: past →
        (wire i past).map Prod.fst <+: (supply i past).map Prod.fst) ∧
      ∀ op : Op, op.Allowed w.net.max → ∀ replies e w',
        op.call B (w.answer replies) = (.error e, w') → e ≠ .tail := by
  refine ⟨fun i hi _ => ?_, fun post i fd mask past hlog => ?_, fun op hop replies e w' he ht => ?_⟩
  · obtain ⟨hq, hstream⟩ := reach_queued h hi
    refine ⟨?_, fun b hb => ?_, fun hsum => ?_, fun p hp => ?_⟩
    · rw [← map_fst_streams, ← List.map_append, hstream]
    · have hb := hq.ok b hb
      exact ⟨hb.pos, by rw [hb.bytes_length]; exact Int.toNat_of_nonneg hb.pos.le⟩
    · have hsize : (w.net.sockets i).sbuffersz = wrap ((w.queue i).map Chunk.sz).sum := hq.size
      have hpos : 0 ≤ ((w.queue i).map Chunk.sz).sum := hq.sum_nonneg
      rw [hsize, wrap_of_nonneg hpos hsum]
    -- the tail of a queue that is not empty is its last node, with no `next`
    · have hqueue := (reach_abs h).1.1.queue i hi.1
      have hne : w.nodes i ≠ [] := fun hnil => by
        rw [hqueue.linked.eq_nil_iff.mp hnil] at hp
        cases hp
      obtain ⟨q, t, n, hnodes, htail, -, hnext⟩ := hqueue.exists_tail hne
      exact ⟨q, t, n, hnodes, htail, hnext⟩
  -- each close has recorded what holds at its place in the log
  · have hhist : History Ev.Streams w.log := (reach_streaming (reach_abs h).2).log
    rw [hlog] at hhist
    exact List.IsPrefix.map Prod.fst hhist.at_event
  · subst ht
    rcases reach_fault h hop replies he with h | h | h <;> cases h

/-- A short write leaves two bytes queued, more are sent, and a write event writes across the edge
of the two nodes. -/
def partialCalls : List (Op × List Reply) :=
  [(.bind 5 0 0, [{}, {}]),
    (.send 0 ⟨1, [1, 2, 3]⟩ 3, [{ ret := 1 }, { addr := 0 }, {}]),
    (.send 0 ⟨2, [4, 5]⟩ 2, [{ addr := 1 }]),
    (.poll 0, [{ ret := 1, ready := [⟨5, false, true, false⟩] }, { ret := 2 }, { ret := 1 }])]

theorem tcp_stream_partial :
    TcpStream ((fresh epoll 1).after epoll partialCalls) 0 ∧
      (wire 0 ((fresh epoll 1).after epoll partialCalls).log).map Prod.fst = [1, 2, 3, 4] := by
  have hreach : (net epoll).Reach ((fresh epoll 1).after epoll partialCalls) :=
    reach_fresh (by decide +kernel)
  exact ⟨(tcp_stream hreach).1 0 (by decide +kernel) (by decide +kernel), by decide +kernel⟩

/-! ## Descriptors on IPC -/

/-- The descriptors of a stream, with the places of the bytes that carry them. -/
def descriptors (l : List TaggedByte) : List (ℕ × ℤ) :=
  l.zipIdx.filterMap fun x => x.1.2.map fun cfd => (x.2, cfd)

/-- The descriptors of the beginning of a stream. -/
theorem descriptors_prefix {l l' : List TaggedByte} (h : l <+: l') :
    descriptors l = (descriptors l').filter fun x => x.1 < l.length := by
  obtain ⟨r, rfl⟩ := h
  have hmem : ∀ (l : List TaggedByte) (k : ℕ),
      ∀ x ∈ (l.zipIdx k).filterMap (fun x => x.1.2.map fun cfd => (x.2, cfd)),
        k ≤ x.1 ∧ x.1 < k + l.length := by
    intro l k x hx
    obtain ⟨⟨y, n⟩, hy, hyx⟩ := List.mem_filterMap.mp hx
    obtain ⟨cfd, -, rfl⟩ := Option.map_eq_some_iff.mp hyx
    have := List.mem_zipIdx hy
    exact ⟨this.1, this.2.1⟩
  unfold descriptors
  rw [List.zipIdx_append, List.filterMap_append, List.filter_append]
  have hl : List.filter (fun x : ℕ × ℤ => x.1 < l.length)
      (l.zipIdx.filterMap fun x => x.1.2.map fun cfd => (x.2, cfd))
        = l.zipIdx.filterMap fun x => x.1.2.map fun cfd => (x.2, cfd) :=
    List.filter_eq_self.mpr fun x hx => by
      have := hmem l 0 x hx
      simpa using this.2
  have hr : List.filter (fun x : ℕ × ℤ => x.1 < l.length)
      ((r.zipIdx (0 + l.length)).filterMap fun x => x.1.2.map fun cfd => (x.2, cfd)) = [] :=
    List.filter_eq_nil_iff.mpr fun x hx => by
      have := hmem r (0 + l.length) x hx
      simpa using this.1
  rw [hl, hr, List.append_nil]

/-- What is transmitted on an IPC connection, and what is queued on it. -/
structure IpcStream (w : World σ) (i : ℕ) : Prop where
  /-- The bytes transmitted, each with the descriptor that came with it, and then those of the queue
  are the data of the sends. -/
  stream : wire i w.log ++ streams (w.queue i) = supply i w.log
  /-- The descriptors transmitted are those of the sends whose first byte is transmitted, each with
  this byte and no other. -/
  attached : descriptors (wire i w.log)
    = (descriptors (supply i w.log)).filter fun x => x.1 < (wire i w.log).length

/-- In every run, what is transmitted on a live slot and what is queued on it are the data of its sends,
and a descriptor travels with the first byte of its data. Only the sends of an IPC slot have descriptors:
on any other slot the second part is about none. -/
theorem ipc_stream (h : (net B).Reach w) (hi : w.Live i) : IpcStream w i := by
  obtain ⟨-, hstream⟩ := reach_queued h hi
  exact ⟨hstream, descriptors_prefix (hstream ▸ List.prefix_append ..)⟩

/-- A descriptor is sent with the first of two bytes, a second one is still queued. -/
def passCalls : List (Op × List Reply) :=
  [(.bind 5 0 2, [{}, {}]),
    (.sendfd 0 (some ⟨1, [1, 2]⟩) 2 7, [{ ret := -1, errno := EAGAIN }, { addr := 0 }, {}]),
    (.sendfd 0 none 1 8, [{ addr := 1 }]),
    (.poll 0, [{ ret := 1, ready := [⟨5, false, true, false⟩] }, { ret := 1 }])]

theorem ipc_stream_pass :
    IpcStream ((fresh epoll 1).after epoll passCalls) 0 ∧
      descriptors (wire 0 ((fresh epoll 1).after epoll passCalls).log) = [(0, 7)] ∧
      descriptors (supply 0 ((fresh epoll 1).after epoll passCalls).log) = [(0, 7), (2, 8)] := by
  have hreach : (net epoll).Reach ((fresh epoll 1).after epoll passCalls) :=
    reach_fresh (by decide +kernel)
  exact ⟨ipc_stream hreach (by decide +kernel), by decide +kernel, by decide +kernel⟩

end Lsocket
