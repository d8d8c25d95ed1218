import Lsocket.Lua.Delivery
import Lsocket.Lua.Moves

/-!
# What is read from a connection arrives at its socket

As long as the connection in a slot attends, the entry that was started for it stays, and the blocks that
the read events push to its buffer are exactly what is read from the connection (`reach_ledger`).
-/

namespace Lsocket.Lua

open CInt

variable {σ : Type} {B : Backend σ} {s s' s₀ : State σ} {j g : ℕ} {ns : List Note}

/-! ## Events to come -/

/-- The events that are left to be dispatched name slots of the array. -/
def Slotted (s : State σ) : Prop := ∀ e ∈ s.pending, e.id < s.world.net.max

/-- What `psocket_poll` makes of an event is about the same slot. -/
theorem expand_id {e d : SocketEvent} (h : d ∈ expand e) : d.id = e.id := by
  unfold expand at h
  split at h
  · simp only [List.mem_cons, List.not_mem_nil, or_false] at h
    rcases h with rfl | rfl <;> rfl
  · exact List.mem_singleton.mp h ▸ rfl

/-- `socket_poll` stores events for slots of the array. -/
theorem poll_slotted {timeout : ℤ} {es : List SocketEvent} {w : World σ} (hs : Reached B s.world)
    (h : socketPoll B timeout s.world = (.ok es, w)) : ∀ e ∈ es, e.id < w.net.max := by
  intro e he
  obtain ⟨_, ⟨-, rfl⟩, hr⟩ := (does_socketPoll timeout).ok hs.1 h
  have hw : Reached B w := hs.call (.poll timeout) trivial (Prog.map_of_ok _ h)
  refine id_lt_of_raised hw.2 (mem_reports ?_)
  rw [hr.reports]
  exact List.mem_append_right _ he

/-- Every step keeps this. -/
theorem Slotted.step {l : Step} (hsl : Slotted s) (h : (properScript B).step s l s')
    (hs : Reached B s.world) : Slotted s' := by
  have hk := step_kept (O := fun _ => True) h hs fun _ _ => trivial
  have hmax : s'.world.net.max = s.world.net.max := hk.passage.max_eq
  have hsame (hp : s'.pending = s.pending) : Slotted s' := fun e he => by
    rw [hmax]
    exact hsl e (hp ▸ he)
  obtain ⟨⟨-, hrun⟩, -⟩ := id h
  cases Step.ran hrun with
  | returned | raised | suspended => exact hsame (pending_of_call h hs)
  | yielded hl => exact hsame (State.leave_eq hl).2.2
  | resumed | finished => exact hsame rfl
  | @polled timeout rs es w hpoll =>
    intro d hd
    obtain ⟨e, he, hd⟩ := List.mem_flatMap.mp hd
    rw [expand_id hd]
    exact poll_slotted (s := s.answer rs) (hs.answer rs) hpoll e he
  | @dispatched a rs e rest v s₁ hp h =>
    intro d hd
    rw [hmax]
    exact hsl d (hp ▸ List.mem_cons_of_mem e hd)

/-- In every run, the events to come name slots of the array. -/
theorem slotted_of_script (h : (properScript B).Reach s) : Slotted s := by
  refine h.invariant (I := Slotted) ?_ fun s l s' hr hsl hs => hsl.step hs (reached_of_script hr)
  rintro _ ⟨max, junk, rfl⟩ e he
  cases he

/-! ## The ledger of a socket -/

/-- The bytes that arrived at the buffer of the socket since its entry was made. -/
def arrivals (j : ℕ) (log : List Note) : List UInt8 := (since j log).flatMap (Note.arrived j)

/-- Notes that do not start the socket. -/
theorem arrivals_append {log : List Note} (h : ∀ n ∈ ns, n.starts j = false) :
    arrivals j (ns ++ log) = arrivals j log ++ ns.reverse.flatMap (Note.arrived j) := by
  rw [arrivals, since_append h, List.flatMap_append]
  rfl

/-- A dispatch adds what arrives in it. -/
theorem arrivals_turn (t : Turn) (log : List Note) :
    arrivals j (.turn t :: log) = arrivals j log ++ (Note.turn t).arrived j := by
  rw [← List.singleton_append, arrivals_append (by simp [Note.starts]), List.reverse_singleton,
    List.flatMap_singleton]

/-- A note that neither starts the socket nor brings it data. -/
def Note.Idle (j : ℕ) (n : Note) : Prop := n.starts j = false ∧ n.arrived j = []

/-- Notes that bring nothing. -/
theorem arrivals_idle {log : List Note} (h : ∀ n ∈ ns, n.Idle j) :
    arrivals j (ns ++ log) = arrivals j log := by
  rw [arrivals_append fun n hn => (h n hn).1]
  have hnil : ns.reverse.flatMap (Note.arrived j) = [] := by
    rw [List.flatMap_eq_nil_iff]
    exact fun n hn => (h n (List.mem_reverse.mp hn)).2
  rw [hnil, List.append_nil]

/-- A call brings no data, and does not start a socket again that has a buffer. -/
theorem Called.idle {me : ℕ} {pool pool' : Key → Option Entry} {c : Call} {r : Option Result}
    (h : Called me pool c r pool' ns) (hb : Buffered pool j) : ∀ n ∈ ns, n.Idle j := by
  obtain ⟨x, hx, -⟩ := hb
  cases h with
  | @started _ _ id _ _ hn =>
    have hid : id ≠ j := by
      rintro rfl
      cases hn.symm.trans hx
    simp [Note.Idle, Note.starts, Note.arrived, hid]
  | returned => simp [Note.Idle, Note.starts, Note.arrived]
  | _ => exact fun _ hn => absurd hn List.not_mem_nil

/-- The notes of a dispatch bring no data beside that of the dispatch itself. -/
theorem Handles.idle {pool pool' : Key → Option Entry} {point : ℕ → Option Point} {e : SocketEvent}
    {heard : Option Heard} {v : Verdict} (h : Handles pool point e heard v pool' ns) :
    ∀ n ∈ ns, n.Idle j := by
  cases h with
  | popped => simp [Note.Idle, Note.starts, Note.arrived]
  | _ => exact fun _ hn => absurd hn List.not_mem_nil

/-- What a read event brings to a socket with a buffer. -/
theorem turn_arrived {e : SocketEvent} {v : Verdict} (hb : Buffered s.pool j) :
    (Note.turn (turn s e v s')).arrived j =
      if e.type = .read ∧ (e.id : ℤ) = j then bytesOf s'.heard else [] := by
  obtain ⟨x, hx, hx'⟩ := hb
  by_cases hr : e.type = .read ∧ (e.id : ℤ) = j
  · have hx₁ : s.pool (.id e.id) = some x := hr.2 ▸ hx
    have hreads : (turn s e v s').Reads j := hr
    rw [if_pos hr, Note.arrived, if_pos hreads, Turn.arrival]
    rcases hh : s'.heard with _ | (_ | _ | _) <;> simp [turn, bytesOf, hh, hx₁, hx']
  · have hreads : ¬ (turn s e v s').Reads j := hr
    rw [if_neg hr, Note.arrived, if_neg hreads]

/-- A step brings to the buffer of a socket exactly what it reads from its slot. -/
theorem step_arrivals {l : Step} (h : (properScript B).step s l s') (hs : (properScript B).Reach s)
    (hmax : s.world.net.max ≤ INT_MAX)
    (hp : ∀ c, s.world.abs.slot j = some c → c.protocol = .tcp) (hb : Buffered s.pool j) :
    ∃ new, got j s'.world.log = got j s.world.log ++ new ∧
      arrivals j s'.log = arrivals j s.log ++ new := by
  have hR := reached_of_script hs
  have hsound := sound_of_reach hs.of_restrict
  -- a step that does not dispatch an event reads nothing
  have hquiet (hl : ∀ a rs, l ≠ .dispatch a rs) (harr : arrivals j s'.log = arrivals j s.log) :
      ∃ new, got j s'.world.log = got j s.world.log ++ new ∧
        arrivals j s'.log = arrivals j s.log ++ new := by
    have hk := step_kept (O := fun op => ∀ i, op ≠ .read i) h hR fun op hm => hm.not_read hl
    refine ⟨[], ?_, by rw [List.append_nil, harr]⟩
    rw [List.append_nil]
    exact hk.passage.got_eq fun hno => hno _ rfl
  obtain ⟨⟨hal, hrun⟩, -⟩ := h
  cases Step.ran hrun with
  | @returned c rs vs _ h =>
    obtain ⟨-, -, notes, hcalled, hlog⟩ := Prog.wp_ok (ends_answer hsound c rs) h
    exact hquiet nofun (hlog ▸ arrivals_idle (hcalled.idle hb))
  | @raised c rs _ h =>
    obtain ⟨-, -, notes, hcalled, hlog⟩ := Prog.wp_error (ends_answer hsound c rs) h rfl
    exact hquiet nofun (hlog ▸ arrivals_idle (hcalled.idle hb))
  | @suspended c rs p s₁ _ h hl =>
    obtain ⟨-, -, notes, hcalled, hlog⟩ := Prog.wp_ok (ends_answer hsound c rs) h
    refine hquiet nofun ?_
    rw [(State.beside_leave hl).log, hlog]
    exact arrivals_idle (hcalled.idle hb)
  | resumed | finished | polled => exact hquiet nofun rfl
  | yielded hl => exact hquiet nofun (by rw [(State.beside_leave hl).log])
  | @dispatched a rs e rest v s₁ hpending hd =>
    obtain ⟨notes, hh, hlog⟩ := dispatch_handles (s := s.answer rs) hd hsound hal.1 hal.2
    have harr : arrivals j (.turn (turn s e v s₁) :: s₁.log) = arrivals j s.log ++
        if e.type = .read ∧ (e.id : ℤ) = j then bytesOf s₁.heard else [] := by
      rw [arrivals_turn, turn_arrived hb, hlog]
      exact congrArg (· ++ _) (arrivals_idle hh.idle)
    have hid : wrap e.id = e.id := by
      have he := slotted_of_script hs e (hpending ▸ List.mem_cons_self)
      exact wrap_of_nonneg (Int.natCast_nonneg _) (by omega)
    refine ⟨_, ?_, harr⟩
    by_cases hr : e.type = .read ∧ (e.id : ℤ) = j
    · rw [if_pos hr]
      have hgot := dispatch_got (s := s.answer rs) hr.1 (hid.trans hr.2) (hR.answer rs) hp hd
      exact hgot
    · rw [if_neg hr, List.append_nil]
      have hk := dispatch_kept (s := s.answer rs) (O := fun op => op ≠ .read j) (fun op hm hop => by
        subst hop
        obtain ⟨he, hj⟩ := hm.of_read
        exact hr ⟨he, hid.symm.trans hj⟩) (hR.answer rs) hd
      exact hk.passage.got_eq fun hno => hno rfl

/-- A socket with a buffer on a TCP connection, at a time when nothing has been read from it. -/
structure Listens (j : ℕ) (s : State σ) : Prop where
  max : s.world.net.max ≤ INT_MAX
  tcp : (s.world.net.sockets j).protocol = .tcp
  buffered : Buffered s.pool j
  none : arrivals j s.log = [] ∧ heard j (generation j s.world.log) s.world.log = []

/-- As long as the connection `g` in slot `j` attends, its socket has a buffer, and everything that was
read from it has arrived there. -/
structure Ledger (j g : ℕ) (s : State σ) : Prop where
  max : s.world.net.max ≤ INT_MAX
  tcp : s.world.abs.Tcp j g
  kept : s.world.abs.Attends j g → Buffered s.pool j ∧ arrivals j s.log = heard j g s.world.log

/-- At the start nothing was read and nothing has arrived. -/
theorem Listens.ledger (h : Listens j s) : Ledger j (generation j s.world.log) s where
  max := h.max
  tcp := by
    refine ⟨le_rfl, fun c hc _ => ?_⟩
    by_cases hl : s.world.Live j
    · obtain rfl := Option.some.inj ((if_pos hl).symm.trans hc)
      exact h.tcp
    · cases (if_neg hl).symm.trans hc
  kept _ := ⟨h.buffered, h.none.1.trans h.none.2.symm⟩

/-- Every step keeps the ledger: what a dispatch reads from the connection arrives at the buffer of its
socket, and no other step reads from it. -/
theorem Ledger.step {l : Step} (hled : Ledger j g s) (h : (properScript B).step s l s')
    (hs : (properScript B).Reach s) : Ledger j g s' := by
  have hR := reached_of_script hs
  have hk := step_kept (O := fun _ => True) h hR fun _ _ => trivial
  have hmax : s'.world.net.max = s.world.net.max := hk.passage.max_eq
  refine ⟨hmax ▸ hled.max, hk.passage.tcp hR.2 hled.tcp, fun hatt' => ?_⟩
  have hatt := hk.passage.attends hR.2 hled.tcp.1 hatt'
  obtain ⟨hb, heq⟩ := hled.kept hatt
  obtain ⟨new, hgot, harr⟩ := step_arrivals h hs hled.max
    (fun c hc => hled.tcp.2 c hc hatt.1) hb
  obtain ⟨evs, hlog⟩ := hk.passage.log_suffix
  have hlog : s'.world.log = evs ++ s.world.log := hlog.symm
  -- what the net handed over in this step is what the step's arrivals name
  have hnew : got j evs = new := by
    rw [hlog, got_append] at hgot
    exact List.append_cancel_left hgot
  refine ⟨hk.entry j g hled.max hled.tcp hatt' hb, ?_⟩
  have hg' : generation j (evs ++ s.world.log) = g := hlog ▸ hatt'.1
  rw [harr, heq, hlog, heard_add hg' hatt.1, hnew]

/-- From a time when nothing has been read, in any run of Lua code. -/
theorem reach_ledger (h₀ : (properScript B).Reach s₀) (hl : Listens j s₀)
    (h : ((properScript B).startedIn s₀).Reach s) : Ledger j (generation j s₀.world.log) s := by
  refine h.invariant (I := Ledger j (generation j s₀.world.log)) ?_ fun s l s' hr hled hs =>
    hled.step hs (.of_startedIn h₀ hr)
  rintro _ rfl
  exact hl.ledger

/-- The unread bytes of the socket, behind those that were popped, are all that was read. -/
theorem Ledger.balance (hled : Ledger j g s) (hs : (properScript B).Reach s)
    (hatt : s.world.abs.Attends j g) : ∃ x, s.pool (.id j) = some x ∧
      (since j s.log).flatMap (Note.taken j) ++ x.unread = heard j g s.world.log := by
  obtain ⟨⟨x, hx, -⟩, heq⟩ := hled.kept hatt
  refine ⟨x, hx, ?_⟩
  rw [← heq, ← (balanced_of_reach hs.of_restrict hx).bytes]
  rfl

end Lsocket.Lua
