import Lsocket.Net.FreeList

/-!
# Dispatching events

`psocket_poll` collects the events of a whole batch, and then hands them to the dispatch function one
by one. In between slots are freed and handed out again, by `socket_poll` itself and by the dispatch
function. An event names a slot, not a connection: whether the slot still has the connection that the
event is about depends on how many slots were free when that connection was closed.
-/

namespace Lsocket

variable {σ : Type} {B : Backend σ} {w w' : World σ} {a a' : Abs σ} {i max g : ℕ} {c c' : Conn}
variable {op : Op} {np np' : σ} {evs log post past l : List Ev} {v : ℤ} {e : SocketEvent}

/-! ## Events and their connections -/

/-- The events that were stored, oldest first, with the connection that each is about: how many the
slot had held. -/
def tagged : List Ev → List (SocketEvent × ℕ)
  | [] => []
  | .raised e :: log => tagged log ++ [(e, generation e.id log)]
  | _ :: log => tagged log

/-- Without their tags these are the reports. -/
theorem tagged_fst (log : List Ev) : (tagged log).map Prod.fst = reports log := by
  induction log with
  | nil => rfl
  | cons e log ih =>
    cases e with
    | raised e => rw [tagged, reports, List.map_append, ih]; rfl
    | _ => exact ih

/-- A tag is the number of connections that the slot had had. -/
theorem mem_tagged (h : (e, g) ∈ tagged log) :
    ∃ past, .raised e :: past <:+ log ∧ generation e.id past = g := by
  induction log with
  | nil => cases h
  | cons x log ih =>
    have hlift : (e, g) ∈ tagged log → ∃ past, .raised e :: past <:+ x :: log ∧
        generation e.id past = g := by
      intro h
      obtain ⟨past, hp, hg⟩ := ih h
      exact ⟨past, hp.trans (List.suffix_cons ..), hg⟩
    cases x with
    | raised e' =>
      rcases List.mem_append.mp h with h | h
      · exact hlift h
      · obtain ⟨rfl, rfl⟩ := Prod.mk.inj (List.mem_singleton.mp h)
        exact ⟨log, List.suffix_rfl, rfl⟩
    | _ => exact hlift h

/-! ## The reuse of a slot -/

/-- How many slots were handed out. -/
def openings : List Ev → ℕ
  | [] => 0
  | .opened .. :: log => openings log + 1
  | _ :: log => openings log

/-- If the connection `g` of slot `i` was closed, no more slots have been handed out since than were
free before. -/
def SlotLeft (max i g : ℕ) (log : List Ev) : Prop :=
  ∀ post fd mask past, log = post ++ .closed i fd mask :: past → generation i past = g →
    openings post ≤ (fifo max past).length

/-- The condition for the newest event of `log`, behind which `post` has happened. -/
def LeftAt (max i g : ℕ) (post : List Ev) : List Ev → Prop
  | .closed j _ _ :: past => j = i → generation i past = g → openings post ≤ (fifo max past).length
  | _ => True

instance (max i g : ℕ) (post log : List Ev) : Decidable (LeftAt max i g post log) := by
  unfold LeftAt
  split <;> infer_instance

/-- Slots are left if they are at every point of the log. -/
theorem slotLeft_iff : SlotLeft max i g log ↔
    ∀ n < log.length, LeftAt max i g (log.take n) (log.drop n) := by
  constructor
  · intro h n hn
    rcases hd : log.drop n with _ | ⟨e, past⟩
    · trivial
    cases e with
    | closed j fd mask =>
      rintro rfl
      exact h _ fd mask past (by rw [← hd, List.take_append_drop])
    | _ => trivial
  · rintro h post fd mask past rfl hgen
    have hat := h post.length (by simp)
    rw [List.take_left, List.drop_left] at hat
    exact hat rfl hgen

instance (max i g : ℕ) (log : List Ev) : Decidable (SlotLeft max i g log) :=
  decidable_of_iff _ slotLeft_iff.symm

/-- A slot moves forward in the queue with every slot that is handed out. -/
theorem fifo_waits {q r : List ℕ} (h : History (Ev.Queues max) (post ++ l))
    (hl : fifo max l = q ++ i :: r) (hle : openings post ≤ q.length) :
    ∃ r', fifo max (post ++ l) = q.drop (openings post) ++ i :: r' := by
  -- each opening moves the slot one place forward, a closing leaves it where it is
  induction post with
  | nil => exact ⟨r, hl⟩
  | cons e post ih =>
    cases e with
    | opened j fd p =>
      have hlt : openings post < q.length := hle
      obtain ⟨r', hr'⟩ := ih h.2 hlt.le
      refine ⟨r', ?_⟩
      show (fifo max (post ++ l)).tail = q.drop (openings post + 1) ++ i :: r'
      rw [hr', List.drop_eq_getElem_cons hlt]
      rfl
    | closed j fd m =>
      obtain ⟨r', hr'⟩ := ih h.2 hle
      exact ⟨r' ++ [j], by
        show fifo max (post ++ l) ++ [j] = _
        rw [hr', List.append_assoc]
        rfl⟩
    | _ => exact ih h.2 hle

/-- A slot that is not handed out stays in the queue. -/
theorem mem_fifo_append (h : History (Ev.Queues max) (post ++ l)) (hl : i ∈ fifo max l)
    (hpost : ∀ e ∈ post, ¬ e.Opens i) : i ∈ fifo max (post ++ l) := by
  induction post with
  | nil => exact hl
  | cons e post ih =>
    have hi := ih h.2 fun e he => hpost e (List.mem_cons_of_mem _ he)
    cases e with
    | opened j fd p =>
      obtain ⟨rest, hrest⟩ := h.1
      have hj : i ≠ j := fun hij => hpost _ List.mem_cons_self hij.symm
      have hrest : fifo max (post ++ l) = j :: rest := hrest
      show i ∈ (fifo max (post ++ l)).tail
      rw [hrest] at hi ⊢
      exact (List.mem_cons.mp hi).resolve_left hj
    | closed j fd m => exact List.mem_append_left _ hi
    | _ => exact hi

/-- Handing out the slot counts. -/
theorem generation_opens {e : Ev} (h : e.Opens i) (log : List Ev) :
    generation i (e :: log) = generation i log + 1 := by
  cases e with
  | opened j fd p => exact if_pos h
  | _ => exact h.elim

/-- A slot has had no fewer connections later. -/
theorem generation_le (i : ℕ) (post l : List Ev) : generation i l ≤ generation i (post ++ l) := by
  induction post with
  | nil => exact le_rfl
  | cons e post ih =>
    by_cases he : e.Opens i
    · rw [List.cons_append, generation_opens he]
      exact ih.trans (Nat.le_succ _)
    · rwa [List.cons_append, generation_ignores i e _ he]

/-- As long as the count stands still, the slot is not handed out. -/
theorem not_opens_of_generation (h : generation i (post ++ l) ≤ generation i l) :
    ∀ e ∈ post, ¬ e.Opens i := by
  induction post with
  | nil => simp
  | cons e post ih =>
    have hle := generation_le i post l
    by_cases he : e.Opens i
    · rw [List.cons_append, generation_opens he] at h
      omega
    · rw [List.cons_append, generation_ignores i e _ he] at h
      intro x hx
      rcases List.mem_cons.mp hx with rfl | hx
      · exact he
      · exact ih h x hx

/-- The first time that a slot is handed out again. -/
theorem exists_opening (h : generation i l < generation i (post ++ l)) :
    ∃ post₁ fd p post₂, post = post₁ ++ .opened i fd p :: post₂ ∧
      generation i (post₂ ++ l) = generation i l := by
  induction post with
  | nil => exact absurd h (lt_irrefl _)
  | cons e post ih =>
    by_cases hlt : generation i l < generation i (post ++ l)
    · obtain ⟨post₁, fd, p, post₂, rfl, hpost⟩ := ih hlt
      exact ⟨e :: post₁, fd, p, post₂, rfl, hpost⟩
    · have heq : generation i (post ++ l) = generation i l :=
        le_antisymm (not_lt.mp hlt) (generation_le ..)
      by_cases he : e.Opens i
      · cases e with
        | opened j fd p =>
          obtain rfl : j = i := he
          exact ⟨[], fd, p, post, rfl, heq⟩
        | _ => exact he.elim
      · rw [List.cons_append, generation_ignores i e _ he] at h
        exact absurd h hlt

/-- A slot that is free and has held a connection was closed since. -/
theorem exists_closing (hfree : occupied i log = false) (hg : 1 ≤ generation i log) :
    ∃ post fd mask past, log = post ++ .closed i fd mask :: past ∧
      generation i past = generation i log := by
  induction log with
  | nil => cases hg
  | cons e log ih =>
    have hlift : occupied i log = false → generation i (e :: log) = generation i log →
        ∃ post fd mask past, e :: log = post ++ .closed i fd mask :: past ∧
          generation i past = generation i (e :: log) := by
      intro hfree hgen
      rw [hgen] at hg ⊢
      obtain ⟨post, fd, mask, past, rfl, hpast⟩ := ih hfree hg
      exact ⟨e :: post, fd, mask, past, rfl, hpast⟩
    cases e with
    | opened j fd p =>
      have hj : j ≠ i ∧ occupied i log = false := by simpa [occupied] using hfree
      exact hlift hj.2 (if_neg hj.1)
    | closed j fd mask =>
      by_cases hj : j = i
      · subst hj
        exact ⟨[], fd, mask, log, rfl, rfl⟩
      · exact hlift (by simpa [occupied, hj] using hfree) rfl
    | _ => exact hlift hfree rfl

/-- A slot that is occupied still has the connection `g` exactly if no more slots have been handed
out since this was closed than were free: in one direction, because the slot would have been closed
and not handed out again; in the other, because it would still wait in the queue. -/
theorem generation_eq_iff (h : History (Ev.Queues max) log) (hl : l <:+ log)
    (hg : generation i l = g) (hpos : 1 ≤ g) (hocc : occupied i log = true) :
    generation i log = g ↔ SlotLeft max i g log := by
  have hfree : i ∉ fifo max log := fun hi => by
    rw [((mem_fifo h).mp hi).2] at hocc
    cases hocc
  constructor
  · rintro hgen post fd mask past rfl hpast
    have hstill : generation i (post ++ .closed i fd mask :: past) ≤
        generation i (.closed i fd mask :: past) := le_of_eq (hgen.trans hpast.symm)
    have hfifo : i ∈ fifo max (.closed i fd mask :: past) :=
      List.mem_append_right _ (List.mem_singleton_self i)
    -- closed and not opened again, the slot would still be in the free list
    exact absurd (mem_fifo_append h hfifo (not_opens_of_generation hstill)) hfree
  · intro hleft
    obtain ⟨post, rfl⟩ := hl
    by_contra hne
    have hlt : generation i l < generation i (post ++ l) :=
      lt_of_le_of_ne (generation_le ..) (hg ▸ Ne.symm hne)
    obtain ⟨post₁, fd, p, post₂, rfl, hmid⟩ := exists_opening hlt
    rw [List.append_assoc, List.cons_append] at h hleft hfree
    obtain ⟨rest, hrest⟩ := h.at_event
    have hmidfree : occupied i (post₂ ++ l) = false :=
      ((mem_fifo h.of_append.2).mp (hrest ▸ List.mem_cons_self)).2
    -- before it was opened again it was closed, and too few openings lie in between
    obtain ⟨post₃, fd', mask, past, hsplit, hpast⟩ := exists_closing hmidfree (by omega)
    rw [hsplit, ← List.cons_append, ← List.append_assoc] at h hleft hfree
    have hle := hleft _ fd' mask past rfl (by omega)
    obtain ⟨r', hr'⟩ := fifo_waits (q := fifo max past) (r := []) h rfl hle
    exact hfree (hr' ▸ List.mem_append_right _ List.mem_cons_self)

/-! ## Events are about connections -/

/-- An event is stored for a slot that has held a connection. -/
def Ev.Named : Ev → List Ev → Prop
  | .raised e, past => 1 ≤ generation e.id past
  | _, _ => True

theorem Ev.Unreported.named {e : Ev} (h : e.Unreported) (past : List Ev) : e.Named past := by
  cases e <;> first | exact h.elim | trivial

/-- An occupied slot has had one. -/
theorem generation_pos (h : occupied i log = true) : 1 ≤ generation i log := by
  induction log with
  | nil => cases h
  | cons e log ih =>
    cases e with
    | opened j fd p =>
      by_cases hj : j = i
      · rw [generation_opens (e := .opened j fd p) hj]
        exact Nat.le_add_left 1 _
      · rw [generation_ignores i (.opened j fd p) _ hj]
        exact ih (by simpa [occupied, hj] using h)
    | closed j fd m =>
      have hj : j ≠ i ∧ occupied i log = true := by simpa [occupied] using h
      exact ih hj.2
    | _ => exact ih h

/-- The event that is stored before a connection is closed is about it. -/
theorem Closing.named (h : Closing B op v i c np c' np' evs) (hg : 1 ≤ generation i log)
    (hlog : History Ev.Named log) : History Ev.Named (evs ++ log) := by
  have hlocal : ∀ {evs : List Ev}, (∀ e ∈ evs, e.Local i) → History Ev.Named (evs ++ log) ∧
      1 ≤ generation i (evs ++ log) := by
    intro evs h
    rw [(generation_ignores i).append fun e he => (h e he).steady.not_opens]
    exact ⟨hlog.append fun e he => ((h e he).unreported).named, hg⟩
  cases h with
  | forced | idle | destroyed | unread | unconnected => exact hlog
  | unsent h =>
    refine (hlocal fun e he => ?_).1
    rcases List.mem_append.mp he with he | he
    · exact Chunk.freed_local _ e he
    · rcases List.mem_append.mp he with he | he
      · exact wrote_local _ _ _ e he
      · exact List.mem_singleton.mp he ▸ rfl
  | broken _ _ _ h => exact ⟨(hlocal h.events_local).2, (hlocal h.events_local).1⟩
  | finished _ _ _ h => exact ⟨(hlocal h.events_local).2, (hlocal h.events_local).1⟩

/-- A slot that is known has had one. -/
theorem InOrder.generation_pos (h : InOrder a) (hi : a.Knows i) : 1 ≤ generation i a.log := by
  rcases hi with ⟨c, hc⟩ | ⟨fd, mask, hmem⟩
  · refine Lsocket.generation_pos ?_
    have := (h.slot i).not.mp (by simp [hc])
    simpa using this
  · obtain ⟨post, past, hlog⟩ := List.append_of_mem hmem
    have hq := h.log
    rw [hlog] at hq ⊢
    have hocc : occupied i past = true := by
      have hnot := (mem_fifo (i := i) hq.of_append.2).not.mp hq.at_event.2
      simpa using fun hf => hnot ⟨hq.at_event.1, hf⟩
    exact (Lsocket.generation_pos hocc).trans (generation_le i post (.closed i fd mask :: past))

/-- In every run, the events stored name slots that have had a connection. -/
theorem reach_named (h : (changes B).Reach a) : History Ev.Named a.log := by
  refine h.invariant (I := fun a => History Ev.Named a.log) ?_ fun a l a' hreach ih hs => ?_
  · rintro _ ⟨max, -, rfl⟩
    trivial
  · have horder := reach_inOrder hreach
    cases hs with
    | err | polled => exact ih
    | @note e he _ => exact ⟨by cases e <;> first | exact he.elim | trivial, ih⟩
    | raised _ _ _ hid => exact ⟨horder.generation_pos hid, ih⟩
    | refused | drop | destroyed => exact ⟨trivial, ih⟩
    | conn _ hs => exact ih.append fun e he => (hs.unreported e he).named
    | close hc hs =>
      rw [Abs.close_log]
      refine History.append ⟨trivial, ?_⟩ fun e he => (closeEvs_unreported e he).named
      exact hs.named (horder.generation_pos (.inl ⟨_, hc⟩)) ih
    | opened _ _ _ _ hm =>
      exact History.append ⟨trivial, ih⟩ fun e he => (hm.events_local e he).unreported.named
    | bounced _ _ _ _ hs =>
      rw [Abs.close_log]
      refine History.append ⟨trivial, ?_⟩ fun e he => (closeEvs_unreported e he).named
      exact History.append ⟨trivial, ih⟩ fun e he => (hs.events_local e he).unreported.named

/-! ## The dispatcher -/

/-- The calls of the dispatch function for one event. -/
def dispatches (e : SocketEvent) : List SocketEvent :=
  if e.type = .connThenRead then [{ e with type := .connect }, { e with type := .read }] else [e]

/-- The dispatches for the events `es` that `socket_poll` returns, each with the connection that the
event is about. `log` and `log'` are what happened before and after. -/
def batch (log log' : List Ev) (es : List SocketEvent) : List (SocketEvent × ℕ) :=
  (es.zip (((tagged log').drop (tagged log).length).map Prod.snd)).flatMap fun x =>
    (dispatches x.1).map fun e => (e, x.2)

/-- What `psocket.c` works on: the dispatches to come, and whether the dispatch function has been
called in this batch. -/
structure Psocket (σ : Type) where
  world : World σ
  pending : List (SocketEvent × ℕ)
  handling : Bool

inductive Action
  /-- A call by the dispatch function, or by the program between two batches. -/
  | call (l : Call)
  /-- `psocket_poll` collects a batch. -/
  | poll (timeout : ℤ)
  /-- `psocket_poll` calls the dispatch function. -/
  | dispatch (e : SocketEvent) (g : ℕ)

/-- Calls other than `socket_poll` and `net_free`. -/
def Op.Handled : Op → Prop
  | .poll _ | .free => False
  | _ => True

instance : DecidablePred Op.Handled := fun op => by
  cases op <;> unfold Op.Handled <;> infer_instance

/-- Batches of events, and calls in any order while they are dispatched. -/
def psocket (B : Backend σ) : System (Psocket σ) Action where
  init s := (∃ max junk, s.world = netCreate B max junk) ∧ s.pending = [] ∧ s.handling = false
  step s l s' :=
    match l with
    | .call l => (s.handling = true ∨ s.pending = []) ∧ l.op.Handled ∧
        (net B).step s.world l s'.world ∧ s'.pending = s.pending ∧ s'.handling = s.handling
    | .poll timeout => s.pending = [] ∧ .destroyed ∉ s.world.log ∧ ∃ replies es,
        socketPoll B timeout (s.world.answer replies) = (.ok es, s'.world) ∧
        s'.pending = batch s.world.log s'.world.log es ∧ s'.handling = false
    | .dispatch e g => s.pending = (e, g) :: s'.pending ∧ s'.world = s.world ∧ s'.handling = true

/-- A dispatch is for the slot of its event. -/
theorem dispatches_id {d : SocketEvent} (h : d ∈ dispatches e) : d.id = e.id := by
  unfold dispatches at h
  split at h
  · rcases List.mem_cons.mp h with rfl | h
    · rfl
    · exact List.mem_singleton.mp h ▸ rfl
  · exact List.mem_singleton.mp h ▸ rfl

/-- The events that a batch returns are the last that were stored. -/
theorem zip_tagged {log' : List Ev} {es : List SocketEvent} (h : reports log' = reports log ++ es) :
    es.zip (((tagged log').drop (tagged log).length).map Prod.snd)
      = (tagged log').drop (tagged log).length := by
  refine (List.zip_of_prod ?_ rfl).symm
  rw [List.map_drop, tagged_fst, h, ← List.length_map (f := Prod.fst), tagged_fst]
  exact List.drop_left

/-- A dispatch of a batch is for an event that was stored, when the slot had held as many
connections. -/
theorem mem_batch {log' : List Ev} {es : List SocketEvent} {d : SocketEvent}
    (h : reports log' = reports log ++ es) (hd : (d, g) ∈ batch log log' es) :
    ∃ e past, d.id = e.id ∧ .raised e :: past <:+ log' ∧ generation e.id past = g := by
  rw [batch, zip_tagged h] at hd
  obtain ⟨x, hx, hd⟩ := List.mem_flatMap.mp hd
  obtain ⟨d', hd', heq⟩ := List.mem_map.mp hd
  obtain ⟨rfl, rfl⟩ := Prod.mk.inj heq
  obtain ⟨past, hpast, hg⟩ := mem_tagged (List.mem_of_mem_drop hx)
  exact ⟨x.1, past, dispatches_id hd', hpast, hg⟩

/-- Collecting a batch is a call of `socket_poll`. -/
theorem step_poll {timeout : ℤ} {replies : List Reply} {es : List SocketEvent}
    (hlog : .destroyed ∉ w.log)
    (hrun : socketPoll B timeout (w.answer replies) = (.ok es, w')) :
    (net B).step w ⟨.poll timeout, es.length⟩ w' := by
  refine ⟨hlog, trivial, replies, ?_⟩
  show (socketPoll B timeout >>= fun es => pure (es.length : ℤ)) (w.answer replies) = _
  rw [Prog.bind_apply, hrun]
  rfl

/-- The events that `socket_poll` returns are those that it stored. -/
theorem reports_poll {timeout : ℤ} {replies : List Reply} {es : List SocketEvent}
    (h : (net B).Reach w) (hrun : socketPoll B timeout (w.answer replies) = (.ok es, w')) :
    reports w'.log = reports w.log ++ es := by
  obtain ⟨a', ⟨-, rfl⟩, hr⟩ := (does_socketPoll timeout).ok ((reach_abs h).1.answer replies) hrun
  exact hr.reports

/-- The log of a run grows. -/
theorem log_suffix {l : Call} (h : (net B).Reach w) (hs : (net B).step w l w') :
    w.log <:+ w'.log :=
  (step_changes (reach_abs h).1 hs).2.log_suffix

/-- The net is in use, and every dispatch to come is for a connection that its slot has held. -/
structure Psocket.Timely (B : Backend σ) (s : Psocket σ) : Prop where
  reach : (net B).Reach s.world
  named : ∀ d g, (d, g) ∈ s.pending →
    ∃ past, past <:+ s.world.log ∧ generation d.id past = g ∧ 1 ≤ g

/-- In every run, a dispatch to come is for a connection that its slot has had. -/
theorem reach_timely {s : Psocket σ} (h : (psocket B).Reach s) : s.Timely B := by
  refine h.invariant ?_ fun s l s' _ ih hs => ?_
  · rintro s ⟨⟨max, junk, hw⟩, hp, -⟩
    exact ⟨.init ⟨max, junk, hw⟩, by simp [hp]⟩
  · cases l with
    | call l =>
      obtain ⟨-, -, hs, hp, -⟩ := hs
      refine ⟨.step ih.reach hs, fun d g hd => ?_⟩
      obtain ⟨past, hpast, hg⟩ := ih.named d g (hp ▸ hd)
      exact ⟨past, hpast.trans (log_suffix ih.reach hs), hg⟩
    | poll timeout =>
      obtain ⟨-, hlog, replies, es, hrun, hp, -⟩ := hs
      have hreach : (net B).Reach s'.world := .step ih.reach (step_poll hlog hrun)
      refine ⟨hreach, fun d g hd => ?_⟩
      -- each event to dispatch stands in the log as this poll raised it
      obtain ⟨e, past, hid, hpast, rfl⟩ := mem_batch (reports_poll ih.reach hrun) (hp ▸ hd)
      obtain ⟨post, hpost⟩ := hpast
      have hnamed : History Ev.Named (post ++ .raised e :: past) :=
        hpost ▸ reach_named (reach_abs hreach).2
      rw [hid]
      exact ⟨past, (List.suffix_cons ..).trans ⟨post, hpost⟩, rfl, hnamed.at_event⟩
    | dispatch e g =>
      obtain ⟨hp, hw, -⟩ := hs
      refine ⟨hw ▸ ih.reach, fun d g hd => ?_⟩
      rw [hw]
      exact ih.named d g (hp ▸ List.mem_cons_of_mem _ hd)

/-! ## Batches on given answers -/

/-- A batch that is collected before any event was dispatched. -/
def collected (B : Backend σ) (w : World σ) (replies : List Reply) : Psocket σ :=
  match socketPoll B 0 (w.answer replies) with
  | (.ok es, w') => ⟨w', batch w.log w'.log es, false⟩
  | (.error _, w') => ⟨w', [], false⟩

/-- Calls before the first batch. -/
theorem reach_calls {calls : List (Op × List Reply)} (h : (psocket B).Reach ⟨w, [], false⟩)
    (hops : ∀ x ∈ calls, x.1.Handled) (he : exec B calls w = some w') :
    (psocket B).Reach ⟨w', [], false⟩ := by
  induction calls generalizing w with
  | nil => exact Option.some.inj he ▸ h
  | cons x calls ih =>
    obtain ⟨op, replies⟩ := x
    obtain ⟨hop, hops⟩ := List.forall_mem_cons.mp hops
    unfold exec at he
    split at he
    · next hok =>
      rcases hr : op.call B (w.answer replies) with ⟨_ | v, w₁⟩ <;> rw [hr] at he
      · cases he
      · refine ih (h.step (l := .call ⟨op, v⟩) ?_) hops he
        exact ⟨.inr rfl, hop, ⟨hok.1, hok.2, replies, hr⟩, rfl, rfl⟩
    · cases he

/-- A batch is collected by one `socket_poll`. -/
theorem reach_collected {replies : List Reply} (h : (psocket B).Reach ⟨w, [], false⟩)
    (hlog : .destroyed ∉ w.log) (hp : (collected B w replies).pending ≠ []) :
    (psocket B).Reach (collected B w replies) := by
  refine h.step (l := .poll 0) ⟨rfl, hlog, replies, ?_⟩
  unfold collected at hp ⊢
  rcases hr : socketPoll B 0 (w.answer replies) with ⟨e | es, w'⟩
  · simp [hr] at hp
  · exact ⟨es, rfl, rfl, rfl⟩

/-- The first event of the batch is dispatched. -/
theorem step_dispatch {s : Psocket σ} {rest : List (SocketEvent × ℕ)}
    (h : s.pending = (e, g) :: rest) : (psocket B).step s (.dispatch e g) ⟨s.world, rest, true⟩ :=
  ⟨h, rfl, rfl⟩

/-- The calls after which `collected` is reached. -/
theorem reach_fresh_collected {max : ℤ} {calls : List (Op × List Reply)} {replies : List Reply}
    (hops : ∀ x ∈ calls, x.1.Handled) (he : (exec B calls (fresh B max)).isSome)
    (hlog : .destroyed ∉ ((fresh B max).after B calls).log)
    (hp : (collected B ((fresh B max).after B calls) replies).pending ≠ []) :
    (psocket B).Reach (collected B ((fresh B max).after B calls) replies) := by
  obtain ⟨w, hw⟩ := Option.isSome_iff_exists.mp he
  have hafter : (fresh B max).after B calls = w := by rw [World.after, hw]; rfl
  rw [hafter] at hlog hp ⊢
  exact reach_collected (reach_calls (.init ⟨⟨max, zeroed, rfl⟩, rfl, rfl⟩) hops hw) hlog hp

/-! ## Which connection an event reaches -/

/-- When the dispatch function is called with an event, an occupied slot still has the connection
that the event is about exactly if no more slots have been handed out since this was closed than were
free. -/
theorem dispatch_own_iff {s s' : Psocket σ} (h : (psocket B).Reach s)
    (hs : (psocket B).step s (.dispatch e g) s') :
    (s.world.Live e.id → generation e.id s.world.log = g) ↔
      (s.world.Live e.id → SlotLeft s.world.net.max e.id g s.world.log) := by
  obtain ⟨hreach, hnamed⟩ := reach_timely h
  obtain ⟨past, hpast, hg, hpos⟩ := hnamed e g (hs.1 ▸ List.mem_cons_self)
  have horder := reach_inOrder (reach_abs hreach).2
  refine forall_congr' fun hl => generation_eq_iff horder.log hpast hg hpos ?_
  have hslot := (horder.slot e.id).not.mp (by simp [World.abs, hl])
  exact Bool.eq_true_of_not_eq_false hslot

/-- One socket listens, another connects. -/
def refusedCalls : List (Op × List Reply) :=
  [(.listen 0, [{ count := 1 }, { ret := 5 }, { ret := 0 }, { ret := 0 }, { ret := 0 }, { ret := 0 },
      { ret := 0 }, { ret := 0 }, { ret := 0 }, { ret := 0 }]),
    (.connect false 0, [{ count := 1 }, { ret := 6 }, { ret := 0 }, { ret := 0 }, { ret := 0 },
      { ret := -1, errno := EINPROGRESS }, { ret := 0 }])]

/-- The batch that reports that the connect failed, and then a connection to accept, in a net for `max`
sockets. -/
def refusedBatch (max : ℤ) : Psocket Epoll :=
  collected epoll ((fresh epoll max).after epoll refusedCalls)
    [{ ret := 2, ready := [⟨6, false, true, false⟩, ⟨5, true, false, false⟩] },
      { ret := 0, value := 111 }, { ret := 7 }, { ret := 0 }, { ret := 0 }, { ret := 0 }]

/-- With a third slot, which was free when the connection was closed. -/
theorem dispatch_own_iff_spare :
    .closed 1 6 ⟨true, true⟩ ∈ (refusedBatch 3).world.log ∧
      SlotLeft (refusedBatch 3).world.net.max 1 1 (refusedBatch 3).world.log ∧
        (((refusedBatch 3).world.Live 1 → generation 1 (refusedBatch 3).world.log = 1) ↔
          ((refusedBatch 3).world.Live 1 →
            SlotLeft (refusedBatch 3).world.net.max 1 1 (refusedBatch 3).world.log)) :=
  ⟨by decide +kernel, by decide +kernel, dispatch_own_iff (e := ⟨1, .connerr, 0, some 111⟩)
    (reach_fresh_collected (by decide) (by decide +kernel) (by decide +kernel) (by decide +kernel))
    (show (psocket epoll).step _ _ ⟨(refusedBatch 3).world, [(⟨2, .accept, 0, some 0⟩, 1)], true⟩ from
      step_dispatch (by decide +kernel))⟩

/-- With two slots the error of the connection that failed reaches the one that was accepted in its slot. -/
theorem dispatch_reused : ∃ s s' : Psocket Epoll, ∃ e g, (psocket epoll).Reach s ∧
    (psocket epoll).step s (.dispatch e g) s' ∧ e.type = .connerr ∧ s.world.Live e.id ∧
      generation e.id s.world.log ≠ g :=
  ⟨refusedBatch 2, ⟨(refusedBatch 2).world, [(⟨1, .accept, 0, some 0⟩, 2)], true⟩,
    ⟨1, .connerr, 0, some 111⟩, 1,
    reach_fresh_collected (by decide) (by decide +kernel) (by decide +kernel) (by decide +kernel),
    step_dispatch (by decide +kernel), rfl, by decide +kernel, by decide +kernel⟩

end Lsocket
