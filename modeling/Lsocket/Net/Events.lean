import Lsocket.Net.Opens
import Lsocket.Lib.History

/-!
# The events of a change

Which events a change records, and what the log says about a slot: whether it is occupied, how many
connections it has held, and what happened since it was opened.
-/

namespace Lsocket

variable {σ : Type} {B : Backend σ} {a a' : Abs σ} {i j : ℕ} {c c' : Conn} {op : Op} {v : ℤ}
variable {np np' : σ} {evs : List Ev}

/-! ## Events about one slot -/

/-- An event in the work on the connection in slot `i`. -/
def Ev.Local (i : ℕ) : Ev → Prop
  | .offered j _ | .sent j _ _ | .received j _ _ | .completed j _ | .subscribed j _ _ => j = i
  | .freed _ => True
  | _ => False

/-- The same, or an event that tells that the connection is about to end. -/
def Ev.About (i : ℕ) : Ev → Prop
  | .halfclosed j _ => j = i
  | .raised e => e.id = i
  | e => e.Local i

theorem Ev.Local.about {e : Ev} (h : e.Local i) : e.About i := by
  cases e <;> first | exact h | exact h.elim

/-- An event of writing to the connection. -/
def Ev.Writes (i : ℕ) : Ev → Prop
  | .sent j _ _ => j = i
  | .freed _ => True
  | _ => False

theorem Ev.Writes.isLocal {e : Ev} (h : e.Writes i) : e.Local i := by
  cases e <;> first | exact h | exact h.elim

/-- The event that frees a chunk counts as work of writing. -/
theorem Chunk.freed_writes (b : Chunk) : ∀ e ∈ b.freed, e.Writes i := by
  unfold Chunk.freed
  rcases b.begin with _ | token <;> simp [Ev.Writes]

/-- So does the one of a write. -/
theorem wrote_writes (p : Protocol) (b : Chunk) (n : ℤ) : ∀ e ∈ wrote i p b n, e.Writes i := by
  unfold wrote
  split <;> simp [Ev.Writes]

theorem Chunk.freed_local (b : Chunk) : ∀ e ∈ b.freed, e.Local i :=
  fun e he => (b.freed_writes e he).isLocal

theorem wrote_local (p : Protocol) (b : Chunk) (n : ℤ) : ∀ e ∈ wrote i p b n, e.Local i :=
  fun e he => (wrote_writes p b n e he).isLocal

/-- A change of interest is about its own slot. -/
theorem Subscribe.events_local {fd r : ℤ} {old new mask : Mask}
    (h : Subscribe B i fd old new np r mask np' evs) : ∀ e ∈ evs, e.Local i := by
  cases h <;> simp [Ev.Local]

/-- A drain only writes and frees. -/
theorem Drain.writes (h : Drain i c c' evs) : ∀ e ∈ evs, e.Writes i := by
  induction h with
  | stop => simp
  | part => exact wrote_writes _ _ _
  | next hq h ih =>
    simp only [List.mem_append]
    rintro e (he | he | he)
    · exact ih e he
    · exact Chunk.freed_writes _ e he
    · exact wrote_writes _ _ _ e he

theorem Drain.events_local (h : Drain i c c' evs) : ∀ e ∈ evs, e.Local i :=
  fun e he => (h.writes e he).isLocal

/-- A write event is about its own slot. -/
theorem Flush.events_local (h : Flush B i c np c' np' evs) : ∀ e ∈ evs, e.Local i := by
  cases h with
  | idle => simp
  | rest h => exact h.events_local
  | done _ h _ hs =>
    simp only [List.mem_append]
    rintro e (he | he)
    · exact hs.events_local e he
    · exact h.events_local e he

/-- Half-closing apart, the events of a step are the work on the connection. -/
theorem ConnStep.events_local (h : ConnStep B op v i c np c' np' evs) :
    (∀ e ∈ evs, e.Local i) ∨ (evs = [.halfclosed i c.queue] ∧ op = .close i false ∧ v = 1 ∧
      c.queue ≠ [] ∧ c' = { c with status := .halfclose }) := by
  cases h with
  -- the half-close is logged with the queue it still has to send
  | half hop hv hq => exact .inr ⟨rfl, hop, hv, hq, rfl⟩
  | tune => exact .inl (by simp)
  | received => exact .inl (by simp [Ev.Local])
  | enable _ h => exact .inl h.events_local
  | whole =>
    left
    simp only [List.mem_append, List.mem_singleton]
    rintro e ((he | he) | rfl)
    · exact Chunk.freed_local _ e he
    · exact wrote_local _ _ _ e he
    · rfl
  | start _ _ _ _ hs =>
    left
    simp only [List.mem_append, List.mem_singleton]
    rintro e (he | he | rfl)
    · exact hs.events_local e he
    · exact wrote_local _ _ _ e he
    · rfl
  | behind => exact .inl (by simp [Ev.Local])
  | flushed _ h => exact .inl h.events_local
  | completed _ _ h =>
    left
    simp only [List.mem_append, List.mem_singleton]
    rintro e (he | rfl)
    · exact h.events_local e he
    · rfl

/-- A step of a connection is about its own slot. -/
theorem ConnStep.about (h : ConnStep B op v i c np c' np' evs) : ∀ e ∈ evs, e.About i := by
  rcases h.events_local with h | ⟨rfl, -⟩
  · exact fun e he => (h e he).about
  · simp [Ev.About]

/-- What comes before the end of a connection is about its own slot. -/
theorem Closing.about (h : Closing B op v i c np c' np' evs) : ∀ e ∈ evs, e.About i := by
  cases h with
  | forced | idle | destroyed | unread | unconnected => simp
  | unsent =>
    simp only [List.mem_append, List.mem_singleton]
    rintro e (he | he | rfl)
    · exact (Chunk.freed_local _ e he).about
    · exact (wrote_local _ _ _ e he).about
    · rfl
  | broken _ _ _ h =>
    simp only [List.mem_cons]
    rintro e (rfl | he)
    · rfl
    · exact (h.events_local e he).about
  | finished _ _ _ h =>
    simp only [List.mem_cons]
    rintro e (rfl | he)
    · rfl
    · exact (h.events_local e he).about

/-- What comes after a connection is opened is about its own slot. -/
theorem Opening.Makes.events_local (h : Opening.Makes B op i c np c' np' evs) :
    ∀ e ∈ evs, e.Local i := by
  cases h with
  | listening _ h => exact h.events_local
  | connecting _ h => exact h.events_local
  | connected | accepted | bound => simp

/-! ## The log of a close -/

/-- The events of freeing a queue. -/
def freedEvs : List Chunk → List Ev
  | [] => []
  | c :: q => freedEvs q ++ c.freed

/-- The chunks of a queue are freed from the front on. -/
theorem freedLog_eq (q : List Chunk) (log : List Ev) : freedLog q log = freedEvs q ++ log := by
  induction q generalizing log with
  | nil => rfl
  | cons c q ih =>
    unfold freedLog freedEvs Chunk.freed
    rcases c.begin with _ | token
    · simp [ih]
    · simp [ih]

theorem mem_freedEvs {q : List Chunk} {e : Ev} (h : e ∈ freedEvs q) : ∃ token, e = .freed token := by
  induction q with
  | nil => cases h
  | cons c q ih =>
    rcases List.mem_append.mp h with h | h
    · exact ih h
    · unfold Chunk.freed at h
      obtain ⟨token, -, rfl⟩ := List.mem_map.mp h
      exact ⟨token, rfl⟩

/-- The events of a close, behind the one that says so. -/
def closeEvs (c : Conn) : List Ev :=
  freedEvs c.queue ++ if c.fd > STDERR_FILENO then [.released c.fd] else []

/-- At the end of a connection, its queue and its descriptor are released. -/
theorem mem_closeEvs {e : Ev} (h : e ∈ closeEvs c) : (∃ token, e = .freed token) ∨ e = .released c.fd := by
  rcases List.mem_append.mp h with h | h
  · exact .inl (mem_freedEvs h)
  · split at h
    · exact .inr (List.mem_singleton.mp h)
    · cases h

/-- The events at the end of a connection. -/
theorem Abs.close_log : (a.close i B c).log = closeEvs c ++ .closed i c.fd c.mask :: a.log := by
  unfold Abs.close closeEvs
  split <;> simp [Abs.freeData, Abs.remove, Abs.emit, Abs.closeFd, freedLog_eq]

@[simp] theorem Abs.close_free : (a.close i B c).free = a.free ++ [i] := by
  unfold Abs.close
  split <;> rfl

@[simp] theorem Abs.close_max : (a.close i B c).max = a.max := by
  unfold Abs.close
  split <;> rfl

/-! ## What the log says about a slot -/

/-- Events that open or close no slot. -/
def Ev.Steady : Ev → Prop
  | .opened .. | .closed .. | .refused => False
  | _ => True

theorem Ev.About.steady {e : Ev} (h : e.About i) : e.Steady := by
  cases e <;> trivial

theorem Ev.Local.steady {e : Ev} (h : e.Local i) : e.Steady := h.about.steady

theorem Ev.Note.steady {e : Ev} (h : e.Note) : e.Steady := by
  cases e <;> trivial

/-- The events after a slot is closed open and close none. -/
theorem closeEvs_steady : ∀ e ∈ closeEvs c, e.Steady := by
  intro e he
  rcases mem_closeEvs he with ⟨token, rfl⟩ | rfl <;> trivial

/-- Whether the slot is occupied. -/
def occupied (i : ℕ) : List Ev → Bool
  | [] => false
  | .opened j _ _ :: log => j = i || occupied i log
  | .closed j _ _ :: log => j ≠ i && occupied i log
  | _ :: log => occupied i log

/-- Only opening and closing decide whether a slot is occupied. -/
theorem occupied_ignores (i : ℕ) : Ignores (occupied i) Ev.Steady := by
  intro e log he
  cases e <;> first | rfl | exact he.elim

/-- An event that opens the slot. -/
def Ev.Opens (i : ℕ) : Ev → Prop
  | .opened j _ _ => j = i
  | _ => False

/-- How many connections a slot has held. -/
def generation (i : ℕ) : List Ev → ℕ
  | [] => 0
  | .opened j _ _ :: log => if j = i then generation i log + 1 else generation i log
  | _ :: log => generation i log

/-- Only opening makes a new generation. -/
theorem generation_ignores (i : ℕ) : Ignores (generation i) fun e => ¬ e.Opens i := by
  intro e log he
  cases e with
  | opened j => exact if_neg he
  | _ => rfl

/-- What the events since the slot was opened last contribute, oldest first. -/
def since {β : Type} (i : ℕ) (f : Ev → List β) : List Ev → List β
  | [] => []
  | e :: log =>
    match e with
    | .opened j _ _ => if j = i then [] else since i f log
    | e => since i f log ++ f e

section Since

variable {β : Type} {f : Ev → List β} {log : List Ev}

theorem since_cons {e : Ev} (h : ¬ e.Opens i) (ho : ∀ j fd p, f (.opened j fd p) = []) :
    since i f (e :: log) = since i f log ++ f e := by
  cases e with
  | opened j fd p => rw [ho, List.append_nil]; exact if_neg h
  | _ => rfl

/-- What happens to a connection is the sum of the events since it was opened. -/
theorem since_append (h : ∀ e ∈ evs, ¬ e.Opens i) (ho : ∀ j fd p, f (.opened j fd p) = []) :
    since i f (evs ++ log) = since i f log ++ since i f evs := by
  induction evs with
  | nil => exact (List.append_nil _).symm
  | cons e evs ih =>
    have he := h e List.mem_cons_self
    rw [List.cons_append, since_cons he ho, since_cons he ho, ih fun x hx => h x (List.mem_cons_of_mem _ hx),
      List.append_assoc]

/-- Events that contribute nothing. -/
theorem since_eq_nil (h : ∀ e ∈ evs, ¬ e.Opens i ∧ f e = []) (ho : ∀ j fd p, f (.opened j fd p) = []) :
    since i f evs = [] := by
  induction evs with
  | nil => rfl
  | cons e evs ih =>
    rw [since_cons (h e List.mem_cons_self).1 ho, (h e List.mem_cons_self).2,
      ih fun x hx => h x (List.mem_cons_of_mem _ hx)]
    rfl

end Since

theorem Ev.Steady.not_opens {e : Ev} (h : e.Steady) : ¬ e.Opens i := by
  cases e <;> first | exact id | exact h.elim

end Lsocket
