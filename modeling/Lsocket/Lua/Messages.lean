import Lsocket.Lib.Frames
import Lsocket.Lua.Intake

/-!
# From one Lua program to another

Two Lua programs whose sockets are the two ends of a byte stream. What the one has popped, what waits in
its buffer, what is on the stream and what is queued at the other are together what was sent there, in any
interleaving. If the messages end in a one-byte separator, `socket.read` returns them one by one.
-/

namespace Lsocket

/-! ## Separators of one byte -/

namespace Buffer

open CInt

variable {sep : LuaString} {x : UInt8} {cs : List (List UInt8)} {bytes : List UInt8} {b b' : Buf}

/-- A pop with a separator of one byte takes the bytes before its first occurrence, and it. -/
theorem behave_single (hsep : sep.bytes = [x]) (h : (behave (.pop (.string sep)) cs).1 = .ok (.string bytes)) :
    x ∉ bytes ∧ cs.flatten = bytes ++ x :: (behave (.pop (.string sep)) cs).2.flatten := by
  have hwrap : wrap (sep.bytes.length : ℤ) = 1 := by
    rw [show (sep.bytes.length : ℤ) = 1 by simp [hsep]]
    exact wrap_of_nonneg (by decide) (by decide)
  have hcont {B : List UInt8} : Continues sep.mem 1 0 B ↔ B[0]? = some x := by
    have hmem : sep.mem 0 = x := by
      rw [sep.mem_lt 0 (by simp [hsep])]
      simp [hsep]
    constructor
    · exact fun h => hmem ▸ h 0 Nat.zero_lt_one
    · intro h i hi
      obtain rfl : i = 0 := by omega
      rw [h, hmem]
  -- one byte cannot cross the edge of a chunk
  have hinside (p : ℕ) : ¬ Overreads .whole sep.mem 1 cs p := by
    rintro ⟨pre, y, post, -, hpos, hlt, -⟩
    omega
  have hscan := scanFrom_of_inside (r := .whole) Nat.zero_lt_one (k := cs.flatten.length)
    fun p _ _ => hinside p
  have hpos : sep.bytes.length > 0 := by
    rw [hsep]
    exact Nat.zero_lt_one
  simp only [behave, if_pos hpos, popSep, hwrap, if_neg (show ¬ (1 : ℤ) < 0 by decide), Int.toNat_one]
    at h ⊢
  rcases hr : (scanFrom sep.mem 1 cs cs.flatten.length 0).1 with _ | ⟨p, t⟩ <;> rw [hr] at hscan h
  · cases h
  obtain ⟨hp, rfl, hnone, hhere⟩ := hscan
  obtain rfl : cs.flatten.take p = bytes := LuaValue.string.inj (Except.ok.inj h)
  have hx : cs.flatten[p]? = some x := by
    rw [hcont, List.getElem?_drop] at hhere
    exact hhere
  refine ⟨fun hmem => ?_, ?_⟩
  · obtain ⟨q, hq, heq⟩ := List.getElem_of_mem hmem
    rw [List.length_take] at hq
    refine hnone q (by omega) (hcont.mpr ?_)
    rw [List.getElem?_drop, Nat.add_zero, List.getElem?_eq_getElem (by omega), ← heq, List.getElem_take]
  · rw [dropBytes_flatten]
    obtain ⟨hlt, hget⟩ := List.getElem?_eq_some_iff.mp hx
    rw [← hget, ← List.drop_eq_getElem_cons hlt, List.take_append_drop]

/-- The same of a call of `pop`. -/
theorem pop_single (hsep : sep.bytes = [x]) (hinv : Inv b)
    (hcall : (Op.pop (.string sep)).call b = (.ok (.string bytes), b')) :
    x ∉ bytes ∧ content b = bytes ++ x :: content b' := by
  have hal : (Op.pop (.string sep)).Allowed b := trivial
  obtain ⟨hret, hchunks⟩ := call_behave hinv hal
  have hinv' : Inv b' := hinv.call hal (.inl ⟨_, hcall⟩)
  rw [hcall] at hret hchunks
  have hsingle := behave_single hsep hret.symm
  rwa [← hchunks, chunks_flatten hinv, chunks_flatten hinv'] at hsingle

end Buffer

namespace Lua

open CInt

variable {σ τ : Type} {B : Backend σ} {B' : Backend τ} {s s' s₀ : State σ} {i j g : ℕ}

/-- What is popped by a separator of one byte ends before it, and it alone is cut off. -/
def Note.Clean (n : Note) : Prop :=
  ∀ id sep x bytes cut, n = .popped id (.string sep) bytes cut → sep.bytes = [x] →
    x ∉ bytes ∧ cut = [x]

/-- A pop by a separator of one byte from a buffer that is in order. -/
theorem clean_popped {id : ℤ} {mode : Buffer.PopArg} {b b' : Buffer.Buf} {bytes : List UInt8}
    (hinv : Buffer.Inv b) (hcall : (Buffer.Op.pop mode).call b = (.ok (.string bytes), b')) :
    (Note.popped id mode bytes (cutOf b b' bytes)).Clean := by
  rintro _ sep x _ _ hn hsep
  obtain ⟨-, rfl, rfl, rfl⟩ := Note.popped.inj hn
  obtain ⟨hx, hcont⟩ := Buffer.pop_single hsep hinv hcall
  refine ⟨hx, cutOf_eq ?_⟩
  rw [hcont, List.append_assoc]
  rfl

/-- The notes of a call are clean. -/
theorem Called.clean {me : ℕ} {pool pool' : Key → Option Entry} {c : Call} {r : Option Result}
    {ns : List Note} (h : Called me pool c r pool' ns) (hs : Sound pool) : ∀ n ∈ ns, n.Clean := by
  cases h with
  | started => simp [Note.Clean]
  | returned hx hb hcall =>
    simp only [List.mem_cons, List.not_mem_nil, or_false]
    rintro n (rfl | rfl)
    · exact nofun
    · exact clean_popped ((hs _ _ hx).2 _ hb) hcall
  | _ => exact fun _ hn => absurd hn List.not_mem_nil

/-- The state's new notes are clean. -/
def Tidy (s s' : State σ) : Prop := ∃ ns, s'.log = ns ++ s.log ∧ ∀ n ∈ ns, n.Clean

theorem Tidy.same (h : s'.log = s.log) : Tidy s s' := ⟨[], h, by simp⟩

/-- So are those of the handler of `LS_EREAD`. -/
theorem eventRead_tidy {id : ℤ} {a : ℕ} (hs : Sound s.pool) (hw : Ints s.world)
    (ha : ∀ x b, s.pool (.id id) = some x → x.buffer = some b → b.mem.cell a = none) :
    Prog.wp (eventRead B id a) (fun _ s' => Tidy s s') (OnError fun s' => Tidy s s') s := by
  rw [eventRead, Prog.wp_bind, wp_lookup]
  rcases hx : s.pool (.id id) with _ | x
  · exact .same rfl
  have hinv := (hs (.id id) x hx).2
  simp only [Prog.wp_bind]
  refine wp_lread hw fun h w hm => ?_
  have hx₁ : ({ s with world := w, heard := some h } : State σ).pool (.id id) = some x := hx
  rcases h with ⟨block, n⟩ | _ | err
  · simp only [Prog.wp_bind]
    rcases Option.eq_none_or_eq_some x.buffer with hb | ⟨b, hb⟩
    · exact (wp_onBuffer_none hx₁ hb).mpr (.same rfl)
    obtain ⟨hpos, hlen, hmax⟩ := hm
    refine wp_push hx₁ hb (hinv b hb) (ha x b hx hb) hpos hlen hmax fun _ b₁ hinv₁ _ => ?_
    have hx₂ : (({ s with world := w, heard := some (.data block n) } : State σ).setBuffer id x
        b₁).pool (.id id) = some { x with buffer := some b₁ } := Function.update_self ..
    rw [Prog.wp_bind]
    refine wp_pop_call hx₂ rfl (fun b' _ => .same rfl) (fun bytes b' hcall => ?_) (fun b' _ => .same rfl)
      hinv₁
    -- the only note of a read event that can name a message is that of its pop
    exact ⟨[_], rfl, by simpa using clean_popped hinv₁ hcall⟩
  · exact .same rfl
  · simp only [Prog.wp_bind]
    exact wp_disconnect hx₁ (hs.id_eq hx) fun w => .same rfl

/-- Only the handler of `LS_EREAD` pops. -/
theorem Handles.notes_nil {pool pool' : Key → Option Entry} {point : ℕ → Option Point}
    {e : SocketEvent} {heard : Option Heard} {v : Verdict} {ns : List Note}
    (h : Handles pool point e heard v pool' ns) (he : e.type ≠ .read) : ns = [] := by
  cases h with
  | popped he' => exact absurd he' he
  | _ => rfl

/-- So are those of every dispatch. -/
theorem dispatch_tidy {a : ℕ} {e : SocketEvent} {v : Verdict} (h : dispatch B a e s = some (v, s'))
    (hs : Sound s.pool) (hw : Ints s.world)
    (ha : ∀ k x b, s.pool k = some x → x.buffer = some b → b.mem.cell a = none) : Tidy s s' := by
  by_cases he : e.type = .read
  · refine dispatch_of_wp (P := Tidy s) ?_ (fun s₁ s₂ hb _ ⟨ns, hlog, hns⟩ => ?_) h
    · rw [handler_of_read he]
      exact eventRead_tidy (s := { s with heard := none }) hs hw (ha (.id e.id))
    · exact ⟨ns, hb.log.trans hlog, hns⟩
  · obtain ⟨notes, hh, hlog⟩ := dispatch_handles h hs hw ha
    exact .same (by rw [hlog, hh.notes_nil he]; rfl)

/-- In every run, every pop with a separator of one byte takes what is before it. -/
theorem clean_of_reach (h : (script B).Reach s) : ∀ n ∈ s.log, n.Clean := by
  refine h.invariant (I := fun s => ∀ n ∈ s.log, n.Clean) ?_ fun s l s' hr hclean hs => ?_
  · rintro _ ⟨max, junk, rfl⟩ n hn
    cases hn
  have hsound := sound_of_reach hr
  -- it is enough to look at the notes the step adds
  have hadd {ns : List Note} (hlog : s'.log = ns ++ s.log) (hns : ∀ n ∈ ns, n.Clean) :
      ∀ n ∈ s'.log, n.Clean := fun n hn =>
    (List.mem_append.mp (hlog ▸ hn)).elim (hns n) (hclean n)
  obtain ⟨hal, hrun⟩ := hs
  cases Step.ran hrun with
  | @returned c rs vs _ h =>
    obtain ⟨-, -, notes, hcalled, hlog⟩ := Prog.wp_ok (ends_answer hsound c rs) h
    exact hadd hlog (hcalled.clean hsound)
  | @raised c rs _ h =>
    obtain ⟨-, -, notes, hcalled, hlog⟩ := Prog.wp_error (ends_answer hsound c rs) h rfl
    exact hadd hlog (hcalled.clean hsound)
  | @suspended c rs p s₁ _ h hl =>
    obtain ⟨-, -, notes, hcalled, hlog⟩ := Prog.wp_ok (ends_answer hsound c rs) h
    exact hadd ((State.beside_leave hl).log.trans hlog) (hcalled.clean hsound)
  | resumed | finished | polled => exact hclean
  | yielded hl => exact (State.beside_leave hl).log ▸ hclean
  | @dispatched a rs e rest v s₁ hp h =>
    obtain ⟨notes, hlog, hns⟩ := dispatch_tidy (s := s.answer rs) h hsound hal.1 hal.2
    have hlog' : .turn (turn s e v s₁) :: s₁.log = (.turn (turn s e v s₁) :: notes) ++ s.log :=
      congrArg (_ :: ·) hlog
    exact hadd hlog' (List.forall_mem_cons.mpr ⟨nofun, hns⟩)

/-! ## Messages -/

/-- The bytes that were taken from the buffer of the socket since its entry was made. -/
def takenFrom (j : ℕ) (log : List Note) : List UInt8 := (since j log).flatMap (Note.taken j)

/-- The messages that `socket.read` has returned since then, or that the handler had for the coroutine. -/
def offeredBy (j : ℕ) (log : List Note) : List (List UInt8) := (since j log).flatMap (Note.offered j)

/-- Every pop is by the separator `sep`. -/
def PopsBy (sep : UInt8) (j : ℕ) (ns : List Note) : Prop :=
  ∀ mode bytes cut, .popped j mode bytes cut ∈ ns → ∃ str, mode = .string str ∧ str.bytes = [sep]

/-- What is taken are frames of what is popped. -/
theorem taken_eq_frames {sep : UInt8} {ns : List Note} (hpops : PopsBy sep j ns)
    (hclean : ∀ n ∈ ns, n.Clean) :
    ns.flatMap (Note.taken j) = Frames.frames sep (ns.flatMap (Note.message j)) ∧
      ∀ m ∈ ns.flatMap (Note.message j), sep ∉ m := by
  induction ns with
  | nil => exact ⟨rfl, by simp⟩
  | cons n ns ih =>
    rw [List.forall_mem_cons] at hclean
    have ih := ih (fun mode bytes cut hn => hpops mode bytes cut (List.mem_cons_of_mem _ hn)) hclean.2
    rw [List.flatMap_cons, List.flatMap_cons]
    -- a note that takes nothing from socket `j` adds no message of it either
    have hother (h : n.taken j = [] ∧ n.message j = []) : n.taken j ++ ns.flatMap (Note.taken j) =
        Frames.frames sep (n.message j ++ ns.flatMap (Note.message j)) ∧
          ∀ m ∈ n.message j ++ ns.flatMap (Note.message j), sep ∉ m := by
      rw [h.1, h.2]
      exact ih
    cases n with
    | popped id mode bytes cut =>
      by_cases hid : id = j
      · subst hid
        obtain ⟨str, rfl, hstr⟩ := hpops mode bytes cut List.mem_cons_self
        obtain ⟨hsep, rfl⟩ := hclean.1 _ str sep bytes cut rfl hstr
        simp only [Note.taken, Note.message, if_pos, List.singleton_append]
        rw [Frames.frames_cons, ih.1, List.forall_mem_cons, List.append_assoc]
        exact ⟨rfl, hsep, ih.2⟩
      · exact hother ⟨if_neg hid, if_neg hid⟩
    | _ => exact hother ⟨rfl, rfl⟩

/-! ## Two Lua programs and a stream -/

/-- A step adds to what happened in the net. -/
theorem log_suffix_of_step {l : Step} (h : (properScript B).step s l s') (hs : (properScript B).Reach s) :
    s.world.log <:+ s'.world.log :=
  (step_kept (O := fun _ => True) h (reached_of_script hs) fun _ _ => trivial).passage.log_suffix

/-- A slot has had no fewer connections later. -/
theorem generation_le_of_run (h₀ : (properScript B).Reach s₀)
    (h : ((properScript B).startedIn s₀).Reach s) :
    generation i s₀.world.log ≤ generation i s.world.log := by
  refine h.invariant (I := fun s => generation i s₀.world.log ≤ generation i s.world.log) ?_
    fun s l s' hr ih hs => ?_
  · rintro _ rfl
    exact le_rfl
  · obtain ⟨evs, hlog⟩ := log_suffix_of_step hs (.of_startedIn h₀ hr)
    exact ih.trans (hlog ▸ generation_le i evs s.world.log)

/-- Lua code with a socket in slot `i`, as a source of bytes. -/
def talking (h₀ : (properScript B).Reach s₀) (i : ℕ) : Channel.Source (State σ) Step UInt8 where
  toSystem := (properScript B).startedIn s₀
  out s := writtenTo i (generation i s₀.world.log) s.world.log
  grows h hs := by
    obtain ⟨evs, hlog⟩ := log_suffix_of_step hs (.of_startedIn h₀ h)
    rw [← hlog]
    exact (since_upTo_le (fun _ _ _ => rfl) (generation_le_of_run h₀ h) evs).map Prod.fst

/-- Lua code with a socket in slot `j`, as a sink of bytes. -/
def listening (h₀ : (properScript B).Reach s₀) (j : ℕ) : Channel.Sink (State σ) Step UInt8 where
  toSystem := (properScript B).startedIn s₀
  taken s := heard j (generation j s₀.world.log) s.world.log
  attends s := s.world.Attends j (generation j s₀.world.log)
  grows h hs := by
    obtain ⟨evs, hlog⟩ := log_suffix_of_step hs (.of_startedIn h₀ h)
    rw [← hlog]
    exact since_upTo_le (fun _ _ _ => rfl) (generation_le_of_run h₀ h) evs
  deaf h hn hs := by
    have hR := reached_of_script (.of_startedIn h₀ h)
    have hpass := (step_kept (O := fun _ => True) hs hR fun _ _ => trivial).passage
    have hle := generation_le_of_run (i := j) h₀ h
    have hn := World.attends_iff.not.mp hn
    exact ⟨World.attends_iff.not.mpr fun hatt => hn (hpass.attends hR.2 hle hatt),
      hpass.heard_eq hR.2 hle hn⟩

/-- The Lua code of the one side has popped `taken` from its socket `j`, and `x` is the entry of that. On
the other side data were sent on the connection `g` of slot `i`. -/
structure Conveys (i g j : ℕ) (s : Channel.State (State σ) (State τ) UInt8) (x : Entry) : Prop where
  /-- What was popped and what is unread are the beginning of the data. -/
  order : takenFrom j s.receiver.log ++ x.unread <+: givenTo i g s.sender.world.log
  /-- As long as nothing is lost, the rest is on its way or queued. -/
  rest : s.whole = true → s.sender.world.Live i → generation i s.sender.world.log = g →
    takenFrom j s.receiver.log ++ x.unread ++ s.inflight ++ (s.sender.world.queue i).flatMap Chunk.bytes
      = givenTo i g s.sender.world.log
  /-- When the end of the writing was reported, the rest is on its way. -/
  drained : s.whole = true → .wridoneclose ∈ told i g s.sender.world.log →
    takenFrom j s.receiver.log ++ x.unread ++ s.inflight = givenTo i g s.sender.world.log
  /-- If the data are messages that end in `sep`, and are popped by it, then the first messages were
  returned by `socket.read` or offered to the coroutine, and the rest of the data are the other ones. -/
  messages : ∀ sep ms, givenTo i g s.sender.world.log = Frames.frames sep ms → (∀ m ∈ ms, sep ∉ m) →
    PopsBy sep j (since j s.receiver.log) → ∃ qs, ms = offeredBy j s.receiver.log ++ qs ∧
      (s.whole = true → s.sender.world.Live i → generation i s.sender.world.log = g →
        x.unread ++ s.inflight ++ (s.sender.world.queue i).flatMap Chunk.bytes = Frames.frames sep qs)

/-- The messages that were popped are the first ones. -/
theorem split_messages {sep : UInt8} {ms : List (List UInt8)} {x : Entry} {rest : List UInt8}
    (hs : (script B).Reach s) (hx : s.pool (.id j) = some x) (hms : ∀ m ∈ ms, sep ∉ m)
    (hpops : PopsBy sep j (since j s.log)) (h : takenFrom j s.log ++ rest = Frames.frames sep ms) :
    ∃ qs, ms = offeredBy j s.log ++ qs ∧ rest = Frames.frames sep qs := by
  have hclean : ∀ n ∈ since j s.log, n.Clean := fun n hn =>
    clean_of_reach hs n (List.takeWhile_subset _ (List.mem_reverse.mp hn))
  obtain ⟨htaken, hsep⟩ := taken_eq_frames hpops hclean
  rw [(balanced_of_reach hs hx).order] at htaken hsep
  rw [takenFrom, htaken] at h
  exact Frames.split hms hsep h

/-- Two Lua programs, where slot `i` of the one is joined to slot `j` of the other by a stream, from a time
when nothing was written or read there: in every interleaving of their steps, as long as the receiving
socket attends, the data that were sent are what was popped, what is unread in the buffer, on the stream
and queued, in this order; and messages that end in a separator come out one by one. -/
theorem messages_delivered {t₀ : State τ} {s : Channel.State (State σ) (State τ) UInt8}
    (hs : (properScript B).Reach s₀) (ht : (properScript B').Reach t₀) (hl : Listens j t₀)
    (h : (Channel.system (talking hs i) (listening ht j)).Reach s)
    (hatt : s.receiver.world.Attends j (generation j t₀.world.log)) :
    ∃ x, s.receiver.pool (.id j) = some x ∧ Conveys i (generation i s₀.world.log) j s x := by
  have hsender := reached_of_script (.of_startedIn hs (Channel.reach_sender h))
  have hreceiver : (properScript B').Reach s.receiver := .of_startedIn ht (Channel.reach_receiver h)
  have hships : Shipped i (upTo i (generation i s₀.world.log) s.sender.world.log) :=
    (reach_ships hsender.2 i).upTo _
  obtain ⟨htaken, -, hwhole⟩ := Channel.reach_conserved h
  have hled := reach_ledger ht hl (Channel.reach_receiver h)
  obtain ⟨x, hx, hbal⟩ := hled.balance hreceiver (World.attends_iff.mp hatt)
  -- what was taken and is unread was read, what was read was written, what was written was given
  have horder : takenFrom j s.receiver.log ++ x.unread <+:
      givenTo i (generation i s₀.world.log) s.sender.world.log := by
    rw [takenFrom, hbal]
    exact htaken.trans (hships.start.map Prod.fst)
  have hout (hw : s.whole = true) : takenFrom j s.receiver.log ++ x.unread ++ s.inflight =
      writtenTo i (generation i s₀.world.log) s.sender.world.log := by
    rw [takenFrom, hbal]
    exact hwhole hatt hw
  -- while the sender lives, what is not written yet is in its queue
  have hrest (hw : s.whole = true) (hlive : s.sender.world.Live i)
      (hgen : generation i s.sender.world.log = generation i s₀.world.log) :
      takenFrom j s.receiver.log ++ x.unread ++ s.inflight ++
        (s.sender.world.queue i).flatMap Chunk.bytes =
          givenTo i (generation i s₀.world.log) s.sender.world.log := by
    have hslot : s.sender.world.abs.slot i = some _ := if_pos hlive
    have hstream := (reach_streaming hsender.2).conn i _ hslot
    rw [hout hw, givenTo, writtenTo, upTo_of_le hgen.le, ← map_fst_streams, ← List.map_append]
    exact congrArg _ hstream
  have hdrained (hw : s.whole = true)
      (hdone : .wridoneclose ∈ told i (generation i s₀.world.log) s.sender.world.log) :
      takenFrom j s.receiver.log ++ x.unread ++ s.inflight =
        givenTo i (generation i s₀.world.log) s.sender.world.log := by
    rw [hout hw, givenTo, writtenTo, hships.all hdone]
  refine ⟨x, hx, horder, hrest, hdrained, fun sep ms hgiven hms hpops => ?_⟩
  obtain ⟨rest, hahead⟩ := horder
  rw [hgiven, List.append_assoc] at hahead
  obtain ⟨qs, hqs, htail⟩ := split_messages hreceiver.of_restrict hx hms hpops hahead
  refine ⟨qs, hqs, fun hw hlive hgen => ?_⟩
  have hall := hrest hw hlive hgen
  rw [← hgiven] at hahead
  rw [← htail]
  refine (List.append_right_inj (takenFrom j s.receiver.log)).mp ?_
  rw [hahead, ← hall]
  simp only [List.append_assoc]

/-- A semicolon. -/
def semicolon : Buffer.LuaString where
  bytes := [59]
  mem k := [59].getD k 0
  mem_lt := by decide
  mem_length := rfl

/-- The steps before: a coroutine connects. -/
def dial : List Step :=
  [.resume 1,
    .call .connect [{ count := 1 }, { ret := 5 }, { ret := 0 }, { ret := 0 }, { ret := 0 }, { ret := 0 }]]

/-- It waits for a message that ends in a semicolon, and two bytes have come. -/
def await : List Step :=
  dial ++ [.call (.readenable 0 true) [{ ret := 0 }], .call (.read 0 (.string semicolon)) [],
    .poll 0 [{ ret := 1, ready := [⟨5, true, false, false⟩] }]]

/-- Two messages are sent, and three bytes of four are written. -/
def sendTwo : Step :=
  .call (.send 0 (.string [104, 59, 105, 59] none none 1) 0) [{ ret := 3 }, { addr := 2 }, { ret := 0 }]

/-- Two bytes are read. -/
def readFirst : Step := .dispatch 1 [{ ret := 2, bytes := [104, 59] }]

/-- The state after one more step. -/
def next (ls : List Step) (l : Step) : State Epoll :=
  (l.run epoll (after epoll 1 ls)).getD (after epoll 1 ls)

/-- All calls of the run are proper. -/
theorem proper_await {l : Step} (hl : l ∈ await) : l.Proper := by
  simp only [await, dial, List.cons_append, List.nil_append, List.mem_cons, List.not_mem_nil, or_false] at hl
  rcases hl with rfl | rfl | rfl | rfl | rfl <;> trivial

/-- Where the run ends is reached. -/
theorem proper_after {ls : List Step} (hp : ∀ l ∈ ls, l.Proper)
    (he : (exec epoll ls (.initial epoll 1 zeroed)).isSome) :
    (properScript epoll).Reach (after epoll 1 ls) := by
  obtain ⟨s, hs⟩ := Option.isSome_iff_exists.mp he
  rw [after, hs]
  exact reach_exec (.init ⟨1, zeroed, rfl⟩) hp hs

/-- One more step of it. -/
theorem step_next {ls : List Step} {l : Step} (h : (properScript epoll).Reach (after epoll 1 ls))
    (hl : l.Proper) (hf : l.fits (after epoll 1 ls) = true)
    (hr : (l.run epoll (after epoll 1 ls)).isSome) :
    (properScript epoll).step (after epoll 1 ls) l (next ls l) := by
  obtain ⟨s, hs⟩ := Option.isSome_iff_exists.mp hr
  exact ⟨⟨Step.allowed_of_fits h.of_restrict hf, by rw [next, hs]; rfl⟩, hl⟩

theorem buffered_of_isSome {pool : Key → Option Entry}
    (h : ((pool (.id j)).bind Entry.buffer).isSome = true) : Buffered pool j := by
  obtain ⟨b, hb⟩ := Option.isSome_iff_exists.mp h
  obtain ⟨x, hx, hb⟩ := Option.bind_eq_some_iff.mp hb
  exact ⟨x, hx, hb ▸ rfl⟩

/-- One step on each side. -/
theorem reach_exchange {t₀ t' : State τ} {l m : Step} {gone rest : List UInt8}
    (hs : (properScript B).Reach s₀) (ht : (properScript B').Reach t₀)
    (hout : writtenTo i (generation i s₀.world.log) s₀.world.log = [])
    (hnone : heard j (generation j t₀.world.log) t₀.world.log = [])
    (hl : (properScript B).step s₀ l s) (hm : (properScript B').step t₀ m t')
    (hput : writtenTo i (generation i s₀.world.log) s.world.log = gone ++ rest)
    (htake : heard j (generation j t₀.world.log) t'.world.log = gone) :
    (Channel.system (talking hs i) (listening ht j)).Reach ⟨s, t', rest, true⟩ := by
  let C := talking hs i
  let D := listening ht j
  have hinit : (Channel.system C D).Reach ⟨s₀, t₀, [], true⟩ := .init ⟨rfl, rfl, hout, hnone, rfl, rfl⟩
  have hsend : Channel.Step C D ⟨s₀, t₀, [], true⟩ (some (.inl l)) ⟨s, t₀, [] ++ (gone ++ rest), true⟩ :=
    .put hl (hput.trans (congrArg (· ++ (gone ++ rest)) hout.symm))
  have hread : Channel.Step C D ⟨s, t₀, gone ++ ([] ++ rest), true⟩ (some (.inr m)) ⟨s, t', rest, true⟩ :=
    .take hm (htake.trans (congrArg (· ++ gone) hnone.symm)) (absurd rfl)
  exact (hinit.step hsend).step hread

/-- The first of two messages has come out, and one byte is on its way and one is queued. -/
theorem messages_delivered_first : ∃ x, (next await readFirst).pool (.id (0 : ℕ)) = some x ∧
    Conveys 0 1 0 ⟨next dial sendTwo, next await readFirst, [105], true⟩ x := by
  have hdial : (properScript epoll).Reach (after epoll 1 dial) :=
    proper_after (fun l hl => proper_await (List.mem_append_left _ hl)) (by decide +kernel)
  have hawait : (properScript epoll).Reach (after epoll 1 await) :=
    proper_after (fun l hl => proper_await hl) (by decide +kernel)
  have hgen : generation 0 (after epoll 1 dial).world.log = 1 := by decide +kernel
  have hbuf : (((after epoll 1 await).pool (.id (0 : ℕ))).bind Entry.buffer).isSome := by decide +kernel
  have hempty : arrivals 0 (after epoll 1 await).log = [] := by decide +kernel
  have hunheard : heard 0 (generation 0 (after epoll 1 await).world.log) (after epoll 1 await).world.log
      = [] := by decide +kernel
  have hlisten : Listens 0 (after epoll 1 await) :=
    ⟨by decide +kernel, by decide +kernel, buffered_of_isSome hbuf, hempty, hunheard⟩
  have hnone : writtenTo 0 (generation 0 (after epoll 1 dial).world.log)
      (after epoll 1 dial).world.log = [] := by decide +kernel
  have hsent : writtenTo 0 (generation 0 (after epoll 1 dial).world.log) (next dial sendTwo).world.log
      = [104, 59] ++ [105] := by decide +kernel
  have hread : heard 0 (generation 0 (after epoll 1 await).world.log) (next await readFirst).world.log
      = [104, 59] := by decide +kernel
  have hlive : (next await readFirst).world.Live 0 := by decide +kernel
  have hsame : generation 0 (next await readFirst).world.log =
      generation 0 (after epoll 1 await).world.log := by decide +kernel
  have hopen : ((next await readFirst).world.net.sockets 0).status ≠ .halfclose := by decide +kernel
  have hput := step_next (l := sendTwo) hdial trivial (by decide +kernel) (by decide +kernel)
  have htake := step_next (l := readFirst) hawait trivial (by decide +kernel) (by decide +kernel)
  have hreach := reach_exchange hdial hawait hnone hunheard hput htake hsent hread
  have hatt : (next await readFirst).world.Attends 0 (generation 0 (after epoll 1 await).world.log) :=
    ⟨hlive, hsame, fun h => hopen h.2⟩
  have h := messages_delivered hdial hawait hlisten hreach hatt
  simpa only [hgen] using h

end Lua

end Lsocket
