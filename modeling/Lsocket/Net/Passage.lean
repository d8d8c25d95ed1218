import Lsocket.Net.Peer

/-!
# What many calls do to a slot

Between two times of a run a net goes through changes of many calls (`Passage`). What is known of one
change carries over: data are read by `socket_read` only, a connection keeps its protocol, and one that no
longer attends stays so. What `socket_read` itself takes is exactly what it returns (`does_socketRead_hands`).
-/

namespace Lsocket

open CInt

variable {σ : Type} {B : Backend σ} {a a' a'' : Abs σ} {i j g : ℕ} {c c' : Conn} {op : Op} {v : ℤ}
variable {np np' : σ} {evs log : List Ev} {O : Op → Prop} {w w' : World σ}

/-! ## Passages -/

/-- Changes, each of a call in `O`. -/
def Passage (B : Backend σ) (O : Op → Prop) : Abs σ → Abs σ → Prop :=
  Relation.ReflTransGen fun a a' => ∃ op v, O op ∧ Change B op v a a'

namespace Passage

protected theorem refl (a : Abs σ) : Passage B O a a := Relation.ReflTransGen.refl

protected theorem trans (h : Passage B O a a') (h' : Passage B O a' a'') : Passage B O a a'' :=
  Relation.ReflTransGen.trans h h'

/-- A call of `O`. -/
theorem of_changes (h : Changes B op v a a') (hop : O op) : Passage B O a a' :=
  Relation.ReflTransGen.mono (fun _ _ h => ⟨op, v, hop, h⟩) _ _ h

/-- What calls make of a net that is reached is reached. -/
theorem reach (h : Passage B O a a') (ha : (changes B).Reach a) : (changes B).Reach a' := by
  induction h with
  | refl => exact ha
  | tail _ h ih =>
    obtain ⟨op, v, -, h⟩ := h
    exact ih.step (l := ⟨op, v⟩) h

/-- What every change of the calls keeps. -/
theorem keeps {I : Abs σ → Prop} (h : Passage B O a a') (ha : (changes B).Reach a)
    (hstep : ∀ op v a a', O op → (changes B).Reach a → I a → Change B op v a a' → I a') (hI : I a) :
    I a' := by
  induction h with
  | refl => exact hI
  | tail hpre h ih =>
    obtain ⟨op, v, hop, h⟩ := h
    exact hstep op v _ _ hop (reach hpre ha) ih h

/-- The log grows. -/
theorem log_suffix (h : Passage B O a a') : a.log <:+ a'.log := by
  induction h with
  | refl => exact List.suffix_rfl
  | tail _ h ih =>
    obtain ⟨op, v, -, h⟩ := h
    exact ih.trans h.log_suffix

/-- The array keeps its length. -/
theorem max_eq (h : Passage B O a a') : a'.max = a.max := by
  induction h with
  | refl => rfl
  | tail _ h ih =>
    obtain ⟨op, v, -, h⟩ := h
    exact (Changes.max_eq (.single h)).trans ih

end Passage

/-! ## Who reads -/

theorem Chunk.received_not_mem {k : ℕ} {bytes : List UInt8} {cfd : Option ℤ} (b : Chunk) :
    .received k bytes cfd ∉ b.freed := fun he => b.freed_writes (i := k) _ he

theorem wrote_received_not_mem {k : ℕ} {bytes : List UInt8} {cfd : Option ℤ} (p : Protocol) (b : Chunk)
    (n : ℤ) : .received k bytes cfd ∉ wrote i p b n := fun he => wrote_writes p b n _ he

theorem Drain.received_not_mem {k : ℕ} {bytes : List UInt8} {cfd : Option ℤ} (h : Drain i c c' evs) :
    .received k bytes cfd ∉ evs := fun he => h.writes _ he

theorem Subscribe.received_not_mem {k : ℕ} {bytes : List UInt8} {cfd : Option ℤ} {fd r : ℤ}
    {old new mask : Mask} (h : Subscribe B i fd old new np r mask np' evs) :
    .received k bytes cfd ∉ evs := by
  cases h <;> simp

theorem Flush.received_not_mem {k : ℕ} {bytes : List UInt8} {cfd : Option ℤ}
    (h : Flush B i c np c' np' evs) : .received k bytes cfd ∉ evs := by
  cases h with
  | idle => exact List.not_mem_nil
  | rest h => exact h.received_not_mem
  | done _ h _ hs =>
    exact fun he => (List.mem_append.mp he).elim hs.received_not_mem h.received_not_mem

/-- Only a read on the slot hands out data. -/
theorem ConnStep.op_of_received {k : ℕ} {bytes : List UInt8} {cfd : Option ℤ}
    (h : ConnStep B op v i c np c' np' evs) (he : .received k bytes cfd ∈ evs) : op = .read k := by
  cases h with
  | received hop =>
    obtain ⟨rfl, -⟩ : k = i ∧ _ := by simpa using he
    exact hop
  | tune | half | behind => simp at he
  | enable _ h => exact absurd he h.received_not_mem
  | whole =>
    simp only [List.mem_append, List.mem_singleton, reduceCtorEq, or_false] at he
    exact he.elim (absurd · (Chunk.received_not_mem _)) (absurd · (wrote_received_not_mem _ _ _))
  | start _ _ _ _ h =>
    simp only [List.mem_append, List.mem_singleton, reduceCtorEq, or_false] at he
    exact he.elim (absurd · h.received_not_mem) (absurd · (wrote_received_not_mem _ _ _))
  | flushed _ h => exact absurd he h.received_not_mem
  | completed _ _ h =>
    simp only [List.mem_append, List.mem_singleton, reduceCtorEq, or_false] at he
    exact absurd he h.received_not_mem

theorem Closing.received_not_mem {k : ℕ} {bytes : List UInt8} {cfd : Option ℤ}
    (h : Closing B op v i c np c' np' evs) : .received k bytes cfd ∉ evs := by
  cases h with
  | forced | idle | destroyed | unread | unconnected => exact List.not_mem_nil
  | unsent =>
    simp only [List.mem_append, List.mem_singleton, reduceCtorEq, or_false, not_or]
    exact ⟨Chunk.received_not_mem _, wrote_received_not_mem _ _ _⟩
  | broken _ _ _ h =>
    simp only [List.mem_cons, reduceCtorEq, false_or]
    exact h.received_not_mem
  | finished _ _ _ h =>
    simp only [List.mem_cons, reduceCtorEq, false_or]
    exact h.received_not_mem

theorem Opening.Makes.received_not_mem {k : ℕ} {bytes : List UInt8} {cfd : Option ℤ}
    (h : Opening.Makes B op i c np c' np' evs) : .received k bytes cfd ∉ evs := by
  cases h with
  | listening _ h => exact h.received_not_mem
  | connecting _ h => exact h.received_not_mem
  | connected | accepted | bound => exact List.not_mem_nil

theorem closeEvs_received_not_mem {k : ℕ} {bytes : List UInt8} {cfd : Option ℤ} :
    .received k bytes cfd ∉ closeEvs c := fun he => by
  rcases mem_closeEvs he with ⟨token, h⟩ | h <;> cases h

/-- Only a read of the slot hands over data of it. -/
theorem Change.op_of_received (h : Change B op v a a') : ∃ evs, a'.log = evs ++ a.log ∧
    ∀ (k : ℕ) bytes cfd, .received k bytes cfd ∈ evs → op = .read k := by
  cases h with
  | err | polled => exact ⟨[], rfl, by simp⟩
  | @note e he _ =>
    refine ⟨[e], rfl, fun k bytes cfd hmem => ?_⟩
    obtain rfl := List.mem_singleton.mp hmem
    exact he.elim
  | raised | refused | drop | destroyed => exact ⟨[_], rfl, by simp⟩
  | conn _ h => exact ⟨_, rfl, fun _ _ _ he => h.op_of_received he⟩
  | @close i _ c' _ evs _ h =>
    refine ⟨closeEvs c' ++ .closed i c'.fd c'.mask :: evs, ?_, fun k bytes cfd he => ?_⟩
    · rw [Abs.close_log, List.append_assoc]
      rfl
    · simp only [List.mem_append, List.mem_cons, reduceCtorEq, false_or] at he
      exact he.elim (absurd · closeEvs_received_not_mem) (absurd · h.received_not_mem)
  | @opened i _ fd _ _ protocol _ _ _ evs _ _ _ _ h =>
    refine ⟨evs ++ [.opened i fd (protocolOf protocol)], ?_, fun k bytes cfd he => ?_⟩
    · rw [List.append_assoc]
      rfl
    simp only [List.mem_append, List.mem_singleton, reduceCtorEq, or_false] at he
    exact absurd he h.received_not_mem
  | @bounced i _ fd slimit udata protocol rlimit _ _ _ _ evs _ _ _ _ h _ =>
    refine ⟨closeEvs (newConn fd slimit udata protocol rlimit) ++
      .closed i fd .none :: (evs ++ [.opened i fd (protocolOf protocol)]), ?_, fun k bytes cfd he => ?_⟩
    · rw [Abs.close_log, List.append_assoc, List.cons_append, List.append_assoc]
      rfl
    · simp only [List.mem_append, List.mem_cons, List.not_mem_nil, reduceCtorEq, false_or,
        or_false] at he
      exact he.elim (absurd · closeEvs_received_not_mem) (absurd · h.received_not_mem)

/-- In a passage, data are handed out by the reads that are among the calls. -/
theorem Passage.received (h : Passage B O a a') : ∃ evs, a'.log = evs ++ a.log ∧
    ∀ (k : ℕ) bytes cfd, .received k bytes cfd ∈ evs → O (.read k) := by
  induction h with
  | refl => exact ⟨[], rfl, by simp⟩
  | tail _ h ih =>
    obtain ⟨evs, hlog, hevs⟩ := ih
    obtain ⟨op, v, hop, h⟩ := h
    obtain ⟨evs', hlog', hevs'⟩ := h.op_of_received
    refine ⟨evs' ++ evs, by rw [hlog', hlog, List.append_assoc], fun k bytes cfd he => ?_⟩
    rcases List.mem_append.mp he with he | he
    · exact hevs' k bytes cfd he ▸ hop
    · exact hevs k bytes cfd he

/-- The bytes read from the slot, in order. -/
def got (j : ℕ) (evs : List Ev) : List UInt8 := evs.reverse.flatMap (Ev.heard j)

/-- What was handed over, in two parts. -/
theorem got_append (evs log : List Ev) : got j (evs ++ log) = got j log ++ got j evs := by
  simp [got]

theorem got_eq_nil (h : ∀ e ∈ evs, e.heard j = []) : got j evs = [] := by
  simp only [got, List.flatMap_eq_nil_iff, List.mem_reverse]
  exact h

/-- In a passage without reads on a slot, nothing is read from it. -/
theorem Passage.got_eq (h : Passage B O a a') (hO : ¬ O (.read j)) : got j a'.log = got j a.log := by
  obtain ⟨evs, hlog, hevs⟩ := h.received
  have hnil : got j evs = [] := by
    refine got_eq_nil fun e he => ?_
    cases e with
    | received k bytes cfd =>
      refine if_neg fun hk => hO ?_
      rw [← hk]
      exact hevs k bytes cfd he
    | _ => rfl
  rw [hlog, got_append, hnil, List.append_nil]

/-! ## A connection and its slot -/

/-- The protocol of a connection does not change. -/
theorem ConnStep.protocol (h : ConnStep B op v i c np c' np' evs) : c'.protocol = c.protocol := by
  have hdrain {c c' : Conn} {evs : List Ev} (h : Drain i c c' evs) : c'.protocol = c.protocol := by
    induction h with
    | stop | part => rfl
    | next _ _ ih => exact ih
  cases h with
  | flushed _ h =>
    cases h with
    | idle => rfl
    | rest h => exact hdrain h
    | done _ h => exact (hdrain h :)
  | _ => rfl

/-- If the slot still holds the connection `g`, that is of protocol TCP. -/
def Abs.Tcp (a : Abs σ) (j g : ℕ) : Prop :=
  g ≤ generation j a.log ∧ ∀ c, a.slot j = some c → generation j a.log = g → c.protocol = .tcp

/-- A connection on TCP stays one, and a later one counts as another. -/
theorem Change.tcp (h : Change B op v a a') (ht : a.Tcp j g) : a'.Tcp j g := by
  obtain ⟨evs, hlog⟩ := h.log_suffix
  have hle := Lsocket.generation_le j evs a.log
  rw [hlog] at hle
  refine ⟨ht.1.trans hle, fun c' hc' hg => ?_⟩
  have hg' : generation j a.log = g := le_antisymm (hg ▸ hle) ht.1
  cases h.origin hc' with
  | same hc => exact ht.2 c' hc hg'
  | step hc h => exact h.protocol.trans (ht.2 _ hc hg')
  | @opened rest fd slimit udata protocol rlimit np' evs hn hm ha =>
    rw [ha] at hg
    have hopen : generation j a.log < generation j (evs ++ .opened j fd (protocolOf protocol) :: a.log) := by
      refine lt_of_lt_of_le ?_ (Lsocket.generation_le ..)
      rw [generation_opens (e := .opened j fd (protocolOf protocol)) rfl]
      exact Nat.lt_succ_self _
    exact absurd (hg'.trans hg.symm) hopen.ne

/-- So it does over any calls. -/
theorem Passage.tcp (h : Passage B O a a') (ha : (changes B).Reach a) (ht : a.Tcp j g) : a'.Tcp j g :=
  h.keeps ha (fun _ _ _ _ _ _ ht h => h.tcp ht) ht

/-- A connection that attends at last has attended all the time. -/
theorem Passage.attends (h : Passage B O a a') (ha : (changes B).Reach a) (hg : g ≤ generation j a.log)
    (hatt : a'.Attends j g) : a.Attends j g := by
  by_contra hn
  refine (h.keeps (I := fun a => g ≤ generation j a.log ∧ ¬ a.Attends j g) ha ?_ ⟨hg, hn⟩).2 hatt
  rintro op v a a' - ha ⟨hg, hn⟩ hch
  obtain ⟨evs, hlog⟩ := hch.log_suffix
  exact ⟨hg.trans (hlog ▸ Lsocket.generation_le j evs a.log), (hch.deaf ha hg hn).1⟩

/-- From a connection that does not attend nothing is read. -/
theorem Passage.heard_eq (h : Passage B O a a') (ha : (changes B).Reach a)
    (hg : g ≤ generation j a.log) (hn : ¬ a.Attends j g) : heard j g a'.log = heard j g a.log := by
  have hI := h.keeps (I := fun x => g ≤ generation j x.log ∧ ¬ x.Attends j g ∧
    heard j g x.log = heard j g a.log) ha ?_ ⟨hg, hn, rfl⟩
  · exact hI.2.2
  rintro op v b b' - hb ⟨hg, hn, heq⟩ hch
  obtain ⟨evs, hlog⟩ := hch.log_suffix
  obtain ⟨hn', hsame⟩ := hch.deaf hb hg hn
  exact ⟨hg.trans (hlog ▸ Lsocket.generation_le j evs b.log), hn', hsame.trans heq⟩

/-- As long as the slot holds the connection, what is read from the one is read from the other. -/
theorem heard_add (hg : generation j (evs ++ log) = g) (hg' : generation j log = g) :
    heard j g (evs ++ log) = heard j g log ++ got j evs := by
  have hopens := not_opens_of_generation (hg.trans hg'.symm).le
  rw [heard, heard, upTo_of_le hg.le, upTo_of_le hg'.le, since_append hopens fun _ _ _ => rfl]
  congr 1
  clear hg hg'
  induction evs with
  | nil => rfl
  | cons e evs ih =>
    have he := hopens e List.mem_cons_self
    rw [since_cons he fun _ _ _ => rfl, ih fun e he => hopens e (List.mem_cons_of_mem _ he)]
    simp [got]

/-- An event names a slot of the array. -/
theorem id_lt_of_raised {e : SocketEvent} (h : (changes B).Reach a) (he : .raised e ∈ a.log) :
    e.id < a.max := by
  obtain ⟨post, past, hlog⟩ := List.append_of_mem he
  have hnamed := reach_named h
  have horder := (reach_inOrder h).log
  rw [hlog] at hnamed horder
  have hpos : generation e.id [] < generation e.id (past ++ []) := by
    rw [List.append_nil]
    exact hnamed.at_event
  obtain ⟨late, fd, p, early, hearly, -⟩ := exists_opening hpos
  have hpast := horder.of_append.2
  rw [hearly] at hpast
  obtain ⟨rest, hrest⟩ := hpast.at_event
  exact ((mem_fifo hpast.of_append.2).mp (hrest ▸ List.mem_cons_self)).1

/-- What is reported was stored. -/
theorem mem_reports {e : SocketEvent} (h : e ∈ reports log) : .raised e ∈ log := by
  induction log with
  | nil => cases h
  | cons x log ih =>
    cases x with
    | raised e' =>
      rcases List.mem_append.mp h with h | h
      · exact List.mem_cons_of_mem _ (ih h)
      · exact List.mem_singleton.mp h ▸ List.mem_cons_self
    | _ => exact List.mem_cons_of_mem _ (ih h)

/-! ## What two calls do in full -/

/-- After `socket_close` the slot is free, or its connection is half-closed. -/
theorem does_socketClose_shut {id : ℤ} (force : Bool) (hid : Within a.max id) :
    Does B (socketClose B id force) a fun _ a' =>
      ∀ c, a'.slot id.toNat = some c → c.status = .halfclose := by
  obtain ⟨j, rfl⟩ := Int.eq_ofNat_of_zero_le hid.1
  refine .bind (does_socketOf hid.1 hid.2) ?_
  rintro r _ (⟨rfl, hn, rfl⟩ | ⟨c, rfl, hc, rfl⟩)
  · refine .pure fun c hc => ?_
    cases hn.symm.trans hc
  refine .bind (does_slotAt hc) ?_
  rintro s a ⟨rfl, hs⟩
  refine .ite (fun _ => ?_) fun _ => ?_
  · refine .bind (does_closeSocket hc) ?_
    rintro _ _ rfl
    refine .pure fun c hc => ?_
    rw [Abs.close_slot] at hc
    cases (Function.update_self ..).symm.trans hc
  · refine .bind (does_setSlot (fun c => { c with status := .halfclose }) hc (fun _ _ => rfl)
      (fun _ => ⟨rfl, rfl⟩) (fun _ => by simp) rfl) ?_
    rintro _ _ rfl
    refine .bind (does_queue (Abs.set_slot_self ..)) ?_
    rintro _ _ ⟨rfl, rfl⟩
    refine .bind (does_emit _) ?_
    rintro _ _ rfl
    refine .pure fun d hd => ?_
    obtain rfl := Option.some.inj ((Abs.set_slot_self ..).symm.trans hd)
    rfl

/-- A read on slot `i` has taken what it returns as `v`, and nothing else. -/
structure Hands (i : ℕ) (a : Abs σ) (v : ReadResult) (a' : Abs σ) : Prop where
  got : ∀ j, got j a'.log = got j a.log ++ if i = j ∧ 0 < v.n then v.data else []
  plain : (∀ c, a.slot i = some c → c.protocol = .tcp) → v.cfd = none

/-- A read that hands over nothing. -/
theorem Hands.none {v : ReadResult} (hlog : a'.log = evs ++ a.log) (hevs : ∀ e ∈ evs, ∀ j, e.heard j = [])
    (hv : v.n ≤ 0) (hcfd : v.cfd = .none) : Hands i a v a' where
  got j := by
    have hnil : Lsocket.got j evs = [] := got_eq_nil fun e he => hevs e he j
    rw [hlog, got_append, hnil, if_neg fun h => h.2.not_ge hv]
  plain _ := hcfd

/-- A read that closes the slot. -/
theorem Hands.closed {k : ℕ} (hlog : a'.log = closeEvs c ++ .closed k c.fd c.mask :: a.log) :
    Hands i a { n := -1 } a' := by
  have hlog' : a'.log = (closeEvs c ++ [.closed k c.fd c.mask]) ++ a.log := by
    rw [hlog, List.append_assoc]
    rfl
  refine .none hlog' (fun e he j => ?_) (by decide) rfl
  rcases List.mem_append.mp he with he | he
  · rcases mem_closeEvs he with ⟨token, rfl⟩ | rfl <;> rfl
  · exact List.mem_singleton.mp he ▸ rfl

theorem Hands.same {v : ReadResult} (hlog : a'.log = a.log) (hv : v.n ≤ 0) (hcfd : v.cfd = .none) :
    Hands i a v a' :=
  .none (show a'.log = [] ++ a.log from hlog) (fun _ he => absurd he List.not_mem_nil) hv hcfd

/-- A read that closes the slot hands over nothing. -/
theorem does_readFail_hands (err : ℤ) (hc : a.slot i = some c) :
    Does B (readFail B i err) a fun v a' => Hands i a v a' := by
  refine .bind (does_closeSocket hc) ?_
  rintro _ _ rfl
  refine .bind (does_setErr err) ?_
  rintro _ _ rfl
  exact .pure (.closed Abs.close_log)

/-- Data that are handed to the caller, with the log of `a` before. -/
theorem does_hands {b : Abs σ} {bytes : List UInt8} {cfd : Option ℤ} {n : ℤ} (hn : 0 < n)
    (hlog : b.log = a.log) (hcfd : (∀ c, a.slot i = some c → c.protocol = .tcp) → cfd = none) :
    Does B (do
        emit (.received i bytes cfd)
        pure ({ n, data := bytes, cfd } : ReadResult))
      b fun v a' => Hands i a v a' := by
  refine .bind (does_emit _) ?_
  rintro _ _ rfl
  refine .pure ⟨fun j => ?_, hcfd⟩
  rw [show (b.emit (.received i bytes cfd)).log = [.received i bytes cfd] ++ a.log by rw [← hlog]; rfl,
    got_append]
  by_cases hij : i = j
  · simp [got, Ev.heard, hij, hn]
  · simp [got, Ev.heard, hij]

/-- A read from TCP hands over what it returns. -/
theorem does_readLoop_hands (sz : ℤ) (fuel : ℕ) (hc : a.slot i = some c) :
    Does B (readLoop B i sz fuel) a fun v a' => Hands i a v a' := by
  induction fuel with
  | zero => exact .fault Fault.outside_stuck
  | succ fuel ih =>
    refine .bind (does_call _) ?_
    rintro r _ ⟨-, rfl⟩
    refine .ite (fun _ => ?_) fun hneg => .ite (fun _ => does_readFail_hands _ hc) fun hzero => ?_
    · refine .ite (fun _ => .pure ?_) fun _ => .ite (fun _ => ih) fun _ => does_readFail_hands _ hc
      exact .same rfl le_rfl rfl
    have hpos : 0 < r.ret := by omega
    refine .bind (does_slotAt hc) ?_
    rintro s a ⟨rfl, -⟩
    have hdone : Does B (do
        emit (.received i r.bytes none)
        pure ({ n := r.ret, data := r.bytes } : ReadResult)) a fun v a' => Hands i a v a' :=
      does_hands hpos rfl fun _ => rfl
    -- whether the size is adapted makes no difference to what is handed out
    have htune (f : ℤ → ℤ) : Does B (do
        setSlot i fun s => { s with rbuffersz := f s.rbuffersz }
        emit (.received i r.bytes none)
        pure ({ n := r.ret, data := r.bytes } : ReadResult)) a fun v a' => Hands i a v a' := by
      refine .bind (does_setSlot (fun c => { c with rbuffersz := f c.rbuffersz }) hc (fun _ _ => rfl)
        (fun _ => ⟨rfl, rfl⟩) (fun h => h) rfl) ?_
      rintro _ _ rfl
      exact does_hands hpos rfl fun _ => rfl
    refine .ite (fun _ => ?_) fun _ => hdone
    refine .ite (fun _ => htune fun z => wrap (z * 2)) fun _ => ?_
    exact .ite (fun _ => htune fun z => z / 2) fun _ => hdone

/-- So does `_read`, which throws away what comes to a half-closed connection. -/
theorem does_read_hands (hc : a.slot i = some c) :
    Does B (read B i) a fun v a' => Hands i a v a' := by
  refine .bind (does_slotAt hc) ?_
  rintro s _ ⟨rfl, -⟩
  refine .bind does_answersLeft ?_
  rintro fuel a rfl
  refine .ite (fun _ => ?_) fun _ => does_readLoop_hands _ _ hc
  refine .bind (does_readClose fuel) ?_
  rintro err a rfl
  refine .bind (does_setErr err) ?_
  rintro _ _ rfl
  refine .ite (fun _ => ?_) fun _ => .pure (.same rfl le_rfl rfl)
  refine .bind (does_closeSocket (a := a.setErr err) hc) ?_
  rintro _ _ rfl
  exact .pure (.closed Abs.close_log)

/-- A read of a message hands over its bytes, and its descriptor. -/
theorem does_readfdLoop_hands (fuel : ℕ) (hc : a.slot i = some c) (hp : c.protocol = .ipc) :
    Does B (readfdLoop B i fuel) a fun v a' => Hands i a v a' := by
  have hcfd {cfd : Option ℤ} (htcp : ∀ c, a.slot i = some c → c.protocol = .tcp) : cfd = none := by
    cases hp.symm.trans (htcp c hc)
  induction fuel with
  | zero => exact .fault Fault.outside_stuck
  | succ fuel ih =>
    refine .bind (does_call _) ?_
    rintro r _ ⟨-, rfl⟩
    refine .ite (fun _ => ?_) fun hneg => .ite (fun _ => does_readFail_hands _ hc) fun hzero => ?_
    · refine .ite (fun _ => .pure (.same rfl le_rfl rfl)) fun _ => .ite (fun _ => ih) fun _ => ?_
      exact does_readFail_hands _ hc
    have hpos : 0 < r.ret := by omega
    refine .ite (fun _ => does_readFail_hands _ hc) fun _ => .ite (fun _ => ?_) fun _ => ?_
    · refine .ite (fun _ => does_readFail_hands _ hc) fun _ => ?_
      exact does_hands (by omega) rfl hcfd
    · exact does_hands hpos rfl hcfd

/-- Exactly the data that `socket_read` returns are taken from its slot. -/
theorem does_socketRead_hands {id : ℤ} (hid : Within a.max id) :
    Does B (socketRead B id) a fun v a' => Hands id.toNat a v a' := by
  obtain ⟨j, rfl⟩ := Int.eq_ofNat_of_zero_le hid.1
  refine .bind (does_socketOf hid.1 hid.2) ?_
  rintro r _ (⟨rfl, -, rfl⟩ | ⟨c, rfl, hc, rfl⟩)
  · exact .pure (.same rfl (by decide) rfl)
  refine .bind (does_slotAt hc) ?_
  rintro s _ ⟨rfl, hs⟩
  rcases s.protocol with _ | _ | _
  · exact does_read_hands hc
  · exact .pure (.same rfl (by decide) rfl)
  refine .bind (does_slotAt hc) ?_
  rintro s a ⟨rfl, hs⟩
  have hp : s.protocol = c.protocol := congrArg Conn.protocol hs.conn_eq
  rw [hp]
  refine .ite (fun _ => ?_) fun hipc => ?_
  · refine .bind (does_setErr _) ?_
    rintro _ _ rfl
    exact .pure (.same rfl (by decide) rfl)
  · refine .bind does_answersLeft ?_
    rintro fuel _ rfl
    exact does_readfdLoop_hands fuel hc (not_not.mp hipc)

end Lsocket
