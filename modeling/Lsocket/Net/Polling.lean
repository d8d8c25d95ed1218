import Lsocket.Net.Events

/-!
# Polling

`socket_poll` takes the events of the poller one after the other; with it, every call of the
interface is a chain of changes.
-/

namespace Lsocket

open CInt

variable {σ : Type} {B : Backend σ} {a a' : Abs σ} {i : ℕ} {c : Conn} {op : Op} {timeout : ℤ}

/-! ## What is reported -/

/-- The events that were stored, oldest first. -/
def reports : List Ev → List SocketEvent
  | [] => []
  | .raised e :: log => reports log ++ [e]
  | _ :: log => reports log

/-- Anything but storing an event. -/
def Ev.Unreported : Ev → Prop
  | .raised _ => False
  | _ => True

/-- Only storing an event counts as a report. -/
theorem reports_ignores : Ignores reports Ev.Unreported := by
  intro e log he
  cases e <;> first | rfl | exact he.elim

theorem Ev.Local.unreported {e : Ev} (h : e.Local i) : e.Unreported := by
  cases e <;> first | exact h.elim | trivial

theorem closeEvs_unreported : ∀ e ∈ closeEvs c, e.Unreported := by
  intro e he
  rcases mem_closeEvs he with ⟨token, rfl⟩ | rfl <;> trivial

/-- The steps of a connection store no event. -/
theorem ConnStep.unreported {c' : Conn} {np np' : σ} {evs : List Ev} {v : ℤ}
    (h : ConnStep B op v i c np c' np' evs) : ∀ e ∈ evs, e.Unreported := by
  rcases h.events_local with h | ⟨rfl, -⟩
  · exact fun e he => (h e he).unreported
  · simp [Ev.Unreported]

/-- Before a connection is closed, an event is stored only if the call returns some. -/
theorem Closing.unreported {c' : Conn} {np np' : σ} {evs : List Ev}
    (h : Closing B op 0 i c np c' np' evs) : ∀ e ∈ evs, e.Unreported := by
  cases h with
  | forced | idle | destroyed | unread | unconnected => simp
  | unsent _ hv => cases hv
  | broken _ hv => exact absurd rfl hv
  | finished _ hv => exact absurd rfl hv

/-- Closing a slot reports nothing. -/
theorem Abs.close_reports : reports (a.close i B c).log = reports a.log := by
  rw [Abs.close_log, reports_ignores.append closeEvs_unreported]
  rfl

/-- A change in a call that returns 0 stores no event. -/
theorem Change.reports_eq (h : Change B op 0 a a') : reports a'.log = reports a.log := by
  cases h with
  | err | polled | refused | drop | destroyed => rfl
  | @note e he _ => exact reports_ignores e _ (by cases e <;> first | exact he.elim | trivial)
  | raised _ hv => exact absurd rfl hv
  | conn _ hs => exact reports_ignores.append hs.unreported
  | close _ hs => rw [Abs.close_reports]; exact reports_ignores.append hs.unreported
  | opened _ _ _ _ hm =>
    exact reports_ignores.append fun e he => (hm.events_local e he).unreported
  | bounced _ _ _ _ hs =>
    rw [Abs.close_reports]
    exact reports_ignores.append fun e he => (hs.events_local e he).unreported

/-- A call that returns 0 stores no event. -/
theorem Changes.reports_eq (h : Changes B op 0 a a') : reports a'.log = reports a.log := by
  induction h with
  | refl => rfl
  | tail _ h ih => exact h.reports_eq.trans ih

/-- Work in the course of a call that returns events: it stores `es`. -/
structure Raises (B : Backend σ) (op : Op) (a : Abs σ) (es : List SocketEvent) (a' : Abs σ) :
    Prop where
  changes : ∀ v, (es ≠ [] → v ≠ 0) → Changes B op v a a'
  reports : reports a'.log = reports a.log ++ es

namespace Raises

/-- Work that does not depend on what the call returns. -/
theorem quiet (h : ∀ v, Changes B op v a a') : Raises B op a [] a' :=
  ⟨fun v _ => h v, by rw [(h 0).reports_eq, List.append_nil]⟩

/-- What is stored by two parts of the work is stored in this order. -/
theorem trans {a'' : Abs σ} {es es' : List SocketEvent} (h : Raises B op a es a')
    (h' : Raises B op a' es' a'') : Raises B op a (es ++ es') a'' where
  changes v hv := (h.changes v fun he => hv (by simp [he])).trans
    (h'.changes v fun he => hv (by simp [he]))
  reports := by rw [h'.reports, h.reports, List.append_assoc]

end Raises

/-- The rest of the work on one event, after a chain of changes. -/
theorem does_then {p : NetM σ (List SocketEvent)} (h : Raises B op a [] a')
    (hp : Does B p a' fun es a'' => Raises B op a' es a'') :
    Does B p a' fun es a'' => Raises B op a es a'' :=
  hp.mono fun _ _ hr => h.trans hr

/-! ## The events of a connection -/

/-- An event that does not report the end of a connection by a write. -/
theorem does_raise {e : SocketEvent} (hop : op = .poll timeout)
    (he : e.type ≠ .sockerr ∧ e.type ≠ .wridoneclose) (hid : a.Knows e.id) :
    Does B (raise e) a fun es a' => Raises B op a es a' := by
  refine .bind (does_emit _) ?_
  rintro _ _ rfl
  exact .pure ⟨fun v hv => .single (.raised hop (hv (by simp)) he hid), rfl⟩

/-- The check for something to read. -/
theorem does_pollRead (udata : ℤ) (ie : NpEvent) (hc : a.slot i = some c) (hop : op = .poll timeout) :
    Does B (pollRead i udata ie) a fun es a' => Raises B op a es a' :=
  .ite (fun _ => does_raise hop ⟨nofun, nofun⟩ (.inl ⟨c, hc⟩)) fun _ => .pure (.quiet fun _ => .refl)

/-- An event about a connection that ends it. -/
theorem does_raiseClose {e : SocketEvent} {c' : Conn} {np : σ} {evs : List Ev}
    (hc : a.slot i = some c) (hevs : ∀ e ∈ evs, e.Unreported)
    (h : ∀ v, v ≠ 0 → Closing B op v i c a.np c' np (.raised e :: evs)) :
    Does B (do
        let es ← raise e
        closeSocket B i
        pure es)
      (a.put i c' np evs) fun es a' => Raises B op a es a' := by
  refine .bind (Q := fun es a' => es = [e] ∧ a' = (a.put i c' np evs).emit (.raised e)) ?_ ?_
  · refine .bind (does_emit _) ?_
    rintro _ _ rfl
    exact .pure ⟨rfl, rfl⟩
  rintro es _ ⟨rfl, rfl⟩
  rw [Abs.put_emit]
  refine .bind (does_closeSocket (Abs.put_slot_self ..)) ?_
  rintro _ _ rfl
  refine .pure ⟨fun v hv => .single (.close hc (h v (hv (by simp)))), ?_⟩
  rw [Abs.close_reports]
  exact congrArg (· ++ [e]) (reports_ignores.append hevs)

/-- A write event changes the queue, its size and the mask alone. -/
theorem Flush.eq {c' : Conn} {np np' : σ} {evs : List Ev} (h : Flush B i c np c' np' evs) :
    c' = { c with queue := c'.queue, sbuffersz := c'.sbuffersz, mask := c'.mask } := by
  cases h with
  | idle => rfl
  | rest h => rw [h.eq]
  | done _ h => rw [h.eq]

theorem Flush.status {c' : Conn} {np np' : σ} {evs : List Ev} (h : Flush B i c np c' np' evs) :
    c'.status = c.status := by
  rw [h.eq]

theorem Flush.udata {c' : Conn} {np np' : σ} {evs : List Ev} (h : Flush B i c np c' np' evs) :
    c'.udata = c.udata := by
  rw [h.eq]

/-- The events of a connection that is not about to be opened. -/
theorem does_pollConn (ie : NpEvent) (hc : a.slot i = some c) (hn : c.status ≠ .connecting)
    (hop : op = .poll timeout) :
    Does B (pollConn B i ie) a fun es a' => Raises B op a es a' := by
  refine .bind (does_slotAt hc) ?_
  rintro s a ⟨rfl, hs⟩
  have hudata : s.udata = c.udata := congrArg Conn.udata hs.conn_eq
  rw [hudata]
  refine .ite (fun _ => ?_) fun _ => does_pollRead _ _ hc hop
  refine .bind (does_sendBuffer hc) ?_
  rintro err _ (⟨herr, c', evs, hd, rfl⟩ | ⟨rfl, c', np, evs, hf, rfl⟩)
  · rw [if_pos herr]
    exact does_raiseClose hc (fun e he => (hd.events_local e he).unreported)
      fun _ hv => .broken hop hv herr hd
  rw [if_neg (by decide)]
  refine .bind (does_slotAt (Abs.put_slot_self ..)) ?_
  rintro s' _ ⟨rfl, hs'⟩
  have hst : s'.status = c.status :=
    (congrArg Conn.status hs'.conn_eq).trans hf.status
  have hudata' : s'.udata = c.udata :=
    (congrArg Conn.udata hs'.conn_eq).trans hf.udata
  rw [hst, hudata']
  refine .ite (fun h => ?_) fun h => ?_
  · exact does_raiseClose hc (fun e he => (hf.events_local e he).unreported)
      fun _ hv => .finished hop hv h.1 hf (hs'.head_iff.mp h.2)
  · have hne : c.status = .halfclose → c'.queue ≠ [] := fun hs hq => h ⟨hs, hs'.head_iff.mpr hq⟩
    refine does_then (.quiet fun _ => .single (.conn hc (.flushed hop hf hne hn))) ?_
    exact does_pollRead _ _ (Abs.put_slot_self ..) hop

/-- `_onconnect`. -/
theorem does_onconnect (hc : a.slot i = some c) (hs : c.status = .connecting)
    (hop : op = .poll timeout) :
    Does B (onconnect B i) a fun _ a' => (∀ v, Changes B op v a a') ∧ a'.Knows i := by
  refine .bind (does_call _) ?_
  rintro r _ ⟨-, rfl⟩
  refine .bind does_socketErrno ?_
  rintro errno a rfl
  refine .ite (fun _ => ?_) fun _ => ?_
  · refine .bind (does_slotAt hc) ?_
    rintro s _ ⟨rfl, hshow⟩
    have hsome : s.head.isSome = !c.queue.isEmpty := by
      rw [Bool.eq_iff_iff]
      simp [Option.isSome_iff_ne_none, hshow.head_iff]
    rw [hsome]
    refine .bind (does_emit _) ?_
    rintro _ _ rfl
    rw [← Abs.put_emit_self hc]
    refine .bind (does_setSlot (fun c => { c with status := .connected }) (Abs.put_slot_self ..)
      (fun _ _ => rfl) (fun _ => ⟨rfl, rfl⟩) (fun _ => by simp) rfl) ?_
    rintro _ _ rfl
    rw [Abs.put_set]
    refine .bind (does_subscribe .none (Abs.put_slot_self ..)) ?_
    rintro _ _ ⟨m, np, evs, hsub, rfl⟩
    rw [Abs.put_put]
    exact .pure ⟨fun _ => .single (.conn hc (.completed hop hs hsub)), .inl ⟨_, Abs.put_slot_self ..⟩⟩
  · refine .bind (does_closeSocket hc) ?_
    rintro _ _ rfl
    refine .pure ⟨fun v => .single ?_, .inr ⟨c.fd, c.mask, ?_⟩⟩
    · have hclose : Change B op v _ _ := .close hc (.unconnected (B := B) hop hs)
      rwa [Abs.put_self hc] at hclose
    · rw [Abs.close_log]
      exact List.mem_append_right _ List.mem_cons_self

/-! ## The loop of socket_poll -/

/-- The body of the loop. -/
theorem does_pollEvent (ie : NpEvent) (hi : ie.ud < a.max) (hop : op = .poll timeout) :
    Does B (pollEvent B ie) a fun es a' => Raises B op a es a' := by
  rcases hc : a.slot ie.ud with _ | c
  · refine .bind (does_slotAt_free hc hi) ?_
    rintro s _ ⟨rfl, hs⟩
    rw [hs]
    exact .pure (.quiet fun _ => .refl)
  refine .bind (does_slotAt hc) ?_
  rintro s _ ⟨rfl, hshow⟩
  have hst : s.status = c.status := congrArg Conn.status hshow.conn_eq
  rcases hs : s.status with _ | _ | _ | _ | _ | _ | _
  · exact .pure (.quiet fun _ => .refl)
  · refine .bind (does_accept hc hop) ?_
    rintro r a' ⟨hch, hslot⟩
    rcases r with _ | j
    · exact .pure (.quiet hch)
    obtain ⟨c', hc'⟩ := hslot j rfl
    refine .bind (does_slotAt hc') ?_
    rintro t _ ⟨rfl, -⟩
    exact does_then (.quiet hch) (does_raise hop ⟨nofun, nofun⟩ (.inl ⟨c', hc'⟩))
  · refine .bind (does_onconnect hc (hst.symm.trans hs) hop) ?_
    rintro err a' ⟨hch, hknows⟩
    refine does_then (.quiet hch) (does_raise hop ?_ hknows)
    constructor <;> (simp only; split <;> [skip; split] <;> decide)
  all_goals exact does_pollConn ie hc (fun h => by simp [hst, h] at hs) hop

/-- The loop. -/
theorem does_pollLoop (ies : List NpEvent) (hies : ∀ ie ∈ ies, ie.ud < a.max)
    (hop : op = .poll timeout) :
    Does B (pollLoop B ies) a fun es a' => Raises B op a es a' := by
  induction ies generalizing a with
  | nil => exact .pure (.quiet fun _ => .refl)
  | cons ie ies ih =>
    refine .bind (does_pollEvent ie (hies ie List.mem_cons_self) hop) ?_
    intro es a' hes
    -- the bound on the slots does not depend on what the call returns
    have hmax := (hes.changes 1 fun _ => by decide).max_eq
    refine .bind (ih fun e he => ?_) ?_
    · rw [hmax]
      exact hies e (List.mem_cons_of_mem _ he)
    · exact fun es' a'' hes' => .pure (hes.trans hes')

/-- `np_poll` reports slots of the array. -/
theorem does_npPoll (timeout : ℤ) :
    Does B (poller (B.npPoll a.max timeout)) a fun ies a' => (∀ ie ∈ ies, ie.ud < a.max) ∧
      ∃ o o' np, B.npPoll a.max timeout (a.np, o) = (.ok ies, (np, o')) ∧ a' = { a with np } := by
  intro w hw
  obtain ⟨h, rfl⟩ := hw
  have hpoll := does_poller (B := B) (a := w.abs) (p := B.npPoll w.abs.max timeout)
    (fun s hs => Prog.wp_mono (B.known_poll w.abs.max timeout s) fun _ t ht u hu => hs u (ht.1 u hu))
    w ⟨h, rfl⟩
  refine Prog.wp_mono hpoll ?_
  rintro ies w' ⟨a', hw', o, o', np, hp, rfl⟩
  have hknown := Prog.wp_ok (B.known_poll w.abs.max timeout (w.np, o)) hp
  exact ⟨_, hw', fun ie hie => h.known _ (hknown.2 ie hie), o, o', np, hp, rfl⟩

/-- `socket_poll`. -/
theorem does_socketPoll (timeout : ℤ) :
    Does B (socketPoll B timeout) a fun es a' => Raises B (.poll timeout) a es a' := by
  refine .bind does_net ?_
  rintro n a ⟨rfl, hn, -⟩
  rw [hn]
  refine .bind (does_npPoll timeout) ?_
  rintro ies _ ⟨hies, o, o', np, hp, rfl⟩
  refine .bind (.check_or (Q := fun _ a' => a' = { a with np }) (.inr (.inr rfl)) fun _ => rfl) ?_
  rintro _ _ rfl
  exact does_then (.quiet fun _ => .single (.polled rfl hp)) (does_pollLoop ies hies rfl)

/-! ## Every call -/

/-- Every call with proper arguments is a chain of changes; none of its assertions fails. -/
theorem does_call_changes (op : Op) (h : op.Allowed a.max) :
    Does B (op.call B) a fun v a' => Changes B op v a a' := by
  rcases op with u | ⟨block, u⟩ | ⟨d, u, p⟩ | ⟨id, force⟩ | ⟨id, data, sz⟩ | ⟨id, data, sz, cfd⟩ | id |
    ⟨id, r⟩ | ⟨id, u⟩ | ⟨id, sl, rl⟩ | id | id | timeout | _
  · exact does_socketListen u
  · exact does_socketConnect block u
  · exact does_socketBind u p h
  · exact (does_socketClose force h).mono fun _ _ h => h.1
  · exact does_send trivial h
  · exact does_send trivial h
  · exact .bind (does_socketRead h) fun r a' hr => .pure hr
  · exact does_socketEnableread r h
  · exact does_socketUdata u h
  · exact does_socketLimit sl rl h
  · exact does_socketAddress h
  · exact does_socketFd h
  · refine .bind (does_socketPoll timeout) fun es a' hes => .pure (hes.changes _ fun hne => ?_)
    exact Int.natCast_ne_zero.mpr (List.length_eq_zero_iff.not.mpr hne)
  · exact .bind does_netFree fun _ a' h => .pure h.1

end Lsocket
