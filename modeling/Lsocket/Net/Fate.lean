import Lsocket.Net.Run

/-!
# What becomes of a connection

Every change, seen from one connection: it is elsewhere, or a step of the connection, or its end; and
seen from a connection that is there afterwards: it was there before, or took a step, or is new.
-/

namespace Lsocket

variable {σ : Type} {B : Backend σ} {a a' : Abs σ} {i j : ℕ} {c c' : Conn} {op : Op} {v : ℤ}
variable {np np' : σ} {evs : List Ev}

/-! ## The fate of a connection -/

/-- An event that does not concern the connection in slot `i`. -/
def Ev.Elsewhere (i : ℕ) : Ev → Prop
  | .opened j _ _ | .closed j _ _ | .offered j _ | .sent j _ _ | .received j _ _ | .halfclosed j _
  | .completed j _ | .subscribed j _ _ => j ≠ i
  | .raised e => e.id ≠ i ∨ (e.type ≠ .sockerr ∧ e.type ≠ .wridoneclose)
  | _ => True

theorem Ev.About.elsewhere {e : Ev} (h : e.About j) (hij : j ≠ i) : e.Elsewhere i := by
  cases e <;> first | trivial | exact fun h' => hij (h.symm.trans h') |
    exact .inl fun h' => hij (h.symm.trans h')

theorem Ev.Note.elsewhere {e : Ev} (h : e.Note) : e.Elsewhere i := by
  cases e <;> trivial

/-- The events at the end of a connection are about no other slot. -/
theorem closeEvs_elsewhere : ∀ e ∈ closeEvs c, e.Elsewhere i := by
  intro e he
  rcases mem_closeEvs he with ⟨token, rfl⟩ | rfl <;> trivial

/-- What a change means for the connection in a slot: nothing, or a step of it, or its end. -/
inductive Fate (B : Backend σ) (op : Op) (v : ℤ) (i : ℕ) (c : Conn) (a : Abs σ) : Abs σ → Prop
  | elsewhere {a' : Abs σ} (evs : List Ev) (hslot : a'.slot i = some c) (hlog : a'.log = evs ++ a.log)
      (hevs : ∀ e ∈ evs, e.Elsewhere i) : Fate B op v i c a a'
  | step {c' : Conn} {np' : σ} {evs : List Ev} (h : ConnStep B op v i c a.np c' np' evs) :
      Fate B op v i c a (a.put i c' np' evs)
  | ended {c' : Conn} {np' : σ} {evs : List Ev} (h : Closing B op v i c a.np c' np' evs) :
      Fate B op v i c a ((a.put i c' np' evs).close i B c')

/-- Every change is nothing, a step or the end for the connection in a slot. -/
theorem Change.fate (h : Change B op v a a') (hc : a.slot i = some c) : Fate B op v i c a a' := by
  have hput : ∀ {j : ℕ} {b : Abs σ} {d : Conn} {np : σ} {evs : List Ev}, j ≠ i →
      (b.put j d np evs).slot i = b.slot i := fun hj => Function.update_of_ne hj.symm ..
  have hcreate : ∀ {j : ℕ} {d : Conn} {rest : List ℕ}, j ≠ i → (a.create j rest d).slot i = a.slot i :=
    fun hj => Function.update_of_ne hj.symm ..
  cases h with
  | err => exact .elsewhere [] hc rfl (by simp)
  | @note e he _ => exact .elsewhere [e] hc rfl (by simpa using he.elsewhere)
  | @raised e _ _ _ he => exact .elsewhere [.raised e] hc rfl (by simpa using .inr he)
  | refused => exact .elsewhere [.refused] hc rfl (by simp [Ev.Elsewhere])
  | polled => exact .elsewhere [] hc rfl (by simp)
  | @drop fd => exact .elsewhere [.released fd] hc rfl (by simp [Ev.Elsewhere])
  | @conn j d _ _ evs hd h =>
    by_cases hj : j = i
    · subst hj
      obtain rfl := Option.some.inj (hc.symm.trans hd)
      exact .step h
    · exact .elsewhere _ ((hput hj).trans hc) rfl fun e he => (h.about e he).elsewhere hj
  | @close j d d' _ evs hd h =>
    by_cases hj : j = i
    · subst hj
      obtain rfl := Option.some.inj (hc.symm.trans hd)
      exact .ended h
    · refine .elsewhere (closeEvs d' ++ .closed j d'.fd d'.mask :: evs) ?_ ?_ ?_
      · rw [Abs.close_slot, Function.update_of_ne (Ne.symm hj), hput hj, hc]
      · rw [Abs.close_log, List.append_assoc]
        rfl
      · simp only [List.mem_append, List.mem_cons]
        rintro e (he | rfl | he)
        · exact closeEvs_elsewhere e he
        · exact hj
        · exact (h.about e he).elsewhere hj
  | @opened j rest fd slimit udata protocol rlimit d _ evs _ _ _ hn h =>
    have hj : j ≠ i := Abs.ne_of_slot hn hc
    refine .elsewhere (evs ++ [.opened j fd (protocolOf protocol)]) ?_ ?_ ?_
    · rw [hput hj, hcreate hj, hc]
    · rw [List.append_assoc]
      rfl
    · simp only [List.mem_append, List.mem_singleton]
      rintro e (he | rfl)
      · exact (h.events_local e he).about.elsewhere hj
      · exact hj
  | @bounced j rest fd slimit udata protocol rlimit _ _ _ _ evs _ _ _ hn h _ =>
    -- the slot that was opened and closed again was free, and `i` is not
    have hj : j ≠ i := Abs.ne_of_slot hn hc
    refine .elsewhere (closeEvs (newConn fd slimit udata protocol rlimit) ++
      .closed j fd .none :: (evs ++ [.opened j fd (protocolOf protocol)])) ?_ ?_ ?_
    · rw [Abs.close_slot, Function.update_of_ne (Ne.symm hj), hput hj, hcreate hj, hc]
    · rw [Abs.close_log, List.append_assoc, List.cons_append, List.append_assoc]
      rfl
    · simp only [List.mem_append, List.mem_cons, List.not_mem_nil, or_false]
      rintro e (he | rfl | he | rfl)
      · exact closeEvs_elsewhere e he
      · exact hj
      · exact (h.events_local e he).about.elsewhere hj
      · exact hj
  | destroyed => exact .elsewhere [.destroyed] hc rfl (by simp [Ev.Elsewhere])

/-! ## Where a connection comes from -/

/-- What a connection was before a change: the same, or one that took a step, or none. -/
inductive Origin (B : Backend σ) (op : Op) (v : ℤ) (a a' : Abs σ) (i : ℕ) (c' : Conn) : Prop
  | same (h : a.slot i = some c')
  | step {c : Conn} {np' : σ} {evs : List Ev} (hc : a.slot i = some c)
      (h : ConnStep B op v i c a.np c' np' evs) (ha : a' = a.put i c' np' evs)
  | opened {rest : List ℕ} {fd slimit udata protocol rlimit : ℤ} {np' : σ} {evs : List Ev}
      (hn : a.slot i = none)
      (h : Opening.Makes B op i (newConn fd slimit udata protocol rlimit) a.np c' np' evs)
      (ha : a' = (a.create i rest (newConn fd slimit udata protocol rlimit)).put i c' np' evs)

/-- Every connection after a change was there before, has taken a step, or has just been opened. -/
theorem Change.origin (h : Change B op v a a') (hc : a'.slot i = some c') :
    Origin B op v a a' i c' := by
  cases h with
  | err | note | raised | refused | polled | drop | destroyed => exact .same hc
  | @conn j c d np evs hd h =>
    by_cases hj : i = j
    · subst hj
      obtain rfl := Option.some.inj ((Abs.put_slot_self ..).symm.trans hc)
      exact .step hd h rfl
    · exact .same ((Function.update_of_ne hj ..).symm.trans hc)
  | @close j c d np evs hd h =>
    rw [Abs.close_slot, Abs.put, Function.update_idem] at hc
    by_cases hj : i = j
    · subst hj
      rw [Function.update_self] at hc
      cases hc
    · exact .same ((Function.update_of_ne hj ..).symm.trans hc)
  | @opened j rest fd slimit udata protocol rlimit d np evs _ _ _ hn h =>
    by_cases hj : i = j
    · subst hj
      obtain rfl := Option.some.inj ((Abs.put_slot_self ..).symm.trans hc)
      exact .opened hn h rfl
    · exact .same ((Function.update_of_ne hj ..).symm.trans
        ((Function.update_of_ne hj ..).symm.trans hc))
  | @bounced j rest fd slimit udata protocol rlimit _ _ _ np evs =>
    rw [Abs.close_slot, Abs.put, Function.update_idem, Abs.create, Function.update_idem] at hc
    by_cases hj : i = j
    · subst hj
      rw [Function.update_self] at hc
      cases hc
    · exact .same ((Function.update_of_ne hj ..).symm.trans hc)

/-- A property of every connection: new connections have it, and steps keep it. -/
theorem Change.forall_conn {P : Conn → Prop} (h : Change B op v a a')
    (ha : ∀ i c, a.slot i = some c → P c)
    (hnew : ∀ i fd slimit udata protocol rlimit c' np np' evs,
      Opening.Makes B op i (newConn fd slimit udata protocol rlimit) np c' np' evs → P c')
    (hstep : ∀ i c c' np np' evs, P c → ConnStep B op v i c np c' np' evs → P c') :
    ∀ i c, a'.slot i = some c → P c := by
  intro i c hc
  rcases h.origin hc with h | ⟨h, hs, -⟩ | ⟨-, hm, -⟩
  · exact ha i c h
  · exact hstep _ _ _ _ _ _ (ha i _ h) hs
  · exact hnew _ _ _ _ _ _ _ _ _ _ hm

/-! ## The log grows -/

/-- A change adds events to the log. -/
theorem Change.log_suffix (h : Change B op v a a') : a.log <:+ a'.log := by
  cases h with
  | err | polled => exact List.suffix_rfl
  | note | raised | refused | drop | destroyed => exact List.suffix_cons ..
  | conn => exact List.suffix_append ..
  | close =>
    rw [Abs.close_log]
    exact (List.suffix_append ..).trans ((List.suffix_cons ..).trans (List.suffix_append ..))
  | opened => exact (List.suffix_cons ..).trans (List.suffix_append ..)
  | bounced =>
    rw [Abs.close_log]
    exact (List.suffix_cons ..).trans ((List.suffix_append ..).trans
      ((List.suffix_cons ..).trans (List.suffix_append ..)))

/-- So does a chain of changes. -/
theorem Changes.log_suffix (h : Changes B op v a a') : a.log <:+ a'.log := by
  induction h with
  | refl => exact List.suffix_rfl
  | tail _ h ih => exact ih.trans h.log_suffix

end Lsocket
