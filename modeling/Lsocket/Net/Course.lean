import Lsocket.Net.Psocket

/-!
# A slot, and the log of one of its connections

Every change, seen from a slot that may be free or occupied: it is elsewhere, or a step of the connection,
or its end, or it gives the slot to a new connection, which stays or is closed at once.

A slot holds one connection after the other. What the log says of the connection `g` is what it says up
to the time when the slot is given to the next one (`upTo`).
-/

namespace Lsocket

variable {σ : Type} {B : Backend σ} {a a' : Abs σ} {i g : ℕ} {op : Op} {v : ℤ} {evs log : List Ev}

/-! ## Changes -/

/-- What a change means for a slot. -/
inductive Course (B : Backend σ) (op : Op) (v : ℤ) (i : ℕ) (a : Abs σ) : Abs σ → Prop
  | elsewhere {a' : Abs σ} (evs : List Ev) (hslot : a'.slot i = a.slot i) (hlog : a'.log = evs ++ a.log)
      (hevs : ∀ e ∈ evs, e.Elsewhere i) : Course B op v i a a'
  | step {c c' : Conn} {np' : σ} {evs : List Ev} (hc : a.slot i = some c)
      (h : ConnStep B op v i c a.np c' np' evs) : Course B op v i a (a.put i c' np' evs)
  | ended {c c' : Conn} {np' : σ} {evs : List Ev} (hc : a.slot i = some c)
      (h : Closing B op v i c a.np c' np' evs) : Course B op v i a ((a.put i c' np' evs).close i B c')
  | opened {rest : List ℕ} {fd slimit udata protocol rlimit : ℤ} {c : Conn} {np : σ} {evs : List Ev}
      (hn : a.slot i = none)
      (h : Opening.Makes B op i (newConn fd slimit udata protocol rlimit) a.np c np evs) :
      Course B op v i a ((a.create i rest (newConn fd slimit udata protocol rlimit)).put i c np evs)
  | bounced {rest : List ℕ} {fd slimit udata protocol rlimit r : ℤ} {mask new : Mask} {np : σ}
      {evs : List Ev} (hn : a.slot i = none) (hs : Subscribe B i fd .none new a.np r mask np evs) :
      Course B op v i a
        (((a.create i rest (newConn fd slimit udata protocol rlimit)).put i
          (newConn fd slimit udata protocol rlimit) np evs).close i B
            (newConn fd slimit udata protocol rlimit))

/-- An occupied slot has the fate of its connection; a free one is opened, or left alone. -/
theorem Change.course (h : Change B op v a a') (i : ℕ) : Course B op v i a a' := by
  rcases hi : a.slot i with _ | c
  swap
  · rcases h.fate hi with ⟨evs, hslot, hlog, hevs⟩ | hs | hs
    · exact .elsewhere evs (hslot.trans hi.symm) hlog hevs
    · exact .step hi hs
    · exact .ended hi hs
  -- with slot `i` free, an occupied slot the change is about is another one
  have hother {j : ℕ} {d : Conn} (hd : a.slot j = some d) : j ≠ i := (Abs.ne_of_slot hi hd).symm
  cases h with
  | err => exact .elsewhere [] rfl rfl (by simp)
  | @note e he _ => exact .elsewhere [e] rfl rfl (by simpa using he.elsewhere)
  | @raised e _ _ _ he => exact .elsewhere [.raised e] rfl rfl (by simpa using .inr he)
  | refused => exact .elsewhere [.refused] rfl rfl (by simp [Ev.Elsewhere])
  | polled => exact .elsewhere [] rfl rfl (by simp)
  | @drop fd => exact .elsewhere [.released fd] rfl rfl (by simp [Ev.Elsewhere])
  | destroyed => exact .elsewhere [.destroyed] rfl rfl (by simp [Ev.Elsewhere])
  | conn hd hs =>
    exact .elsewhere _ (Function.update_of_ne (hother hd).symm ..) rfl
      fun e he => (hs.about e he).elsewhere (hother hd)
  | @close j d d' _ evs hd hs =>
    refine .elsewhere (closeEvs d' ++ .closed j d'.fd d'.mask :: evs) ?_ ?_ ?_
    · rw [Abs.close_slot, Abs.put, Function.update_idem, Function.update_of_ne (hother hd).symm]
    · rw [Abs.close_log, List.append_assoc]
      rfl
    · simp only [List.mem_append, List.mem_cons]
      rintro e (he | rfl | he)
      · exact closeEvs_elsewhere e he
      · exact hother hd
      · exact (hs.about e he).elsewhere (hother hd)
  | @opened j rest fd slimit udata protocol rlimit d _ evs _ _ _ hn hm =>
    rcases eq_or_ne j i with rfl | hj
    · exact .opened hn hm
    refine .elsewhere (evs ++ [.opened j fd (protocolOf protocol)]) ?_ ?_ ?_
    · exact (Function.update_of_ne hj.symm ..).trans (Function.update_of_ne hj.symm ..)
    · rw [List.append_assoc]
      rfl
    · simp only [List.mem_append, List.mem_singleton]
      rintro e (he | rfl)
      · exact (hm.events_local e he).about.elsewhere hj
      · exact hj
  | @bounced j rest fd slimit udata protocol rlimit _ _ _ _ evs _ _ _ hn hs _ =>
    rcases eq_or_ne j i with rfl | hj
    · exact .bounced hn hs
    refine .elsewhere (closeEvs (newConn fd slimit udata protocol rlimit) ++
      .closed j fd .none :: (evs ++ [.opened j fd (protocolOf protocol)])) ?_ ?_ ?_
    · rw [Abs.close_slot, Abs.put, Abs.create, Function.update_idem, Function.update_idem,
        Function.update_of_ne hj.symm]
    · rw [Abs.close_log, List.append_assoc, List.cons_append, List.append_assoc]
      rfl
    · simp only [List.mem_append, List.mem_cons, List.not_mem_nil, or_false]
      rintro e (he | rfl | he | rfl)
      · exact closeEvs_elsewhere e he
      · exact hj
      · exact (hs.events_local e he).about.elsewhere hj
      · exact hj

/-! ## The log of one connection -/

/-- The log up to the end of the connection `g` of a slot. -/
def upTo (i g : ℕ) : List Ev → List Ev
  | [] => []
  | e :: log => if generation i (e :: log) ≤ g then e :: log else upTo i g log

/-- Up to the present connection, the log is the whole log. -/
theorem upTo_of_le (h : generation i log ≤ g) : upTo i g log = log := by
  cases log with
  | nil => rfl
  | cons e log => exact if_pos h

/-- What a later connection does is not in the log of an earlier one. -/
theorem upTo_cons_of_lt {e : Ev} (h : g < generation i (e :: log)) :
    upTo i g (e :: log) = upTo i g log :=
  if_neg (not_le.mpr h)

/-- The log of a connection has no later one. -/
theorem upTo_generation_le (i g : ℕ) (log : List Ev) : generation i (upTo i g log) ≤ g := by
  induction log with
  | nil => exact Nat.zero_le g
  | cons e log ih =>
    by_cases h : generation i (e :: log) ≤ g
    · rwa [upTo_of_le h]
    · rwa [upTo_cons_of_lt (not_le.mp h)]

/-- The log of a connection is the whole log, or it ends where the slot is given to the next one. -/
theorem upTo_ends (i g : ℕ) (log : List Ev) :
    upTo i g log = log ∨ ∃ post fd p, log = post ++ .opened i fd p :: upTo i g log := by
  induction log with
  | nil => exact .inl rfl
  | cons e log ih =>
    by_cases hle : generation i (e :: log) ≤ g
    · exact .inl (upTo_of_le hle)
    rw [upTo_cons_of_lt (not_le.mp hle)]
    rcases ih with heq | ⟨post, fd, p, hlog⟩
    · right
      -- the event that goes past generation `g` is an opening of the slot
      by_cases he : e.Opens i
      · cases e with
        | opened j fd p =>
          obtain rfl : j = i := he
          exact ⟨[], fd, p, congrArg (_ :: ·) heq.symm⟩
        | _ => exact he.elim
      · rw [generation_ignores i e _ he] at hle
        exact absurd (heq ▸ upTo_generation_le i g log) hle
    · exact .inr ⟨e :: post, fd, p, congrArg (e :: ·) hlog⟩

/-- The log of a connection that was opened grows by events that open no other. -/
theorem upTo_append (h : g ≤ generation i log) (evs : List Ev) :
    ∃ new, upTo i g (evs ++ log) = new ++ upTo i g log ∧ ∀ e ∈ new, ¬ e.Opens i := by
  induction evs with
  | nil => exact ⟨[], rfl, by simp⟩
  | cons e evs ih =>
    obtain ⟨new, hnew, hopens⟩ := ih
    by_cases hle : generation i (e :: (evs ++ log)) ≤ g
    swap
    · exact ⟨new, (upTo_cons_of_lt (not_le.mp hle)).trans hnew, hopens⟩
    have hmono := generation_le i evs log
    have he : ¬ e.Opens i := fun he => by
      rw [generation_opens he] at hle
      omega
    rw [generation_ignores i e _ he] at hle
    refine ⟨e :: new, ?_, ?_⟩
    · rw [List.cons_append, upTo_of_le (by rwa [generation_ignores i e _ he]), List.cons_append, ← hnew,
        upTo_of_le hle]
    · simpa [he] using hopens

/-- When the slot has been given to another connection, the log of the connection is complete. -/
theorem upTo_append_of_lt (h : g < generation i log) (evs : List Ev) :
    upTo i g (evs ++ log) = upTo i g log := by
  induction evs with
  | nil => rfl
  | cons e evs ih => exact (upTo_cons_of_lt (h.trans_le (generation_le i (e :: evs) log))).trans ih

/-- What the log says of a connection, from its opening to its end. -/
theorem since_upTo_le {β : Type} {f : Ev → List β} (ho : ∀ j fd p, f (.opened j fd p) = [])
    (h : g ≤ generation i log) (evs : List Ev) :
    since i f (upTo i g log) <+: since i f (upTo i g (evs ++ log)) := by
  obtain ⟨new, hnew, hopens⟩ := upTo_append h evs
  rw [hnew, since_append hopens ho]
  exact List.prefix_append ..

/-- The type of the event, if it is stored for the slot. -/
def Ev.told (i : ℕ) : Ev → List EventType
  | .raised e => if e.id = i then [e.type] else []
  | _ => []

/-- The types of the events that were stored for the connection `g` of slot `i`, oldest first. -/
def told (i g : ℕ) (log : List Ev) : List EventType := since i (Ev.told i) (upTo i g log)

theorem Ev.Unreported.told {e : Ev} (h : e.Unreported) : e.told i = [] := by
  cases e <;> first | rfl | exact h.elim

end Lsocket
