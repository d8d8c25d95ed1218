import Lsocket.Net.Lifecycle

/-!
# Interest in writing

A connection with data queued must be registered for writing, or nothing ever sends the data.
`_subscribe` is called wherever a queue gets its first node or loses its last one, but `_onconnect`
ends all interest, whatever was queued while the connect was under way. This is the only way to break
the rule.
-/

namespace Lsocket

variable {σ : Type} {B : Backend σ} {w : World σ} {a a' : Abs σ} {i : ℕ} {c c' : Conn} {op : Op}
variable {np np' : σ} {evs log : List Ev} {v : ℤ}

/-- The rule. While a connect is under way the slot waits for it, by an interest in writing. -/
structure Conn.Interested (c : Conn) : Prop where
  connecting : c.status = .connecting → c.mask.wable = true
  queued : c.status ≠ .connecting → (c.mask.wable = true ↔ c.queue ≠ [])

/-- If the event is a change of interest, the poller accepts it. -/
def Ev.Accepted : Ev → Prop
  | .subscribed _ _ r => r = 0
  | _ => True

/-- If a connect completes, nothing is queued. -/
def Ev.Unhurried : Ev → Prop
  | .completed _ pending => pending = false
  | _ => True

instance : DecidablePred Ev.Accepted := fun e =>
  match e with
  | .subscribed _ _ r => inferInstanceAs (Decidable (r = 0))
  | .opened .. | .refused | .closed .. | .offered .. | .sent .. | .received .. | .halfclosed ..
  | .completed .. | .raised _ | .freed _ | .acquired _ | .released _ | .gotAddrinfo | .freedAddrinfo
  | .destroyed => .isTrue trivial

instance : DecidablePred Ev.Unhurried := fun e =>
  match e with
  | .completed _ pending => inferInstanceAs (Decidable (pending = false))
  | .opened .. | .refused | .closed .. | .offered .. | .sent .. | .received .. | .halfclosed ..
  | .subscribed .. | .raised _ | .freed _ | .acquired _ | .released _ | .gotAddrinfo | .freedAddrinfo
  | .destroyed => .isTrue trivial

/-- Both. -/
def Ev.Calm (e : Ev) : Prop := e.Accepted ∧ e.Unhurried

/-- A change of interest that the poller accepts. -/
theorem Subscribe.mask_eq {fd r : ℤ} {old new mask : Mask}
    (h : Subscribe B i fd old new np r mask np' evs) (hevs : ∀ e ∈ evs, e.Calm) : mask = new := by
  cases h with
  | same h => exact h.symm
  | done => rfl
  | failed _ hr => exact absurd (hevs _ (List.mem_singleton_self _)).1 hr

/-- A change of the interest in reading, whether or not it is accepted. -/
theorem Subscribe.wable_eq {fd r : ℤ} {old new mask : Mask}
    (h : Subscribe B i fd old new np r mask np' evs) (hnew : new.wable = old.wable) :
    mask.wable = old.wable := by
  cases h with
  | done => exact hnew
  | _ => rfl

/-- A write event drops the interest exactly if it empties the queue. -/
theorem Flush.interested (h : Flush B i c np c' np' evs) (hc : c.Interested) (hs : c.status ≠ .connecting)
    (hevs : ∀ e ∈ evs, e.Calm) : c'.Interested := by
  have hst := h.status
  refine ⟨fun h' => absurd (hst ▸ h') hs, fun _ => ?_⟩
  cases h with
  | idle => exact hc.queued hs
  | rest h hq =>
    have hne : c.queue ≠ [] := by
      rintro hnil
      cases h with
      | stop => exact hq hnil
      | part hq' => simp [hnil] at hq'
      | next hq' => simp [hnil] at hq'
    rw [h.mask]
    exact iff_of_true ((hc.queued hs).mpr hne) hq
  | done _ h hq hsub =>
    have hmask := hsub.mask_eq fun e he => hevs e (List.mem_append_left _ he)
    exact iff_of_false (by simp [hmask, Mask.withoutWable]) (fun hne => hne hq)

/-- Every step keeps the rule, if the poller accepts its change of interest and no connect completes
with data queued. -/
theorem ConnStep.interested (h : ConnStep B op v i c np c' np' evs) (hc : c.Interested)
    (hevs : ∀ e ∈ evs, e.Calm) : c'.Interested := by
  cases h with
  | tune => exact ⟨hc.connecting, hc.queued⟩
  | received | whole => exact hc
  | enable _ h =>
    have hmask := h.wable_eq rfl
    exact ⟨fun hs => hmask.trans (hc.connecting hs), fun hs => hmask ▸ hc.queued hs⟩
  -- the queue was not empty, so write interest was already there
  | half _ _ hq =>
    refine ⟨nofun, fun _ => iff_of_true ?_ hq⟩
    by_cases hs : c.status = .connecting
    · exact hc.connecting hs
    · exact (hc.queued hs).mpr hq
  | start _ _ _ _ hs =>
    have hmask := hs.mask_eq fun e he => hevs e (List.mem_append_left _ he)
    have hw : Mask.wable _ = true := congrArg Mask.wable hmask
    exact ⟨fun _ => hw, fun _ => iff_of_true hw (List.cons_ne_nil _ _)⟩
  | behind _ _ hq =>
    exact ⟨hc.connecting, fun hs => iff_of_true ((hc.queued hs).mpr hq) (by simp)⟩
  | flushed _ h _ hn => exact h.interested hc hn hevs
  -- a calm run completes no connection that has something queued
  | completed _ hs h =>
    have hmask := h.mask_eq fun e he => hevs e (List.mem_append_left _ he)
    have hq : c.queue = [] := by
      have : (!c.queue.isEmpty) = false := hevs _ (List.mem_append_right _ (List.mem_singleton_self _)) |>.2
      simpa using this
    exact ⟨nofun, fun _ => iff_of_false (by simp [hmask, Mask.none]) (fun hne => hne hq)⟩

/-- A new connection keeps the rule. -/
theorem Opening.Makes.interested (h : Opening.Makes B op i c np c' np' evs) (hq : c.queue = [])
    (hm : c.mask = .none) (hevs : ∀ e ∈ evs, e.Calm) : c'.Interested := by
  cases h with
  | listening _ h =>
    have hmask := h.mask_eq hevs
    exact ⟨nofun, fun _ => iff_of_false (by simp [hmask]) (fun hne => hne hq)⟩
  | connecting _ h =>
    have hmask := h.mask_eq hevs
    exact ⟨fun _ => by simp [hmask], fun hs => absurd rfl hs⟩
  | connected | accepted | bound =>
    exact ⟨nofun, fun _ => iff_of_false (by simp [hm, Mask.none]) (fun hne => hne hq)⟩

/-- In every run without such events, every connection keeps the rule. -/
theorem reach_interested (h : (changes B).Reach a) (hlog : ∀ e ∈ a.log, e.Calm) :
    ∀ i c, a.slot i = some c → c.Interested := by
  refine h.invariant (I := fun a => (∀ e ∈ a.log, e.Calm) → ∀ i c, a.slot i = some c → c.Interested)
    ?_ (fun a l a' _ ih hs hlog i c hc => ?_) hlog
  · rintro _ ⟨max, -, rfl⟩ - i c hc
    exact absurd hc.symm (Option.some_ne_none c)
  · have hpast := ih fun e he => hlog e (hs.log_suffix.mem he)
    rcases hs.origin hc with h | ⟨h, hstep, rfl⟩ | ⟨-, hm, rfl⟩
    · exact hpast i c h
    · exact hstep.interested (hpast i _ h) fun e he => hlog e (List.mem_append_left _ he)
    · exact hm.interested rfl rfl fun e he => hlog e (List.mem_append_left _ he)

/-! ## Runs -/

/-- Between two calls, a connection is registered for writing exactly if it has data queued. -/
def WriteInterest (w : World σ) : Prop :=
  ∀ i, w.Live i → (w.net.sockets i).protocol = .tcp ∨ (w.net.sockets i).protocol = .ipc →
    (w.net.sockets i).status ∈ [Status.connected, .bind, .halfclose] →
    ((w.net.sockets i).mask.wable = true ↔ w.queue i ≠ [])

/-- In a run in which no connect completes with data queued, every connection is registered for
writing exactly if it has data queued, provided that the poller accepts every change of interest. -/
theorem writeInterest_of_unhurried (h : (net B).Reach w) (hok : ∀ e ∈ w.log, e.Accepted)
    (hcon : ∀ e ∈ w.log, e.Unhurried) : WriteInterest w := by
  intro i hi _ hs
  refine (reach_interested (reach_abs h).2 (fun e he => ⟨hok e he, hcon e he⟩) i _ (if_pos hi)).queued
    fun hc => ?_
  rw [show (w.net.sockets i).status = .connecting from hc] at hs
  simp at hs

/-- A connect completes, and the rest of a short write is queued after it. -/
def calmCalls : List (Op × List Reply) :=
  [(.connect false 0, [{ count := 1 }, { ret := 5 }, { ret := 0 }, { ret := 0 }, { ret := 0 },
      { ret := -1, errno := EINPROGRESS }, { ret := 0 }]),
    (.poll 0, [{ ret := 1, ready := [⟨5, false, true, false⟩] }, { ret := 0 }, { ret := 0 }]),
    (.send 0 ⟨1, [1, 2, 3]⟩ 3, [{ ret := 1 }, { addr := 0 }, { ret := 0 }])]

theorem writeInterest_of_unhurried_calm : WriteInterest ((fresh epoll 1).after epoll calmCalls) :=
  writeInterest_of_unhurried (reach_fresh (by decide +kernel)) (by decide +kernel) (by decide +kernel)

/-- Data is sent while the connect is under way. -/
def earlyCalls : List (Op × List Reply) :=
  [(.connect false 0, [{ count := 1 }, { ret := 5 }, { ret := 0 }, { ret := 0 }, { ret := 0 },
      { ret := -1, errno := EINPROGRESS }, { ret := 0 }]),
    (.send 0 ⟨1, [1, 2, 3]⟩ 3, [{ ret := -1, errno := EAGAIN }, { addr := 0 }]),
    (.poll 0, [{ ret := 1, ready := [⟨5, false, true, false⟩] }, { ret := 0 }, { ret := 0 }])]

/-- The data stays queued, and nothing waits for the connection to be writable. -/
theorem writeInterest_early : ∃ w, (net epoll).Reach w ∧ (∀ e ∈ w.log, e.Accepted) ∧ ¬ WriteInterest w := by
  refine ⟨(fresh epoll 1).after epoll earlyCalls, reach_fresh (by decide +kernel),
    by decide +kernel, fun h => ?_⟩
  have := (h 0 (by decide +kernel) (.inl (by decide +kernel)) (by decide +kernel)).mpr
    (by decide +kernel)
  exact absurd this (by decide +kernel)

end Lsocket
