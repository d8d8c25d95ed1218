import Lsocket.Lua.Changes
import Lsocket.Net.Epoll

/-!
# Errors reach the coroutine

A dispatch is handled if the handler raises no error, if a failure of a socket that has an entry removes
the entry and wakes its coroutine with the text of the failure, and if an event of a socket without an
entry leaves the pool as it is. `handled_iff_met` says when: the handler must find the entry it indexes,
with a coroutine that can be woken, and the event must not be `LS_ESOCKERR`, whose handler asks
`disconnect` for the wrong entry.
-/

namespace Lsocket.Lua

open CInt

variable {σ : Type} {B : Backend σ} {s : State σ} {t : Turn}

/-! ## Handled dispatches -/

/-- The failure that an event reports, or that `c.read` returns in its handler. -/
def Turn.failure (t : Turn) : Option ℤ :=
  match t.event.type, t.heard with
  | .connerr, _ | .sockerr, _ => some (t.event.arg.getD 0)
  | .read, some (.failed err) => some err
  | _, _ => none

/-- The dispatch has done what an event asks for. -/
structure Turn.Handled (t : Turn) : Prop where
  quiet : t.verdict ≠ .raised
  failed : ∀ x err, t.pool (.id t.event.id) = some x → t.failure = some err →
    t.pool' (.id t.event.id) = none ∧ t.verdict = .woke x.co [.nil, .text (socketError err)]
  gone : t.pool (.id t.event.id) = none → t.pool' = t.pool

/-- What the dispatch of an event needs in order to be handled. -/
def Turn.Met (t : Turn) : Prop :=
  match t.event.type with
  | .read => ∀ x, t.pool (.id t.event.id) = some x →
    match t.heard with
    | some (.data block _) => x.pops block = .ok .nil ∨ (∃ v, x.pops block = .ok v) ∧ t.Waits x
    | some (.failed _) => t.Waits x
    | _ => True
  | .accept => ∃ x, t.pool (.id (t.event.arg.getD 0)) = some x ∧ x.callback = true
  | .connect | .connerr => ∃ x, t.pool (.id t.event.id) = some x ∧ t.Waits x
  | .sockerr => False
  | _ => True

/-- A dispatch whose handler wakes the coroutine of the entry is handled if the coroutine waits. -/
theorem Turn.handled_iff_of_woken {x : Entry} {args : List Value}
    (hx : t.pool (.id t.event.id) = some x) (hv : t.verdict = woken t.point x.co args)
    (hf : ∀ err, t.failure = some err →
      t.pool' (.id t.event.id) = none ∧ args = [.nil, .text (socketError err)]) :
    t.Handled ↔ t.Waits x := by
  refine ⟨fun h => woken_ne_raised.mp (hv ▸ h.quiet), fun hw => ⟨?_, fun y err hy herr => ?_, fun hn => ?_⟩⟩
  · rw [hv]
    exact woken_ne_raised.mpr hw
  · obtain rfl : x = y := Option.some.inj (hx.symm.trans hy)
    obtain ⟨hgone, rfl⟩ := hf err herr
    exact ⟨hgone, hv.trans (woken_eq hw)⟩
  · cases hx.symm.trans hn

/-- A dispatch that does nothing, and is about no failure. -/
theorem Turn.Handled.of_done (hv : t.verdict ≠ .raised) (hf : t.failure = none)
    (hp : t.pool (.id t.event.id) = none → t.pool' = t.pool) : t.Handled :=
  ⟨hv, fun _ _ _ h => absurd (hf.symm.trans h) nofun, hp⟩

/-- A dispatch that raises an error has not handled its event. -/
theorem Turn.not_handled_of_raised (hv : t.verdict = .raised) : ¬ t.Handled := fun h => h.quiet hv

/-- What a dispatch needs in order to be handled, whatever way it ends. -/
theorem handled_iff_of_handles {notes : List Note}
    (h : Handles t.pool t.point t.event t.heard t.verdict t.pool' notes) : t.Handled ↔ t.Met := by
  obtain ⟨e, pool, point, heard, verdict, pool'⟩ := t
  dsimp only at h
  -- each way a turn can end decides both sides
  cases h with
  | ignored he =>
    refine iff_of_true (.of_done (by simp) ?_ fun _ => rfl) ?_
    · unfold Turn.failure
      split <;> simp_all
    · unfold Turn.Met
      split <;> simp_all
  | gone he hx =>
    refine iff_of_true (.of_done (by simp) (by simp [Turn.failure, he]) fun _ => rfl) ?_
    simp [Turn.Met, he, hx]
  | nothing he hx =>
    refine iff_of_true (.of_done (by simp) (by simp [Turn.failure, he]) fun _ => rfl) ?_
    simp [Turn.Met, he]
  | @failed x err he hx =>
    rw [Turn.handled_iff_of_woken hx rfl]
    · simp [Turn.Met, he, hx]
    · intro err' herr
      obtain rfl : err = err' := by simpa [Turn.failure, he] using herr
      exact ⟨Function.update_self .., rfl⟩
  | @unbuffered x block n he hx hb =>
    refine iff_of_false (Turn.not_handled_of_raised rfl) fun hm => ?_
    simp [Turn.Met, he, hx, Entry.pops, hb] at hm
  | kept he hx hb hinv hpop =>
    refine iff_of_true (.of_done (by simp) (by simp [Turn.failure, he]) fun hn => ?_) ?_
    · cases hx.symm.trans hn
    · simp [Turn.Met, he, hx, hpop]
  | popped he hx hb hinv hpop =>
    rw [Turn.handled_iff_of_woken hx rfl fun err herr => by simp [Turn.failure, he] at herr]
    simp [Turn.Met, he, hx, hpop]
  | rejected he hx hb hinv hpop =>
    refine iff_of_false (Turn.not_handled_of_raised rfl) fun hm => ?_
    simp [Turn.Met, he, hx, hpop] at hm
  | accepted he hx hc =>
    refine iff_of_true (.of_done (by simp) (by simp [Turn.failure, he]) fun _ => rfl) ?_
    simp [Turn.Met, he, hx, hc]
  | unaccepted he hx =>
    refine iff_of_false (Turn.not_handled_of_raised rfl) fun hm => ?_
    obtain ⟨x, hx', hc⟩ : ∃ x, pool (.id (e.arg.getD 0)) = some x ∧ x.callback = true := by
      simpa [Turn.Met, he] using hm
    exact absurd (hx x hx') (by simp [hc])
  | connected he hx =>
    rw [Turn.handled_iff_of_woken hx rfl fun err herr => by simp [Turn.failure, he] at herr]
    simp [Turn.Met, he, hx]
  | refused he hx =>
    rw [Turn.handled_iff_of_woken hx rfl]
    · simp [Turn.Met, he, hx]
    · intro err herr
      obtain rfl : e.arg.getD 0 = err := by simpa [Turn.failure, he] using herr
      exact ⟨Function.update_self .., rfl⟩
  | broken he hx =>
    refine iff_of_false (Turn.not_handled_of_raised rfl) fun hm => ?_
    simp [Turn.Met, he] at hm
  | missing he hx =>
    refine iff_of_false (Turn.not_handled_of_raised rfl) fun hm => ?_
    rcases he with he | he | he <;> simp [Turn.Met, he, hx] at hm

/-- In every run, a dispatch is handled exactly if it finds what it needs. -/
theorem handled_iff_met (h : (script B).Reach s) (ht : .turn t ∈ s.log) : t.Handled ↔ t.Met := by
  obtain ⟨notes, hh⟩ := handles_of_reach h ht
  exact handled_iff_of_handles hh

/-- A coroutine connects, and the connection is refused. -/
def refusedSteps : List Step :=
  [.resume 1,
    .call .connect [{ count := 1 }, { ret := 5 }, { ret := 0 }, { ret := 0 }, { ret := 0 },
      { ret := -1, errno := EINPROGRESS }, { ret := 0 }],
    .poll 0 [{ ret := 1, ready := [⟨5, false, true, false⟩] }, { ret := 0, value := 111 }],
    .dispatch 0 []]

/-- The refusal of the connection is handled. -/
theorem handled_iff_met_refused : ∃ t, .turn t ∈ (after epoll 1 refusedSteps).log ∧
    t.event.type = .connerr ∧ t.Handled := by
  obtain ⟨t, ht, hP⟩ := exists_turn (s := after epoll 1 refusedSteps)
    (P := fun t => t.event.type = .connerr ∧
      (t.pool (.id t.event.id)).any (fun x => (t.point x.co).isSome) = true) (by decide +kernel)
  obtain ⟨he, hx⟩ := of_decide_eq_true hP
  refine ⟨t, ht, he, (handled_iff_met (reach_after (by decide +kernel)) ht).mpr ?_⟩
  simpa [Turn.Met, he, Turn.Waits, Option.any_eq_true] using hx

/-- A coroutine connects and sends. The data is queued, and cannot be written later. -/
def brokenSteps : List Step :=
  [.resume 1,
    .call .connect [{ count := 1 }, { ret := 5 }, { ret := 0 }, { ret := 0 }, { ret := 0 }, { ret := 0 }],
    .call (.send 0 (.string [97] none none 1) 0)
      [{ ret := -1, errno := EAGAIN }, { addr := 0 }, { ret := 0 }],
    .yield,
    .poll 0 [{ ret := 1, ready := [⟨5, false, true, false⟩] }, { ret := -1, errno := 32 }],
    .dispatch 0 []]

/-- The handler of `LS_ESOCKERR` raises an error: the entry stays, and its coroutine sleeps on. -/
theorem not_handled_sockerr : ∃ s : State Epoll, (script epoll).Reach s ∧
    ∃ t, .turn t ∈ s.log ∧ t.event.type = .sockerr ∧ (t.pool' (.id t.event.id)).isSome = true ∧
      ¬ t.Handled := by
  obtain ⟨t, ht, hP⟩ := exists_turn (s := after epoll 1 brokenSteps)
    (P := fun t => t.event.type = .sockerr ∧ (t.pool' (.id t.event.id)).isSome = true ∧
      t.verdict = .raised) (by decide +kernel)
  obtain ⟨he, hx, hv⟩ := of_decide_eq_true hP
  exact ⟨_, reach_after (by decide +kernel), t, ht, he, hx, Turn.not_handled_of_raised hv⟩

end Lsocket.Lua
