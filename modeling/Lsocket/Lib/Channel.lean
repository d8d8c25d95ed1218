import Lsocket.Lib.System
import Mathlib.Data.List.Infix

/-!
# Two systems joined by a stream

What a source puts out goes onto a stream, and what a sink takes comes off its front. The stream can be
cut: some of its end is lost, and nothing is put onto it any more. A sink that no longer attends may
let data pass without taking it. Whatever the order of the steps, what is taken is the beginning of what
was put out, and as long as the stream is whole and the sink attends, the rest is on the stream
(`reach_conserved`).
-/

namespace Channel

/-- A system that puts out data. -/
structure Source (S L α : Type) extends System S L where
  /-- What was put out so far. -/
  out : S → List α
  grows : ∀ {s : S} {l : L} {s' : S}, toSystem.Reach s → step s l s' → out s <+: out s'

/-- A system that takes data as long as it attends. -/
structure Sink (T M α : Type) extends System T M where
  /-- What was taken so far. -/
  taken : T → List α
  attends : T → Prop
  grows : ∀ {t : T} {l : M} {t' : T}, toSystem.Reach t → step t l t' → taken t <+: taken t'
  deaf : ∀ {t : T} {l : M} {t' : T}, toSystem.Reach t → ¬ attends t → step t l t' →
    ¬ attends t' ∧ taken t' = taken t

/-- A source, a sink, and the data on its way from one to the other. -/
structure State (S T α : Type) where
  sender : S
  receiver : T
  inflight : List α
  /-- Nothing was lost. -/
  whole : Bool

variable {S L T M α : Type} {C : Source S L α} {D : Sink T M α} {s : State S T α}

/-- The steps: one of the source, one of the sink, or a cut of the stream. -/
inductive Step (C : Source S L α) (D : Sink T M α) :
    State S T α → Option (L ⊕ M) → State S T α → Prop
  | put {s s' : S} {t : T} {fl new : List α} {whole : Bool} {l : L} (hs : C.step s l s')
      (hout : C.out s' = C.out s ++ new) :
      Step C D ⟨s, t, fl, whole⟩ (some (.inl l)) ⟨s', t, if whole then fl ++ new else fl, whole⟩
  | take {s : S} {t t' : T} {got skipped fl : List α} {whole : Bool} {l : M} (ht : D.step t l t')
      (htaken : D.taken t' = D.taken t ++ got) (hskip : skipped ≠ [] → ¬ D.attends t') :
      Step C D ⟨s, t, got ++ (skipped ++ fl), whole⟩ (some (.inr l)) ⟨s, t', fl, whole⟩
  | cut {s : S} {t : T} {fl rest : List α} {whole : Bool} :
      Step C D ⟨s, t, fl ++ rest, whole⟩ none ⟨s, t, fl, false⟩

/-- The systems in parallel, from a time when nothing was put out or taken yet. -/
def system (C : Source S L α) (D : Sink T M α) : System (State S T α) (Option (L ⊕ M)) where
  init s := C.init s.sender ∧ D.init s.receiver ∧ C.out s.sender = [] ∧ D.taken s.receiver = [] ∧
    s.inflight = [] ∧ s.whole = true
  step := Step C D

/-- What the source does alone is a run of the source. -/
theorem reach_sender (h : (system C D).Reach s) : C.Reach s.sender := by
  refine h.invariant (I := fun s => C.Reach s.sender) (fun s h => .init h.1) ?_
  intro s l s' _ ih hs
  cases hs with
  | put hs => exact .step ih hs
  | take | cut => exact ih

/-- What the sink does alone is a run of the sink. -/
theorem reach_receiver (h : (system C D).Reach s) : D.Reach s.receiver := by
  refine h.invariant (I := fun s => D.Reach s.receiver) (fun s h => .init h.2.1) ?_
  intro s l s' _ ih hs
  cases hs with
  | take ht => exact .step ih ht
  | put | cut => exact ih

/-- Where the data is. -/
structure Conserved (C : Source S L α) (D : Sink T M α) (s : State S T α) : Prop where
  taken : D.taken s.receiver <+: C.out s.sender
  inflight : D.attends s.receiver → D.taken s.receiver ++ s.inflight <+: C.out s.sender
  whole : D.attends s.receiver → s.whole = true →
    D.taken s.receiver ++ s.inflight = C.out s.sender

/-- Every step conserves the stream: what is put is behind what is on its way, what is taken comes from
the front, and a cut loses the end. -/
theorem Conserved.step {s' : State S T α} {l : Option (L ⊕ M)} (h : Conserved C D s)
    (ht : D.Reach s.receiver) (hs : Step C D s l s') : Conserved C D s' := by
  cases hs with
  | @put s s' t fl new whole l hs hout =>
    -- a producer only ever appends to what it has put out
    have hpre : C.out s <+: C.out s' := ⟨new, hout.symm⟩
    refine ⟨h.taken.trans hpre, fun hatt => ?_, fun hatt hw => ?_⟩
    · rcases whole with _ | _
      · exact (h.inflight hatt).trans hpre
      · have hall : D.taken t ++ fl = C.out s := h.whole hatt rfl
        show D.taken t ++ (fl ++ new) <+: C.out s'
        rw [← List.append_assoc, hall, hout]
    · obtain rfl : whole = true := hw
      have hall : D.taken t ++ fl = C.out s := h.whole hatt rfl
      show D.taken t ++ (fl ++ new) = C.out s'
      rw [← List.append_assoc, hall, hout]
  | @take s t t' got skipped fl whole l ht' htaken hskip =>
    by_cases hatt : D.attends t
    swap
    -- a deaf consumer stays deaf and takes nothing, so only the prefix is left to keep
    · obtain ⟨hdeaf, hsame⟩ := D.deaf ht hatt ht'
      exact ⟨hsame ▸ h.taken, fun h => absurd h hdeaf, fun h => absurd h hdeaf⟩
    have hmove : D.taken t' ++ (skipped ++ fl) = D.taken t ++ (got ++ (skipped ++ fl)) := by
      rw [htaken, List.append_assoc]
    have hnone (hatt' : D.attends t') : skipped = [] := by
      by_contra hne
      exact hskip hne hatt'
    refine ⟨?_, fun hatt' => ?_, fun hatt' hw => ?_⟩
    · exact (List.prefix_append ..).trans (hmove ▸ h.inflight hatt)
    · have := hmove ▸ h.inflight hatt
      rwa [hnone hatt', List.nil_append] at this
    · have := hmove.trans (h.whole hatt hw)
      rwa [hnone hatt', List.nil_append] at this
  | @cut s t fl rest whole =>
    -- a cut loses the end of what is in flight: the stream is no longer whole
    refine ⟨h.taken, fun hatt => ?_, fun _ hw => nomatch hw⟩
    refine List.IsPrefix.trans ?_ (h.inflight hatt)
    exact (List.prefix_append_right_inj _).mpr (List.prefix_append ..)

/-- In every run, what was taken is the beginning of what was put; and as long as nothing is cut, the
rest is on its way. -/
theorem reach_conserved (h : (system C D).Reach s) : Conserved C D s := by
  refine h.invariant ?_ fun s l s' hr ih hs => ih.step (reach_receiver hr) hs
  rintro s ⟨-, -, hout, htaken, hfl, -⟩
  have hnil : D.taken s.receiver ++ s.inflight = C.out s.sender := by
    rw [hout, htaken, hfl]
    rfl
  exact ⟨by rw [hout, htaken], fun _ => hnil ▸ List.prefix_rfl, fun _ _ => hnil⟩

end Channel
