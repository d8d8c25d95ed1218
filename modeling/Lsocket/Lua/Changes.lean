import Lsocket.Lua.Effects
import Mathlib.Logic.Relation

/-!
# The accounts of a run

Of a Lua state, the accounts are `socket_pool` and what happened. Every step takes them through changes of
a few kinds (`Change`), so what every change keeps holds in every run (`accounts_of_reach`).
-/

namespace Lsocket.Lua

open CInt Relation

variable {σ α β : Type} {B : Backend σ} {s s' : State σ}

/-! ## Changes -/

/-- `socket_pool`, and what happened. -/
abbrev Accounts : Type := (Key → Option Entry) × List Note

/-- The accounts of a state. -/
def State.accounts (s : State σ) : Accounts := (s.pool, s.log)

/-- A change of the accounts. -/
inductive Change : Accounts → Accounts → Prop
  /-- `socket.start` makes an entry. -/
  | started {pool : Key → Option Entry} {log : List Note} (id : ℤ) (co : ℕ) (callback : Bool)
      (hx : pool (.id id) = none) :
    Change (pool, log) (Function.update pool (.id id)
      (some { id, co, buffer := none, mode := .string starL, callback }), .started id :: log)
  /-- `socket.start`, `socket.bind` and `socket.read` write the coroutine or the mode. -/
  | tuned {pool : Key → Option Entry} {log : List Note} {id : ℤ} {x : Entry} (co : ℕ)
      (mode : Buffer.PopArg) (hx : pool (.id id) = some x) :
    Change (pool, log) (Function.update pool (.id id) (some { x with co, mode }), log)
  /-- `socket.readenable` makes a buffer. -/
  | enabled {pool : Key → Option Entry} {log : List Note} {id : ℤ} {x : Entry}
      (hx : pool (.id id) = some x) (hb : x.buffer = none) :
    Change (pool, log) (Function.update pool (.id id) (some { x with buffer := some Buffer.lnew }), log)
  | removed {pool : Key → Option Entry} {log : List Note} {id : ℤ} {x : Entry}
      (hx : pool (.id id) = some x) : Change (pool, log) (Function.update pool (.id id) none, log)
  /-- `socket.read` finds too little. -/
  | waited {pool : Key → Option Entry} {log : List Note} {id : ℤ} {x : Entry} {b b' : Buffer.Buf}
      (hx : pool (.id id) = some x) (hb : x.buffer = some b) (hinv : Buffer.Inv b')
      (hbytes : Buffer.content b' = Buffer.content b) :
    Change (pool, log) (Function.update pool (.id id) (some { x with buffer := some b' }), log)
  /-- `socket.read` returns data. -/
  | returned {pool : Key → Option Entry} {log : List Note} {id : ℤ} {x : Entry} {b b' : Buffer.Buf}
      {bytes cut : List UInt8} (hx : pool (.id id) = some x) (hb : x.buffer = some b)
      (hinv : Buffer.Inv b') (hbytes : Buffer.content b = bytes ++ cut ++ Buffer.content b')
      (hcut : x.mode.Ends cut) :
    Change (pool, log) (Function.update pool (.id id) (some { x with buffer := some b' }),
      .returned id bytes :: .popped id x.mode bytes cut :: log)
  /-- An event is dispatched. -/
  | turned {log notes : List Note} (t : Turn)
      (ht : Handles t.pool t.point t.event t.heard t.verdict t.pool' notes) :
    Change (t.pool, log) (t.pool', .turn t :: (notes ++ log))

/-- Writing an entry that is in order leaves the pool in order. -/
theorem Sound.update {pool : Key → Option Entry} (hs : Sound pool) (x : Entry)
    (hb : ∀ b, x.buffer = some b → Buffer.Inv b) :
    Sound (Function.update pool (.id x.id) (some x)) := by
  intro k y hy
  by_cases hk : k = .id x.id
  · subst hk
    obtain rfl : x = y := by simpa using hy
    exact ⟨rfl, hb⟩
  · rw [Function.update_of_ne hk] at hy
    exact hs k y hy

/-- A pool without one of its entries is as sound. -/
theorem Sound.remove {pool : Key → Option Entry} (hs : Sound pool) (k : Key) :
    Sound (Function.update pool k none) := by
  intro k' y hy
  by_cases hk : k' = k
  · simp [hk] at hy
  · rw [Function.update_of_ne hk] at hy
    exact hs k' y hy

/-- Without entries, there is nothing to keep in order. -/
theorem Sound.empty : Sound fun _ => none := fun _ _ h => absurd h.symm (Option.some_ne_none _)

/-- An entry stands under its id. -/
theorem Sound.id_eq {pool : Key → Option Entry} {id : ℤ} {x : Entry} (hs : Sound pool)
    (hx : pool (.id id) = some x) : x.id = id :=
  (Key.id.inj (hs _ x hx).1).symm

/-- A new buffer of an entry that is there. -/
theorem Sound.setBuffer {pool : Key → Option Entry} {id : ℤ} {x : Entry} {b : Buffer.Buf}
    (hs : Sound pool) (hx : pool (.id id) = some x) (hinv : Buffer.Inv b) :
    Sound (Function.update pool (.id id) (some { x with buffer := some b })) := by
  obtain rfl := hs.id_eq hx
  exact hs.update { x with buffer := some b } fun c hc => Option.some.inj hc ▸ hinv

/-- Every dispatch leaves the pool sound. -/
theorem Handles.sound {pool pool' : Key → Option Entry} {point : ℕ → Option Point} {e : SocketEvent}
    {heard : Option Heard} {v : Verdict} {notes : List Note}
    (h : Handles pool point e heard v pool' notes) (hs : Sound pool) : Sound pool' := by
  cases h with
  | failed | refused => exact hs.remove _
  | kept _ hx _ hinv => exact hs.setBuffer hx hinv
  | popped _ hx _ hinv => exact hs.setBuffer hx hinv
  | rejected _ hx _ hinv => exact hs.setBuffer hx hinv
  | _ => exact hs

/-- So does every change. -/
theorem Change.sound {a a' : Accounts} (h : Change a a') (hs : Sound a.1) : Sound a'.1 := by
  cases h with
  | started id co callback => exact hs.update ⟨id, co, none, .string starL, callback⟩ nofun
  | @tuned _ _ _ x co mode hx =>
    obtain rfl := hs.id_eq hx
    exact hs.update { x with co, mode } (hs _ _ hx).2
  | enabled hx => exact hs.setBuffer hx Buffer.inv_lnew
  | removed => exact hs.remove _
  | waited hx _ hinv => exact hs.setBuffer hx hinv
  | returned hx _ hinv => exact hs.setBuffer hx hinv
  | turned t ht => exact ht.sound hs

/-- So does a chain of changes. -/
theorem sound_of_changes {a a' : Accounts} (h : ReflTransGen Change a a') (hs : Sound a.1) :
    Sound a'.1 := by
  induction h with
  | refl => exact hs
  | tail _ hc ih => exact hc.sound ih

/-! ## Calls -/

/-- A program that takes the accounts through changes, also where it raises an error. -/
def Changes (p : LuaM σ α) : Prop :=
  ∀ s : State σ, Sound s.pool → Prog.wp p (fun _ s' => ReflTransGen Change s.accounts s'.accounts)
    (OnError fun s' => ReflTransGen Change s.accounts s'.accounts) s

/-- `suspend` changes nothing by itself. -/
theorem wp_suspend {Q : Result → State σ → Prop} {P : State σ → Prop} {x : Entry} {q : Point}
    (hQ : ∀ r, Q r s) (hP : P s) : Prog.wp (suspend x q) Q (OnError P) s := by
  rw [suspend, Prog.wp_bind, Prog.wp_read, Prog.wp_bind]
  by_cases hco : x.co = s.running
  · rw [Prog.wp_check hco, Prog.wp_bind]
    by_cases hmain : s.running ≠ 0
    · rw [Prog.wp_check hmain]
      exact hQ _
    · exact (wp_check_not hmain).mpr fun _ => hP
  · exact (wp_check_not hco).mpr fun _ => hP

namespace Changes

variable {p : LuaM σ α} {f : α → LuaM σ β}

protected theorem pure (v : α) : Changes (σ := σ) (Pure.pure v) := fun _ _ => .refl

protected theorem bind (hp : Changes p) (hf : ∀ v, Changes (f v)) : Changes (p >>= f) := by
  intro s hs
  have hp := hp s hs
  rw [Prog.wp_bind]
  unfold Prog.wp at hp ⊢
  rcases hr : p s with ⟨e | v, s₁⟩ <;> rw [hr] at hp
  · exact hp
  have hf := hf v s₁ (sound_of_changes hp hs)
  show Prog.wp (f v) _ _ s₁
  unfold Prog.wp at hf ⊢
  rcases hr' : f v s₁ with ⟨e | w, s₂⟩ <;> rw [hr'] at hf
  · exact fun he => hp.trans (hf he)
  · exact hp.trans hf

protected theorem map (hp : Changes p) (g : α → β) : Changes (g <$> p) :=
  .bind hp fun _ => .pure _

/-- A call of the net. -/
protected theorem net (p : NetM σ α) : Changes (net p) := fun _ _ => wp_net_any fun _ _ => .refl

protected theorem lasterrno : Changes (σ := σ) lasterrno := fun _ _ => .refl

protected theorem check (c : Prop) [Decidable c] (e : Fault) :
    Changes (σ := σ) (Prog.check c e) := by
  intro s _
  by_cases hc : c
  · exact (Prog.wp_check hc).mpr .refl
  · exact (wp_check_not hc).mpr fun _ => .refl

/-- An entry that must be there. -/
protected theorem entry (id : ℤ) : Changes (σ := σ) (entry (.id id)) := by
  intro s _
  rcases hx : s.pool (.id id) with _ | x
  · exact (wp_entry_none hx).mpr fun _ => .refl
  · exact (wp_entry hx).mpr .refl

/-- Fields of an entry are written. -/
theorem setEntry {id : ℤ} {g : Entry → Entry}
    (h : ∀ pool log x, pool (.id id) = some x →
      Change (pool, log) (Function.update pool (.id id) (some (g x)), log)) :
    Changes (σ := σ) (setEntry (.id id) g) := by
  intro s _
  rcases hx : s.pool (.id id) with _ | x
  · rw [Lua.setEntry, Prog.wp_write, hx]
    show ReflTransGen Change s.accounts (Function.update s.pool (.id id) none, s.log)
    rw [← hx, Function.update_eq_self]
    exact .refl
  · exact (wp_setEntry g hx).mpr (.single (h s.pool s.log x hx))

/-- `disconnect` removes the entry, or raises an error on an entry that is not there. -/
theorem disconnect (id : ℤ) (force : Bool) : Changes (disconnect B (.id id) force) := by
  intro s hs
  rcases hx : s.pool (.id id) with _ | x
  · exact wp_disconnect_none hx .refl
  · exact wp_disconnect hx (hs.id_eq hx) fun w => .single (.removed hx)

theorem start (id : ℤ) (callback : Bool) : Changes (σ := σ) (start id callback) := by
  intro s _
  rw [Lua.start, Prog.wp_bind, Prog.wp_read, Prog.wp_bind, wp_lookup]
  rcases hx : s.pool (.id id) with _ | x
  · exact .single (.started id s.running callback hx)
  · rw [wp_setEntry _ hx]
    exact .single (.tuned s.running x.mode hx)

theorem listen : Changes (listen B) := by
  refine .bind (.net _) fun id => ?_
  split
  · exact .pure _
  · exact .bind .lasterrno fun _ => .pure _

theorem connect : Changes (connect B) := by
  refine .bind (.net _) fun id => .bind .lasterrno fun err => ?_
  split
  · refine .bind (.start id false) fun _ => ?_
    split
    · exact .bind (.entry id) fun x _ _ => wp_suspend (fun _ => .refl) .refl
    · exact .pure _
  · exact .pure _

theorem bindCo (id : ℤ) (co : ℕ) : Changes (σ := σ) (Lua.bind id co) :=
  .bind (.entry id) fun _ => .setEntry fun _ _ x hx => .tuned co x.mode hx

/-- `socket.readenable` makes the buffer of an entry that has none. -/
theorem readenable (id : ℤ) (enable : Bool) : Changes (readenable B id enable) := by
  refine .bind (.entry id) fun _ => .bind (.bind (.net _) fun _ => .pure _) fun _ => ?_
  intro s _
  rw [Prog.wp_bind]
  rcases hx : s.pool (.id id) with _ | x
  · exact (wp_entry_none hx).mpr fun _ => .refl
  rw [wp_entry hx]
  split
  · next h =>
    rw [wp_setEntry _ hx]
    exact .single (.enabled hx (Option.isNone_iff_eq_none.mp h.2))
  · exact .refl

/-- What `socket.read` pops it returns. -/
theorem readPop (id : ℤ) (x : Entry) : Changes (σ := σ) (do
    match ← pop id with
    | .nil => suspend x (.reading id)
    | .string bytes => do
      note (.returned id bytes)
      pure (.values [.data (.string bytes)])
    | v => pure (.values [.data v])) := by
  intro s hs
  rw [Prog.wp_bind]
  rcases hy : s.pool (.id id) with _ | y
  · rw [pop, Prog.wp_bind, wp_entry_none hy]
    exact fun _ => .refl
  rcases hb : y.buffer with _ | b
  · exact wp_pop_none hy hb .refl
  have hwait (b' : Buffer.Buf) (hinv' : Buffer.Inv b') (hcont : Buffer.content b' = Buffer.content b) :
      Change s.accounts (s.setBuffer id y b').accounts := .waited hy hb hinv' hcont
  refine wp_pop hy hb ((hs _ y hy).2 b hb) (fun b' hinv' hcont _ => ?_)
    (fun bytes cut b' hinv' hcont hcut _ => ?_) fun b' hinv' hcont _ => .single (hwait b' hinv' hcont)
  · have hw := hwait b' hinv' hcont
    exact wp_suspend (fun _ => .single hw) (.single hw)
  · exact .single (.returned hy hb hinv' hcont hcut)

theorem read (id : ℤ) (mode : Buffer.PopArg) : Changes (σ := σ) (read id mode) :=
  .bind (.entry id) fun x => .bind (.check _ _) fun _ =>
    .bind (.setEntry fun _ _ x hx => .tuned x.co mode hx) fun _ => .readPop id x

theorem lsend (id : ℤ) (m : Message) (junk : ℤ) : Changes (lsend B id m junk) := by
  have hsend (id' : ℤ) (data : Block) (sz : ℤ) : Changes (psocketSend B id' data sz junk) := by
    refine .bind (.net _) fun n => ?_
    split <;> exact .pure _
  rcases m with ⟨data, sz⟩ | ⟨bytes, i, j, token⟩
  · exact .bind (hsend _ _ _) fun _ => .pure _
  · rw [Lua.lsend]
    split
    · exact .pure _
    · exact .bind (hsend _ _ _) fun _ => .pure _

/-- `socket.send` disconnects if the data is not sent. -/
theorem send (id : ℤ) (m : Message) (junk : ℤ) : Changes (send B id m junk) := by
  refine .bind (.lsend id m junk) fun r => ?_
  cases r with
  | nil => exact .pure _
  | nothing => exact .pure _
  | failed err => exact .bind (.disconnect id true) fun _ => .pure _

/-- Every call of the library. -/
theorem call (c : Call) : Changes (c.run B) := by
  cases c with
  | listen => exact .listen
  | connect => exact .connect
  | start id callback => exact .map (.start id callback) _
  | bind id co => exact .map (.bindCo id co) _
  | shutdown id => exact .map (.disconnect id false) _
  | close id => exact .map (.disconnect id true) _
  | readenable id enable => exact .map (.readenable id enable) _
  | read id mode => exact .read id mode
  | send id m junk => exact .send id m junk

end Changes

/-! ## Steps and runs -/

/-- How a dispatch ends can be told from where the coroutines are. -/
theorem Ending.perform_fst (r : Ending) (s : State σ) : (r.perform s).1 = r.verdict s.point := by
  rcases r with _ | ⟨k, args⟩ | id
  · rfl
  · rw [perform, verdict, woken]
    cases s.point k <;> rfl
  · rfl

/-- Who goes on after a dispatch does not show in the accounts. -/
theorem Ending.perform_snd (r : Ending) (s : State σ) :
    (r.perform s).2.accounts = s.accounts ∧ (r.perform s).2.heard = s.heard := by
  rcases r with _ | ⟨k, args⟩ | id
  · exact ⟨rfl, rfl⟩
  · rw [perform]
    cases s.point k <;> exact ⟨rfl, rfl⟩
  · exact ⟨rfl, rfl⟩

/-- Every dispatch ends in one of the ways, with the notes it makes. -/
theorem dispatch_handles {a : ℕ} {e : SocketEvent} {v : Verdict} (h : dispatch B a e s = some (v, s'))
    (hs : Sound s.pool) (hw : Ints s.world)
    (ha : ∀ k x b, s.pool k = some x → x.buffer = some b → b.mem.cell a = none) :
    ∃ notes, Handles s.pool s.point e s'.heard v s'.pool notes ∧ s'.log = notes ++ s.log := by
  have hended := handler_ended (B := B) (s := { s with heard := none }) (e := e) hs hw rfl ha
  unfold Prog.wp at hended
  unfold dispatch at h
  rcases hr : handler B a e { s with heard := none } with ⟨f | r, s₁⟩ <;> rw [hr] at hended h
  · cases f with
    | error =>
      obtain ⟨rfl, rfl⟩ := Prod.mk.inj (Option.some.inj h)
      exact (hended rfl).2
    | _ => cases h
  · obtain ⟨hpoint, notes, hh, hlog⟩ := hended
    have hperform : r.perform s₁ = (v, s') := Option.some.inj h
    -- performing the verdict resumes a coroutine, and touches neither the pool nor the log
    obtain ⟨hacc, hheard⟩ := r.perform_snd s₁
    have hv := r.perform_fst s₁
    rw [hperform] at hacc hheard hv
    obtain ⟨hpool, hlog'⟩ := Prod.mk.inj hacc
    refine ⟨notes, ?_, hlog'.trans hlog⟩
    rw [show s'.heard = s₁.heard from hheard, show s'.pool = s₁.pool from hpool,
      show v = r.verdict s₁.point from hv, hpoint]
    exact hh

/-- A step takes the accounts through changes. -/
theorem step_changes {l : Step} (hs : Sound s.pool) (h : (script B).step s l s') :
    ReflTransGen Change s.accounts s'.accounts := by
  have hbeside {s₁ s₂ : State σ} (hb : s₁.Beside s₂) : s₂.accounts = s₁.accounts :=
    Prod.ext hb.pool hb.log
  obtain ⟨hal, hrun⟩ := h
  cases Step.outcome_of_run hrun with
  | @called c rs r s₁ _ h hb =>
    have hc := Prog.wp_ok (Changes.call c (s.answer rs) hs) h
    rw [hbeside hb]
    exact hc
  | @raised c rs _ h =>
    have hc := Prog.wp_error (Changes.call c (s.answer rs) hs) h
    exact hc rfl
  | moved hb => rw [hbeside hb]
  | polled => exact .refl
  | @dispatched a rs e rest v s₁ h =>
    obtain ⟨notes, hh, hlog⟩ := dispatch_handles h hs hal.1 hal.2
    have hchange : Change s.accounts (s₁.pool, .turn (turn s e v s₁) :: (notes ++ s.log)) :=
      .turned (turn s e v s₁) hh
    rw [← show s₁.log = notes ++ s.log from hlog] at hchange
    exact .single hchange

/-- Every run takes the accounts through changes, from none. -/
theorem accounts_of_reach (h : (script B).Reach s) :
    ReflTransGen Change (fun _ => none, []) s.accounts := by
  induction h with
  | init h =>
    obtain ⟨max, junk, rfl⟩ := h
    exact .refl
  | step _ hstep ih => exact ih.trans (step_changes (sound_of_changes ih .empty) hstep)

/-- What the first accounts meet and every change keeps, the accounts of every run meet. -/
theorem accounts_invariant {I : Accounts → Prop} (h : (script B).Reach s)
    (hfirst : I (fun _ => none, [])) (hchange : ∀ a a', Change a a' → I a → I a') : I s.accounts := by
  have hrun := accounts_of_reach h
  generalize s.accounts = a at hrun ⊢
  induction hrun with
  | refl => exact hfirst
  | tail _ hc ih => exact hchange _ _ hc ih

/-- In every run, each entry stands under its own id, and its buffer is in order. -/
theorem sound_of_reach (h : (script B).Reach s) : Sound s.pool :=
  sound_of_changes (accounts_of_reach h) .empty

/-- A dispatch records at most what it popped. -/
theorem Handles.not_turn {pool pool' : Key → Option Entry} {point : ℕ → Option Point} {e : SocketEvent}
    {heard : Option Heard} {v : Verdict} {notes : List Note}
    (h : Handles pool point e heard v pool' notes) (t : Turn) : .turn t ∉ notes := by
  cases h <;> simp

/-- Every dispatch in a run ended in one of the ways of `Handles`. -/
theorem handles_of_reach {t : Turn} (h : (script B).Reach s) (ht : .turn t ∈ s.log) :
    ∃ notes, Handles t.pool t.point t.event t.heard t.verdict t.pool' notes := by
  have hinv := accounts_invariant (I := fun a => ∀ t, .turn t ∈ a.2 →
    ∃ notes, Handles t.pool t.point t.event t.heard t.verdict t.pool' notes) h
    fun _ ht => absurd ht List.not_mem_nil
  refine hinv (fun a a' hc ih t ht => ?_) t ht
  cases hc with
  | started => exact ih t (by simpa using ht)
  | returned => exact ih t (by simpa using ht)
  | turned u hu =>
    rcases List.mem_cons.mp ht with heq | ht
    · obtain rfl := Note.turn.inj heq
      exact ⟨_, hu⟩
    · exact ih t ((List.mem_append.mp ht).resolve_left (hu.not_turn t))
  | _ => exact ih t ht

/-- Every entry has been started. -/
def Logged (pool : Key → Option Entry) (log : List Note) : Prop :=
  ∀ k x, pool k = some x → ∃ id, k = .id id ∧ .started id ∈ log

/-- An empty pool has nothing to show. -/
theorem Logged.empty (log : List Note) : Logged (fun _ => none) log :=
  fun _ _ h => absurd h.symm (Option.some_ne_none _)

/-- More notes take nothing back. -/
theorem Logged.append {pool : Key → Option Entry} {log : List Note} (h : Logged pool log)
    (notes : List Note) : Logged pool (notes ++ log) := fun k x hx =>
  (h k x hx).imp fun _ hid => ⟨hid.1, List.mem_append_right _ hid.2⟩

/-- An entry that is there is written or removed. -/
theorem Logged.update {pool : Key → Option Entry} {log : List Note} {k : Key} {x : Entry}
    (h : Logged pool log) (hx : pool k = some x) (o : Option Entry) :
    Logged (Function.update pool k o) log := by
  intro k' y hy
  by_cases hk : k' = k
  · exact hk ▸ h k x hx
  · rw [Function.update_of_ne hk] at hy
    exact h k' y hy

/-- A dispatch makes no entry without a note. -/
theorem Handles.logged {pool pool' : Key → Option Entry} {point : ℕ → Option Point} {e : SocketEvent}
    {heard : Option Heard} {v : Verdict} {notes log : List Note}
    (h : Handles pool point e heard v pool' notes) (hl : Logged pool log) : Logged pool' log := by
  cases h with
  | failed _ hx | refused _ hx => exact hl.update hx _
  | kept _ hx => exact hl.update hx _
  | popped _ hx => exact hl.update hx _
  | rejected _ hx => exact hl.update hx _
  | _ => exact hl

/-- Nor does any change. -/
theorem Change.logged {a a' : Accounts} (h : Change a a') (hl : Logged a.1 a.2) :
    Logged a'.1 a'.2 := by
  cases h with
  | started id co callback =>
    intro k x hx
    by_cases hk : k = .id id
    · exact ⟨id, hk, List.mem_cons_self⟩
    · exact hl.append [_] k x ((Function.update_of_ne hk ..).symm.trans hx)
  | tuned _ _ hx => exact hl.update hx _
  | enabled hx => exact hl.update hx _
  | removed hx => exact hl.update hx _
  | waited hx => exact hl.update hx _
  | returned hx => exact (hl.update hx _).append [_, _]
  | @turned _ notes t ht => exact (ht.logged hl).append (.turn t :: notes)

/-- In every run, every entry has been started. -/
theorem logged_of_reach (h : (script B).Reach s) : Logged s.pool s.log :=
  accounts_invariant (I := fun a => Logged a.1 a.2) h (.empty []) fun _ _ hc => hc.logged

/-! ## Runs on given answers -/

/-- Whether the outside keeps its side, as far as the entries go that the log knows of. -/
def Step.fits (s : State σ) : Step → Bool
  | .call _ rs | .poll _ rs => rs.all fun r => r.ret ≤ INT_MAX
  | .dispatch a rs => (rs.all fun r => r.ret ≤ INT_MAX) && s.log.all fun
    | .started id => (((s.pool (.id id)).bind Entry.buffer).bind fun b => b.mem.cell a).isNone
    | _ => true
  | _ => true

/-- What can be checked of the outside on the entries that the log knows of is all of it. -/
theorem Step.allowed_of_fits {l : Step} (h : (script B).Reach s) (hf : l.fits s = true) :
    l.Allowed s := by
  cases l with
  | call c rs => simpa [fits, Allowed] using hf
  | poll timeout rs => simpa [fits, Allowed] using hf
  | dispatch a rs =>
    simp only [fits, Bool.and_eq_true, List.all_eq_true, decide_eq_true_eq] at hf
    refine ⟨hf.1, fun k x b hx hb => ?_⟩
    obtain ⟨id, rfl, hlog⟩ := logged_of_reach h k x hx
    simpa [hx, hb] using hf.2 _ hlog
  | _ => trivial

/-- The steps one after the other, as long as they can be taken. -/
def exec (B : Backend σ) : List Step → State σ → Option (State σ)
  | [], s => some s
  | l :: ls, s => if l.fits s then (l.run B s).bind (exec B ls) else none

/-- Steps with a property are a run of steps with that property. -/
theorem reach_exec {P : Step → Prop} {ls : List Step}
    (h : ((script B).restrict fun _ l _ => P l).Reach s) (hp : ∀ l ∈ ls, P l)
    (he : exec B ls s = some s') : ((script B).restrict fun _ l _ => P l).Reach s' := by
  induction ls generalizing s with
  | nil => exact Option.some.inj he ▸ h
  | cons l ls ih =>
    obtain ⟨hl, hp⟩ := List.forall_mem_cons.mp hp
    unfold exec at he
    split at he
    · next hf =>
      obtain ⟨s₁, hr, he⟩ := Option.bind_eq_some_iff.mp he
      exact ih (.step h ⟨⟨Step.allowed_of_fits h.of_restrict hf, hr⟩, hl⟩) hp he
    · cases he

/-- The state after steps on a new net for `max` sockets. -/
def after (B : Backend σ) (max : ℤ) (ls : List Step) : State σ :=
  (exec B ls (.initial B max zeroed)).getD (.initial B max zeroed)

/-- Where a run on given answers ends is reached. -/
theorem reach_after {max : ℤ} {ls : List Step}
    (he : (exec B ls (.initial B max zeroed)).isSome) : (script B).Reach (after B max ls) := by
  obtain ⟨s', hs'⟩ := Option.isSome_iff_exists.mp he
  rw [after, hs']
  exact (reach_exec (P := fun _ => True) (.init ⟨max, zeroed, rfl⟩) (fun _ _ => trivial) hs').of_restrict

/-- A dispatch with a property. -/
def Note.turns (P : Turn → Bool) : Note → Bool
  | .turn t => P t
  | _ => false

/-- A dispatch with the property is found in the log. -/
theorem exists_turn {P : Turn → Bool} (h : s.log.any (Note.turns P) = true) :
    ∃ t, .turn t ∈ s.log ∧ P t = true := by
  obtain ⟨n, hn, hP⟩ := List.any_eq_true.mp h
  cases n with
  | turn t => exact ⟨t, hn, hP⟩
  | _ => cases hP

end Lsocket.Lua
