import Lsocket.Lua.Called
import Lsocket.Lua.Worlds
import Lsocket.Net.Passage

/-!
# What Lua code does to the net and to its entries

A program of the library takes the net below through the changes of the calls that it makes, and removes
the entry of a socket only together with its connection (`Moved`). So the world below a run represents a
net that chains of changes reach (`reached_of_script`). Only the handler of `LS_EREAD` reads, and what it
reads is what it has heard (`dispatch_got`).
-/

namespace Lsocket.Lua

open CInt

variable {σ α β : Type} {B : Backend σ} {s s' s'' : State σ} {w w' : World σ} {O : Op → Prop}

/-- What holds after a program, also where it raises an error. -/
theorem wp_anyhow {p : LuaM σ α} {P P' : State σ → Prop}
    (h : Prog.wp p (fun _ s' => P s') (OnError P) s) (hP : ∀ s', P s' → P' s') :
    Prog.wp p (fun _ s' => P' s') (OnError P') s := by
  unfold Prog.wp at h ⊢
  rcases hr : p s with ⟨e | v, s'⟩ <;> rw [hr] at h
  · exact fun he => hP s' (h he)
  · exact hP s' h

/-! ## Calls of the net -/

/-- The calls of the net that a call of the library can make. -/
inductive Call.Makes : Call → Op → Prop
  | listen : Makes .listen (.listen 0)
  | connect : Makes .connect (.connect false 0)
  | shutdown {id : ℤ} : Makes (.shutdown id) (.close (wrap id) false)
  | close {id : ℤ} : Makes (.close id) (.close (wrap id) true)
  | readenable {id : ℤ} {enable : Bool} : Makes (.readenable id enable) (.enableread (wrap id) enable)
  | send {id junk sz : ℤ} {m : Message} {data : Block} :
    Makes (.send id m junk) (.send (wrap id) data sz)
  /-- A send that fails closes the socket. -/
  | unsent {id junk : ℤ} {m : Message} : Makes (.send id m junk) (.close (wrap id) true)

/-- Those that the handler of an event can make. -/
inductive HandlerMakes (e : SocketEvent) : Op → Prop
  | read (he : e.type = .read) : HandlerMakes e (.read (wrap e.id))
  | close (he : e.type = .read ∨ e.type = .connerr) : HandlerMakes e (.close (wrap e.id) true)

/-- Those that a step can make. -/
inductive Step.Makes (s : State σ) : Step → Op → Prop
  | called {c : Call} {rs : List Reply} {op : Op} (h : c.Makes op) : Makes s (.call c rs) op
  | polled {timeout : ℤ} {rs : List Reply} : Makes s (.poll timeout rs) (.poll timeout)
  | dispatched {a : ℕ} {rs : List Reply} {e : SocketEvent} {rest : List SocketEvent} {op : Op}
    (hp : s.pending = e :: rest) (h : HandlerMakes e op) : Makes s (.dispatch a rs) op

/-- Only the dispatch of a read event reads. -/
theorem HandlerMakes.of_read {e : SocketEvent} {i : ℕ} (h : HandlerMakes e (.read i)) :
    e.type = .read ∧ wrap e.id = i := by
  generalize hop : Op.read i = op at h
  cases h with
  | read he => exact ⟨he, (Op.read.inj hop).symm⟩
  | close => cases hop

/-- Only a dispatch reads from the net. -/
theorem Step.Makes.not_read {l : Step} {op : Op} (h : l.Makes s op) (hl : ∀ a rs, l ≠ .dispatch a rs)
    (i : ℤ) : op ≠ .read i := by
  rintro rfl
  cases h with
  | called h => cases h
  | dispatched => exact hl _ _ rfl

/-! ## Moves -/

/-- The socket has an entry with a buffer. -/
def Buffered (pool : Key → Option Entry) (j : ℕ) : Prop :=
  ∃ x, pool (.id j) = some x ∧ x.buffer.isSome = true

/-- The net went through changes of calls in `O`, and a socket that had an entry with a buffer has one, or
its connection no longer attends. -/
structure Kept (B : Backend σ) (O : Op → Prop) (s s' : State σ) : Prop where
  reached : Reached B s'.world
  passage : Passage B O s.world.abs s'.world.abs
  entry : ∀ j g, s.world.net.max ≤ INT_MAX → s.world.abs.Tcp j g → s'.world.abs.Attends j g →
    Buffered s.pool j → Buffered s'.pool j

namespace Kept

protected theorem trans (hs : Reached B s.world) (h : Kept B O s s') (h' : Kept B O s' s'') :
    Kept B O s s'' where
  reached := h'.reached
  passage := h.passage.trans h'.passage
  entry j g hmax ht hatt hb := by
    have ht' := h.passage.tcp hs.2 ht
    have hmax' : s'.world.net.max ≤ INT_MAX := by
      rw [show s'.world.net.max = s.world.net.max from h.passage.max_eq]
      exact hmax
    have hatt' := h'.passage.attends h.reached.2 ht'.1 hatt
    exact h'.entry j g hmax' ht' hatt (h.entry j g hmax ht hatt' hb)

/-- Of a state, only the net and the entries count. -/
theorem congr {s₁ : State σ} (h : Kept B O s s₁) (hw : s'.world = s₁.world) (hp : s'.pool = s₁.pool) :
    Kept B O s s' :=
  ⟨hw ▸ h.reached, hw ▸ h.passage, fun j g => hw ▸ hp ▸ h.entry j g⟩

end Kept

/-- What a program of the library does: beside, it dispatches no event, and hears nothing without a
read. -/
structure Moved (B : Backend σ) (O : Op → Prop) (s s' : State σ) : Prop extends Kept B O s s' where
  pending : s'.pending = s.pending
  heard : (∀ i, ¬ O (.read i)) → s'.heard = s.heard

namespace Moved

/-- The net is as before. -/
theorem beside (hs : Reached B s.world) (hw : s'.world = s.world)
    (hp : ∀ j, Buffered s.pool j → Buffered s'.pool j)
    (hh : s'.pending = s.pending ∧ s'.heard = s.heard) : Moved B O s s' where
  reached := hw ▸ hs
  passage := hw ▸ .refl _
  entry j _ _ _ _ := hp j
  pending := hh.1
  heard _ := hh.2

protected theorem refl (hs : Reached B s.world) : Moved B O s s := beside hs rfl (fun _ h => h) ⟨rfl, rfl⟩

protected theorem trans (hs : Reached B s.world) (h : Moved B O s s') (h' : Moved B O s' s'') :
    Moved B O s s'' where
  toKept := h.toKept.trans hs h'.toKept
  pending := h'.pending.trans h.pending
  heard hO := (h'.heard hO).trans (h.heard hO)

end Moved

/-- A program that does this, also where it raises an error. -/
def Moves (B : Backend σ) (O : Op → Prop) (p : LuaM σ α) : Prop :=
  ∀ s : State σ, Reached B s.world →
    Prog.wp p (fun _ s' => Moved B O s s') (OnError fun s' => Moved B O s s') s

/-- A call of the net that returns. -/
theorem Reached.passage {v : ℤ} (h : Reached B w) (op : Op) (hop : op.Allowed w.net.max)
    (hrun : op.call B w = (.ok v, w')) (hO : O op) :
    Reached B w' ∧ Passage B O w.abs w'.abs := by
  obtain ⟨a', ⟨hinv, rfl⟩, hch⟩ := (does_call_changes op (h.1.max_eq ▸ hop)).ok h.1 hrun
  exact ⟨⟨⟨hinv, rfl⟩, hch.reach h.2⟩, .of_changes hch hO⟩

/-- After `socket_close` the connection no longer attends. -/
theorem Reached.shut {id : ℤ} {force : Bool} {v : ℤ} {j g : ℕ} (h : Reached B w)
    (hrun : socketClose B (wrap id) force w = (.ok v, w')) (hid : wrap id = j)
    (ht : w'.abs.Tcp j g) : ¬ w'.abs.Attends j g := by
  have hwithin : Within w.abs.max (wrap id) := h.1.max_eq ▸ within_of_ok hrun
  obtain ⟨a', ⟨-, rfl⟩, hshut⟩ := (does_socketClose_shut (B := B) force hwithin).ok h.1 hrun
  rw [hid] at hshut
  rintro ⟨hg, c, hc, hatt⟩
  exact hatt ⟨ht.2 c hc hg, hshut c hc⟩

namespace Moves

variable {p q : LuaM σ α} {f : α → LuaM σ β}

protected theorem pure (v : α) : Moves B O (Pure.pure v : LuaM σ α) := fun _ hs => .refl hs

protected theorem bind (hp : Moves B O p) (hf : ∀ v, Moves B O (f v)) : Moves B O (p >>= f) := by
  intro s hs
  have hp := hp s hs
  rw [Prog.wp_bind]
  unfold Prog.wp at hp ⊢
  rcases hr : p s with ⟨e | v, s₁⟩ <;> rw [hr] at hp
  · exact hp
  have hf := hf v s₁ hp.reached
  show Prog.wp (f v) _ _ s₁
  unfold Prog.wp at hf ⊢
  rcases hr' : f v s₁ with ⟨e | u, s₂⟩ <;> rw [hr'] at hf
  · exact fun he => hp.trans hs (hf he)
  · exact hp.trans hs hf

protected theorem map (hp : Moves B O p) (g : α → β) : Moves B O (g <$> p) :=
  .bind hp fun _ => .pure _

protected theorem ite {c : Prop} [Decidable c] (hp : Moves B O p) (hq : Moves B O q) :
    Moves B O (if c then p else q) := by
  split
  · exact hp
  · exact hq

protected theorem fault (e : Fault) : Moves B O (Prog.fault e : LuaM σ α) := fun _ hs _ => .refl hs

protected theorem check (c : Prop) [Decidable c] (e : Fault) : Moves (σ := σ) B O (Prog.check c e) :=
  .ite (.pure ()) (.fault e)

protected theorem demand (o : Option α) (e : Fault) : Moves (σ := σ) B O (Prog.demand o e) := by
  cases o with
  | none => exact .fault e
  | some v => exact .pure v

protected theorem read (g : State σ → α) : Moves B O (Prog.read g) := fun _ hs => .refl hs

/-- A change of the Lua state that takes no entry away. -/
protected theorem write (g : State σ → State σ) (hw : ∀ s, (g s).world = s.world)
    (hp : ∀ s j, Buffered s.pool j → Buffered (g s).pool j)
    (hh : ∀ s, (g s).pending = s.pending ∧ (g s).heard = s.heard) : Moves B O (Prog.write g) := by
  intro s hs
  rw [Prog.wp_write]
  exact .beside hs (hw s) (hp s) (hh s)

protected theorem note (n : Note) : Moves (σ := σ) B O (note n) :=
  .write _ (fun _ => rfl) (fun _ _ h => h) fun _ => ⟨rfl, rfl⟩

protected theorem entry (k : Key) : Moves (σ := σ) B O (entry k) :=
  .bind (.read _) fun _ => .demand _ _

protected theorem setEntry (k : Key) (g : Entry → Entry)
    (hg : ∀ x, x.buffer.isSome = true → (g x).buffer.isSome = true) :
    Moves (σ := σ) B O (setEntry k g) := by
  refine .write _ (fun _ => rfl) (fun s j hj => ?_) fun _ => ⟨rfl, rfl⟩
  obtain ⟨x, hx, hb⟩ := hj
  by_cases hk : k = .id j
  · refine ⟨g x, ?_, hg x hb⟩
    show Function.update s.pool k ((s.pool k).map g) (.id j) = some (g x)
    rw [hk, Function.update_self, hx]
    rfl
  · exact ⟨x, (Function.update_of_ne (Ne.symm hk) ..).trans hx, hb⟩

protected theorem onBuffer (id : ℤ) (op : Entry → Buffer.Op) : Moves (σ := σ) B O (onBuffer id op) := by
  refine .bind (.entry _) fun x => .bind (.demand _ _) fun b => ?_
  dsimp only
  split
  · exact .bind (.setEntry _ _ fun _ _ => rfl) fun _ => .pure _
  · exact .bind (.setEntry _ _ fun _ _ => rfl) fun _ => .fault _
  · exact .fault _

protected theorem pop (id : ℤ) : Moves (σ := σ) B O (pop id) := by
  refine .bind (.entry _) fun x => .bind (.onBuffer _ _) fun v => .bind (.entry _) fun x' => ?_
  split
  · exact .bind (.note _) fun _ => .pure _
  · exact .pure _

/-- A call of the net. -/
protected theorem net {p : NetM σ α} (h : ∀ w v w', Reached B w → p w = (.ok v, w') →
    Reached B w' ∧ Passage B O w.abs w'.abs) : Moves B O (net p) := by
  intro s hs
  unfold Prog.wp Lua.net
  rcases hr : p s.world with ⟨e | v, w⟩
  · exact nofun
  · obtain ⟨hw, hpass⟩ := h _ v w hs hr
    exact ⟨⟨hw, hpass, fun _ _ _ _ _ hb => hb⟩, rfl, fun _ => rfl⟩

protected theorem suspend (x : Entry) (p : Point) : Moves (σ := σ) B O (suspend x p) :=
  .bind (.read _) fun _ => .bind (.check _ _) fun _ => .bind (.check _ _) fun _ => .pure _

protected theorem lasterrno : Moves (σ := σ) B O lasterrno := .read _

protected theorem start (id : ℤ) (callback : Bool) : Moves (σ := σ) B O (start id callback) := by
  refine .bind (.read _) fun me s hs => ?_
  rw [Prog.wp_bind, wp_lookup]
  rcases hx : s.pool (.id id) with _ | x
  · refine Moved.beside hs rfl (fun j ⟨y, hy, hb⟩ => ⟨y, ?_, hb⟩) ⟨rfl, rfl⟩
    refine (Function.update_of_ne (fun hk => ?_) ..).trans hy
    obtain rfl := Key.id.inj hk
    cases hx.symm.trans hy
  · exact Moves.setEntry (.id id) (fun x => { x with co := me }) (fun _ h => h) s hs

protected theorem readMode (id : ℤ) (mode : Buffer.PopArg) : Moves (σ := σ) B O (read id mode) := by
  refine .bind (.entry _) fun x => .bind (.check _ _) fun _ =>
    .bind (.setEntry _ (fun x => { x with mode }) fun _ h => h) fun _ => .bind (.pop id) fun v => ?_
  split
  · exact .suspend _ _
  · exact .bind (.note _) fun _ => .pure _
  · exact .pure _

protected theorem lread (id : ℤ) (hread : O (.read (wrap id))) : Moves B O (lread B id) := by
  refine .bind (.net fun w v w' hw hr => ?_) fun r => .bind .lasterrno fun err s hs => ?_
  · exact hw.passage (.read (wrap id)) (within_of_ok hr) (Prog.map_of_ok _ hr) hread
  · exact ⟨⟨hs, .refl _, fun _ _ _ _ _ hb => hb⟩, rfl, fun hno => absurd hread (hno _)⟩

/-! The functions that call the net, and the handlers. -/

/-- The entry goes with the connection. -/
protected theorem disconnect (k : Key) (force : Bool) (hO : ∀ id, k = .id id → O (.close (wrap id) force)) :
    Moves B O (disconnect B k force) := by
  refine .bind (.entry k) fun x => .bind (.check _ _) fun _ => ?_
  rcases k with id | _
  swap
  · intro s hs he
    exact .refl hs
  intro s hs
  rw [lclose, Prog.wp_bind, Prog.wp_bind]
  unfold Prog.wp Lua.net
  rcases hr : socketClose B (wrap id) force s.world with ⟨e | v, w⟩
  · intro h
    cases h
  obtain ⟨hw, hpass⟩ := hs.passage (.close (wrap id) force) (within_of_ok hr) hr (hO id rfl)
  refine ⟨⟨hw, hpass, fun j g hmax ht hatt hb => ?_⟩, rfl, fun _ => rfl⟩
  obtain ⟨y, hy, hb⟩ := hb
  refine ⟨y, ?_, hb⟩
  -- the entry removed is not one whose connection still attends: closing it has ended that
  refine (Function.update_of_ne (fun hk => ?_) ..).trans hy
  obtain rfl := Key.id.inj hk
  have hj : (j : ℤ) ≤ INT_MAX := by
    obtain ⟨-, c, hc, -⟩ := hatt
    have hlt : j < w.net.max := hw.1.lt_max hc
    have hsame : w.net.max = s.world.net.max := hpass.max_eq
    omega
  exact hs.shut hr (wrap_of_nonneg (Int.natCast_nonneg j) hj) (hpass.tcp hs.2 ht) hatt

/-- The entry of an id. -/
theorem disconnect_id (id : ℤ) (force : Bool) (hO : O (.close (wrap id) force)) :
    Moves B O (Lua.disconnect B (.id id) force) :=
  .disconnect _ _ fun _ h => Key.id.inj h ▸ hO

protected theorem lsend (id junk : ℤ) {m : Message} (hm : m.Proper)
    (hO : ∀ data sz, O (.send (wrap id) data sz)) : Moves B O (lsend B id m junk) := by
  rw [lsend_eq]
  rcases ho : m.outgoing with _ | ⟨data, sz⟩
  · exact .pure _
  · refine .bind (.bind (.net fun w v w' hw hr => ?_) fun n => ?_) fun _ => .pure _
    · obtain ⟨hpos, hid⟩ := sends_of_ok hr
      exact hw.passage (.send (wrap id) data sz) ⟨hid, hm.supplies ho hpos⟩ hr (hO data sz)
    · split <;> exact .pure _

protected theorem send (id junk : ℤ) {m : Message} (hm : m.Proper)
    (hO : ∀ op, (Call.send id m junk).Makes op → O op) : Moves B O (send B id m junk) := by
  refine .bind (.lsend id junk hm fun _ _ => hO _ .send) fun r => ?_
  cases r with
  | nil | nothing => exact .pure _
  | failed err => exact .bind (.disconnect_id id true (hO _ .unsent)) fun _ => .pure _

protected theorem listen (hO : O (.listen 0)) : Moves B O (listen B) := by
  refine .bind (.net fun w v w' hw hr => ?_) fun id => .ite (.pure _) <| .bind .lasterrno fun _ => .pure _
  exact hw.passage (.listen 0) trivial hr hO

protected theorem connect (hO : O (.connect false 0)) : Moves B O (connect B) := by
  refine .bind (.net fun w v w' hw hr => ?_) fun id => .bind .lasterrno fun err => .ite ?_ (.pure _)
  · exact hw.passage (.connect false 0) trivial hr hO
  · exact .bind (.start id false) fun _ => .ite (.bind (.entry _) fun x => .suspend x _) (.pure _)

protected theorem readenable (id : ℤ) (enable : Bool) (hO : O (.enableread (wrap id) enable)) :
    Moves B O (readenable B id enable) := by
  refine .bind (.entry _) fun _ => .bind (.bind (.net fun w v w' hw hr => ?_) fun _ => .pure _) fun _ =>
    .bind (.entry _) fun x => .ite (.setEntry _ _ fun _ _ => rfl) (.pure _)
  exact hw.passage (.enableread (wrap id) enable) (within_of_ok hr) hr hO

/-- Every call of the library. -/
theorem call {c : Call} (hc : c.Proper) (hO : ∀ op, c.Makes op → O op) : Moves B O (c.run B) := by
  cases c with
  | listen => exact .listen (hO _ .listen)
  | connect => exact .connect (hO _ .connect)
  | start id callback => exact .map (.start id callback) _
  | bind id co => exact .map (.bind (.entry _) fun _ => .setEntry _ (fun x => { x with co }) fun _ h => h) _
  | shutdown id => exact .map (.disconnect_id id false (hO _ .shutdown)) _
  | close id => exact .map (.disconnect_id id true (hO _ .close)) _
  | readenable id enable => exact .map (.readenable id enable (hO _ .readenable)) _
  | read id mode => exact .readMode id mode
  | send id m junk => exact .send id junk hc hO

/-- The handler of `LS_EREAD`, from where it has read. -/
theorem afterRead (id : ℤ) (a : ℕ) (x : Entry) (h : Heard)
    (hO : ∀ n, h = .failed n → O (.close (wrap id) true)) : Moves B O (match h with
    | .data block n => do
      let _ ← push id a block n
      let data ← pop id
      if data ≠ .nil then pure (.wakeup x.co [.data data]) else pure .done
    | .failed n => do
      disconnect B (.id id) true
      pure (.wakeup x.co [.nil, .text (socketError n)])
    | .nothing => pure Ending.done) := by
  cases h with
  | data block n => exact .bind (.onBuffer _ _) fun _ => .bind (.pop _) fun _ => .ite (.pure _) (.pure _)
  | failed n => exact .bind (.disconnect_id id true (hO n rfl)) fun _ => .pure _
  | nothing => exact .pure _

/-- The handler of `LS_EREAD`. -/
protected theorem eventRead (id : ℤ) (a : ℕ) (hread : O (.read (wrap id)))
    (hclose : O (.close (wrap id) true)) : Moves B O (eventRead B id a) := by
  refine .bind (.read _) fun o => ?_
  cases o with
  | none => exact .pure _
  | some x => exact .bind (.lread id hread) fun h => .afterRead id a x h fun _ _ => hclose

/-- The handlers. -/
protected theorem handler (a : ℕ) (e : SocketEvent) (hO : ∀ op, HandlerMakes e op → O op) :
    Moves B O (handler B a e) := by
  unfold handler
  split
  · next he => exact .eventRead e.id a (hO _ (.read he)) (hO _ (.close (.inl he)))
  · exact .bind (.entry _) fun _ => .bind (.check _ _) fun _ => .pure _
  · exact .bind (.entry _) fun _ => .bind (.check _ _) fun _ => .pure _
  · next he =>
    exact .bind (.entry _) fun _ => .bind (.check _ _) fun _ =>
      .bind (.disconnect_id _ _ (hO _ (.close (.inr he)))) fun _ => .pure _
  -- the handler of `LS_ESOCKERR` asks for the entry of `c`
  · exact .bind (.entry _) fun _ => .bind (.check _ _) fun _ => .bind (.disconnect _ _ nofun) fun _ => .pure _
  · exact .pure _

end Moves

/-! ## What is heard -/

/-- The bytes of what `c.read` returned. -/
def bytesOf : Option Heard → List UInt8
  | some (.data block _) => block
  | _ => []

/-- The rule for `lread`, by what it has read. -/
theorem wp_lread_got {Q : Heard → State σ → Prop} {P : State σ → Prop} {id : ℤ} {j : ℕ}
    (hid : wrap id = j) (hs : Reached B s.world)
    (hp : ∀ c, s.world.abs.slot j = some c → c.protocol = .tcp)
    (hQ : ∀ h w, Reached B w → got j w.log = got j s.world.log ++ bytesOf (some h) →
      Q h { s with world := w, heard := some h }) : Prog.wp (lread B id) Q (OnError P) s := by
  rw [lread, Prog.wp_bind]
  unfold Prog.wp Lua.net
  rcases hr : socketRead B (wrap id) s.world with ⟨e | r, w⟩
  · intro h
    cases h
  have hwithin : Within s.world.abs.max (wrap id) := hs.1.max_eq ▸ within_of_ok hr
  obtain ⟨_, ⟨-, rfl⟩, hhands⟩ := (does_socketRead_hands (B := B) hwithin).ok hs.1 hr
  rw [hid, Int.toNat_natCast] at hhands
  refine hQ _ w (hs.call (.read (wrap id)) (within_of_ok hr) (Prog.map_of_ok _ hr)) ?_
  have hgot : got j w.log = got j s.world.log ++ if j = j ∧ 0 < r.n then r.data else [] := hhands.got j
  -- on a TCP connection no descriptor stands in front of the bytes
  have hblock : r.block = r.data := by
    unfold ReadResult.block
    rw [hhands.plain hp]
  rw [hgot]
  by_cases hpos : 0 < r.n
  · rw [if_pos ⟨rfl, hpos⟩, if_pos hpos, bytesOf, hblock]
  · rw [if_neg fun h => hpos h.2, if_neg hpos]
    split <;> rfl

/-- The handler of `LS_EREAD` hears what is read from its slot. -/
theorem eventRead_got {id : ℤ} {a j : ℕ} (hid : wrap id = j) (hs : Reached B s.world)
    (hp : ∀ c, s.world.abs.slot j = some c → c.protocol = .tcp) (hh : s.heard = none) :
    Prog.wp (eventRead B id a) (fun _ s' => got j s'.world.log = got j s.world.log ++ bytesOf s'.heard)
      (OnError fun s' => got j s'.world.log = got j s.world.log ++ bytesOf s'.heard) s := by
  rw [eventRead, Prog.wp_bind, wp_lookup]
  rcases s.pool (.id id) with _ | x
  · show got j s.world.log = got j s.world.log ++ bytesOf s.heard
    rw [hh]
    exact (List.append_nil _).symm
  dsimp only
  rw [Prog.wp_bind]
  refine wp_lread_got hid hs hp fun h w hw hgot => ?_
  have hrest := Moves.afterRead (B := B) (O := fun op => ∀ i, op ≠ .read i) id a x h
    (fun _ _ _ hop => by cases hop) { s with world := w, heard := some h } hw
  refine wp_anyhow hrest fun s' hm => ?_
  have hlog : got j s'.world.log = got j w.log := hm.passage.got_eq fun hno => hno _ rfl
  rw [hlog, hm.heard fun i hno => hno i rfl]
  exact hgot

/-! ## Steps -/

/-- What holds after the handler of an event, also where it raises an error, holds after its dispatch. -/
theorem dispatch_of_wp {P : State σ → Prop} {a : ℕ} {e : SocketEvent} {v : Verdict}
    (hh : Prog.wp (handler B a e) (fun _ s' => P s') (OnError P) { s with heard := none })
    (hP : ∀ s₁ s₂, State.Beside s₁ s₂ → s₂.heard = s₁.heard → P s₁ → P s₂)
    (h : dispatch B a e s = some (v, s')) : P s' := by
  unfold dispatch at h
  unfold Prog.wp at hh
  rcases hr : handler B a e { s with heard := none } with ⟨f | r, s₁⟩ <;> rw [hr] at h hh
  · cases f with
    | error =>
      obtain ⟨-, rfl⟩ := Prod.mk.inj (Option.some.inj h)
      exact hh rfl
    | _ => cases h
  · obtain rfl : (r.perform s₁).2 = s' := congrArg Prod.snd (Option.some.inj h)
    obtain ⟨hsame, hheard⟩ := r.perform_snd s₁
    refine hP _ _ ⟨r.perform_world s₁, ?_, congrArg Prod.snd hsame⟩ hheard hh
    exact congrArg Prod.fst hsame

/-- The dispatch of an event. -/
theorem dispatch_kept {a : ℕ} {e : SocketEvent} {v : Verdict} (hO : ∀ op, HandlerMakes e op → O op)
    (hs : Reached B s.world) (h : dispatch B a e s = some (v, s')) : Kept B O s s' := by
  refine dispatch_of_wp (P := fun s' => Kept B O s s') ?_ (fun s₁ s₂ hb _ hk => hk.congr hb.world hb.pool)
    h
  refine wp_anyhow (Moves.handler a e hO { s with heard := none } hs) fun s₁ hm => ?_
  exact ⟨hm.reached, hm.passage, hm.entry⟩

/-- The handler of `LS_EREAD`. -/
theorem handler_of_read {a : ℕ} {e : SocketEvent} (he : e.type = .read) :
    handler B a e = eventRead B e.id a := by
  rw [handler, he]

/-- The dispatch of a read event hears what is read from its slot. -/
theorem dispatch_got {a j : ℕ} {e : SocketEvent} {v : Verdict} (he : e.type = .read)
    (hid : wrap e.id = j) (hs : Reached B s.world)
    (hp : ∀ c, s.world.abs.slot j = some c → c.protocol = .tcp)
    (h : dispatch B a e s = some (v, s')) :
    got j s'.world.log = got j s.world.log ++ bytesOf s'.heard := by
  refine dispatch_of_wp (P := fun s' => got j s'.world.log = got j s.world.log ++ bytesOf s'.heard) ?_
    (fun s₁ s₂ hb hh hgot => by rw [hb.world, hh, hgot]) h
  rw [handler_of_read he]
  exact eventRead_got (s := { s with heard := none }) hid hs hp rfl

/-- A call dispatches no event. -/
theorem pending_of_call {c : Call} {rs : List Reply} (h : (properScript B).step s (.call c rs) s')
    (hs : Reached B s.world) : s'.pending = s.pending := by
  obtain ⟨⟨-, hrun⟩, hproper⟩ := h
  have hcall := Moves.call (B := B) (O := fun _ => True) hproper (fun _ _ => trivial) (s.answer rs)
    (hs.answer rs)
  cases Step.ran hrun with
  | returned h => exact (Prog.wp_ok hcall h).pending
  | raised h => exact (Prog.wp_error hcall h rfl).pending
  | suspended h hl => exact (State.leave_eq hl).2.2.trans (Prog.wp_ok hcall h).pending

/-- A step of Lua code. -/
theorem step_kept {l : Step} (h : (properScript B).step s l s') (hs : Reached B s.world)
    (hO : ∀ op, l.Makes s op → O op) : Kept B O s s' := by
  obtain ⟨⟨-, hrun⟩, hproper⟩ := h
  have hanswer {rs : List Reply} {s₁ : State σ} (h : Kept B O (s.answer rs) s₁) : Kept B O s s₁ :=
    ⟨h.reached, h.passage, h.entry⟩
  have hcall {c : Call} {rs : List Reply} (hc : c.Proper) (hO : ∀ op, (Step.call c rs).Makes s op → O op) :=
    Moves.call (B := B) hc (fun op h => hO op (.called h)) (s.answer rs) (hs.answer rs)
  cases Step.ran hrun with
  | @returned c rs vs _ h => exact hanswer (Prog.wp_ok (hcall hproper hO) h).toKept
  | @raised c rs _ h => exact hanswer (Prog.wp_error (hcall hproper hO) h rfl).toKept
  | @suspended c rs p s₁ _ h hl =>
    have hm := Prog.wp_ok (hcall hproper hO) h
    exact (hanswer hm.toKept).congr (State.beside_leave hl).world (State.beside_leave hl).pool
  | resumed | finished => exact (Moved.refl hs).toKept.congr rfl rfl
  | yielded hl =>
    exact (Moved.refl hs).toKept.congr (State.beside_leave hl).world (State.beside_leave hl).pool
  | @polled timeout rs es w h =>
    obtain ⟨hw, hpass⟩ := (hs.answer rs).passage (.poll timeout) trivial (Prog.map_of_ok _ h)
      (hO _ .polled)
    exact ⟨hw, hpass, fun _ _ _ _ _ hb => hb⟩
  | @dispatched a rs e rest v s₁ hp h =>
    have hk := dispatch_kept (fun op hm => hO op (.dispatched hp hm)) (hs.answer rs) h
    exact (hanswer hk).congr rfl rfl

/-- Every world below a run of Lua code represents a net that chains of changes reach. -/
theorem reached_of_script (h : (properScript B).Reach s) : Reached B s.world := by
  refine h.invariant (I := fun s => Reached B s.world) ?_ ?_
  · rintro _ ⟨max, junk, rfl⟩
    exact reached_netCreate max junk
  · exact fun s l s' _ hs hstep => (step_kept (O := fun _ => True) hstep hs fun _ _ => trivial).reached

end Lsocket.Lua
