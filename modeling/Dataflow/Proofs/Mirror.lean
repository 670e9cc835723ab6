import Dataflow.Proofs.Cleanup
import Dataflow.Proofs.Order
import Dataflow.Proofs.Records
import Mathlib.Data.Option.Basic
/-!
# Runs that mirror each other

A wire can be run on its own, or as the only task of a mesh. The two runs do the same with their
wires, variables and channels, but in different places: the variables live in a scope of their own or
beneath the empty scope of the mesh, channels are found on the board of the wire or on that of the
mesh. `Mirror` names the places, `Mirror.Stores` says when two stores are the same up to places, and
each operation of a run takes such stores to such stores with the same answer.
-/

namespace Dataflow

variable {H : Host} {f : Wire H → Wire H} {α : Type} {stage : Stage H} {i j : Id .wire}
  (depth : Nat) {b b' : Id .board} {x x' : Exchange} {v v' : Variables}
  {R : Store H → Store H → Prop} {p : Id .scope} {w w' : Wire H} {V : Variables → Variables → Prop}
  {s t : Store H} {n : Nat}

/-- What no hook changes about a stage: that it is built in, and the wire that it runs. -/
def Stage.kin (st : Stage H) : Bool × Option (Id .wire) := (st.isBuiltIn, st.nested?)

theorem Stage.name_ne_empty {st : Stage H} (h : st.isBuiltIn = true) : st.name ≠ "" := by
  cases st with
  | unit u => cases h
  | _ => simp [name]

/-- The wire of a run; the scope and the board of the run, and those of its image; the wires that take
part, which run only each other, and the kin of their stages; and how many wires there are. -/
structure Mirror where
  root : Id .wire
  scope : Id .scope
  scope' : Id .scope
  board : Id .board
  board' : Id .board
  members : Set (Id .wire)
  shape : Id .wire → List (Bool × Option (Id .wire))
  size : Nat
  builtIn : ∀ j ∈ members, ∀ e ∈ shape j, e.1 = true
  closed : ∀ j ∈ members, ∀ e ∈ shape j, ∀ k, e.2 = some k → k ∈ members

namespace Mirror

variable (π : Mirror)

/-! ### Channels -/

/-- Boards that correspond: that of the run to that of the image, and any other to itself. -/
def Boards (b b' : Id .board) : Prop :=
  b = π.board ∧ b' = π.board' ∨ b' = b ∧ b ≠ π.board ∧ b ≠ π.board'

theorem boards_self : π.Boards π.board π.board' := .inl ⟨rfl, rfl⟩

/-- Boards correspond one to one. -/
theorem Boards.eq_iff {π : Mirror} {c c' : Id .board} (h : π.Boards b b') (h' : π.Boards c c') :
    b' = c' ↔ b = c := by
  rcases h with ⟨rfl, rfl⟩ | ⟨rfl, hb, hb'⟩ <;> rcases h' with ⟨rfl, rfl⟩ | ⟨rfl, hc, hc'⟩
  · simp
  · exact ⟨fun h => absurd h.symm hc', fun h => absurd h.symm hc⟩
  · exact ⟨fun h => absurd h hb', fun h => absurd h hb⟩
  · rfl

/-- The same queues and fans, and the same names on corresponding boards. -/
structure Exchanges (x x' : Exchange) : Prop where
  queues : x'.queues = x.queues
  fans : x'.fans = x.fans
  boards : ∀ b b', π.Boards b b' → x'.boards.get? b' = x.boards.get? b

namespace Exchanges

variable {π}

theorem board (h : π.Exchanges x x') (hb : π.Boards b b') : x'.board b' = x.board b := by
  rw [Exchange.board, Exchange.board, h.boards b b' hb]

/-- New queues and fans for both. -/
theorem with_tables (h : π.Exchanges x x') (queues : Queues) (fans : Table .fan Fan) :
    π.Exchanges { x with queues, fans } { x' with queues, fans } := ⟨rfl, rfl, h.boards⟩

theorem bind (h : π.Exchanges x x') (hb : π.Boards b b') (name : String) (c : Channel) :
    π.Exchanges (x.bind b name c) (x'.bind b' name c) := by
  refine ⟨h.queues, h.fans, fun d d' hd => ?_⟩
  simp only [Exchange.bind]
  by_cases hbd : b = d
  · obtain rfl := (hb.eq_iff hd).2 hbd
    subst hbd
    rw [Table.get?_modify_self, Table.get?_modify_self, h.boards _ _ hb]
  · rw [Table.get?_modify_of_ne _ hbd, Table.get?_modify_of_ne _ (mt (hb.eq_iff hd).1 hbd),
      h.boards d d' hd]

theorem initQueue (h : π.Exchanges x x') (hb : π.Boards b b') (name : String) (ty : Ty)
    (noCopy : Bool) :
    (x'.initQueue b' name ty noCopy).1 = (x.initQueue b name ty noCopy).1 ∧
      π.Exchanges (x.initQueue b name ty noCopy).2 (x'.initQueue b' name ty noCopy).2 := by
  unfold Exchange.initQueue
  simp only [h.board hb]
  cases (x.board b).channel name with
  | placeholder =>
    simp only [Exchange.addQueue, h.queues, h.fans, true_and]
    exact (h.with_tables _ x.fans).bind hb _ _
  | queue q =>
    simp only [h.queues]
    cases x.queues.get? q with
    | none => exact ⟨rfl, h⟩
    | some queue =>
      dsimp only
      cases queue.header.verify name ty with
      | error e => exact ⟨rfl, h⟩
      | ok header => exact ⟨rfl, rfl, h.fans, h.boards⟩
  | fan f => exact ⟨rfl, h⟩

theorem initFan (h : π.Exchanges x x') (hb : π.Boards b b') (name : String) (ty : Ty)
    (noCopy : Bool) :
    (x'.initFan b' name ty noCopy).1 = (x.initFan b name ty noCopy).1 ∧
      π.Exchanges (x.initFan b name ty noCopy).2 (x'.initFan b' name ty noCopy).2 := by
  unfold Exchange.initFan
  simp only [h.board hb]
  cases (x.board b).channel name with
  | placeholder =>
    simp only [Exchange.addFan, h.queues, h.fans, true_and]
    exact (h.with_tables x.queues _).bind hb _ _
  | fan f =>
    simp only [h.fans]
    cases x.fans.get? f with
    | none => exact ⟨rfl, h⟩
    | some fan =>
      dsimp only
      cases fan.header.verify name ty with
      | error e => exact ⟨rfl, h⟩
      | ok header => exact ⟨rfl, h.queues, rfl, h.boards⟩
  | queue q => exact ⟨rfl, h⟩

theorem use (h : π.Exchanges x x') {u : Use} (hb : π.Boards u.board b') :
    (x'.use { u with board := b' }).1 = (x.use u).1 ∧
      π.Exchanges (x.use u).2 (x'.use { u with board := b' }).2 := by
  unfold Exchange.use
  split
  · obtain ⟨hanswer, hexchange⟩ := h.initFan hb u.name u.ty u.noCopy
    exact ⟨congrArg (·.map Channel.fan) hanswer, hexchange⟩
  · obtain ⟨hanswer, hexchange⟩ := h.initQueue hb u.name u.ty u.noCopy
    exact ⟨congrArg (·.map Channel.queue) hanswer, hexchange⟩

theorem subscribe (h : π.Exchanges x x') (f : Id .fan) :
    (x'.subscribe f).1 = (x.subscribe f).1 ∧ π.Exchanges (x.subscribe f).2 (x'.subscribe f).2 := by
  unfold Exchange.subscribe
  simp only [h.fans, h.queues]
  cases x.fans.get? f with
  | none => exact ⟨rfl, h⟩
  | some fan => exact ⟨rfl, rfl, rfl, h.boards⟩

theorem publish (h : π.Exchanges x x') (f : Id .fan) (v : Value) :
    π.Exchanges (x.publish f v).2 (x'.publish f v).2 := by
  unfold Exchange.publish
  simp only [h.fans, h.queues]
  cases x.fans.get? f with
  | none => exact h
  | some fan => exact ⟨rfl, rfl, h.boards⟩

theorem resolve (h : π.Exchanges x x') (hb : π.Boards b b') (name : String) :
    (x'.resolve b' name).1 = (x.resolve b name).1 ∧
      π.Exchanges (x.resolve b name).2 (x'.resolve b' name).2 := by
  simp only [Exchange.resolve, h.board hb, true_and]
  exact h.bind hb name _

theorem close (h : π.Exchanges x x') (c : Channel) : π.Exchanges (x.close c).2 (x'.close c).2 := by
  cases c with
  | placeholder => exact h
  | queue q => exact ⟨congrArg (·.modify q Queue.close) h.queues, h.fans, h.boards⟩
  | fan f =>
    simp only [Exchange.close, h.fans, h.queues]
    cases x.fans.get? f with
    | none => exact h
    | some fan => exact ⟨rfl, rfl, h.boards⟩

theorem flush (h : π.Exchanges x x') (c : Channel) : π.Exchanges (x.flush c).2 (x'.flush c).2 := by
  cases c with
  | placeholder => exact h
  | queue q =>
    simp only [Exchange.flush, h.queues]
    cases x.queues.get? q with
    | none => exact h
    | some queue => exact ⟨rfl, h.fans, h.boards⟩
  | fan f =>
    simp only [Exchange.flush, h.fans, h.queues]
    cases x.fans.get? f with
    | none => exact h
    | some fan => exact ⟨rfl, rfl, h.boards⟩

end Exchanges

/-! ### Variables -/

/-- The same slots, and the same names in the scopes of the run and of its image. Around the scope of
the run there is none, and around that of the image at most an empty one. -/
structure Scopes (v v' : Variables) : Prop where
  slots : v'.slots = v.slots
  entries : (v'.scope π.scope').entries = (v.scope π.scope).entries
  lone : (v.scope π.scope).parent = none
  outer : ∀ p, (v'.scope π.scope').parent = some p → p ≠ π.scope' ∧ v'.scope p = {}
  known : ∃ scope, v.scopes.get? π.scope = some scope
  known' : ∃ scope, v'.scopes.get? π.scope' = some scope

namespace Scopes

variable {π}

theorem binding? (h : π.Scopes v v') (x : String) :
    v'.binding? π.scope' x = v.binding? π.scope x := by
  have hlone : v.binding? π.scope x = lookup? x (v.scope π.scope).entries := by
    simp only [Variables.binding?, Variables.chain, Variables.ancestry, h.lone, List.findSome?]
    cases lookup? x (v.scope π.scope).entries <;> rfl
  have houter : ∀ n p, (v'.scope π.scope').parent = some p →
      ((v'.ancestry n p).findSome? fun s => lookup? x s.entries) = none := by
    intro n p hp
    cases n with
    | zero => rfl
    | succ n => simp [Variables.ancestry, (h.outer p hp).2, lookup?]
  rw [hlone, ← h.entries, Variables.binding?, Variables.chain, Variables.ancestry]
  cases hp : (v'.scope π.scope').parent with
  | none => cases hx : lookup? x (v'.scope π.scope').entries <;> simp [List.findSome?, hx]
  | some p =>
    cases hx : lookup? x (v'.scope π.scope').entries with
    | none => simp [List.findSome?, hx, houter _ p hp]
    | some b => simp [List.findSome?, hx]

theorem find? (h : π.Scopes v v') (x : String) : v'.find? π.scope' x = v.find? π.scope x := by
  rw [Variables.find?, Variables.find?, h.binding?]

theorem isProtected (h : π.Scopes v v') (x : String) :
    v'.isProtected π.scope' x = v.isProtected π.scope x := by
  rw [Variables.isProtected, Variables.isProtected, h.binding?]

theorem read (h : π.Scopes v v') (slot : Id .slot) : v'.read slot = v.read slot := by
  rw [Variables.read, Variables.read, h.slots]

/-- New slots for both. -/
theorem with_slots (h : π.Scopes v v') (slots : Table .slot Value) :
    π.Scopes { v with slots } { v' with slots } :=
  ⟨rfl, h.entries, h.lone, h.outer, h.known, h.known'⟩

theorem write (h : π.Scopes v v') (slot : Id .slot) (value : Value) :
    π.Scopes (v.write slot value) (v'.write slot value) := by
  rw [Variables.write, Variables.write, h.slots]
  exact h.with_slots _

theorem assign (h : π.Scopes v v') (slot : Id .slot) (value : Value) :
    π.Scopes (v.assign slot value) (v'.assign slot value) := by
  rw [Variables.assign, Variables.assign, h.slots]
  exact h.with_slots _

theorem declare (h : π.Scopes v v') (x : String) :
    (v'.declare π.scope' x).1 = (v.declare π.scope x).1 ∧
      π.Scopes (v.declare π.scope x).2 (v'.declare π.scope' x).2 := by
  unfold Variables.declare
  rw [h.entries]
  cases lookup? x (v.scope π.scope).entries with
  | some b => exact ⟨rfl, h⟩
  | none =>
    have hslot : v'.slots.next = v.slots.next := by rw [h.slots]
    simp only [Variables.addSlot, Variables.bind, hslot, true_and]
    obtain ⟨known, hknown⟩ := h.known
    obtain ⟨known', hknown'⟩ := h.known'
    have hentries := h.entries
    have hlone := h.lone
    have houter := h.outer
    simp only [Variables.scope, hknown, hknown', Option.getD_some] at hentries hlone houter
    constructor
    · exact congrArg (·.push .nothing) h.slots
    · simp [Variables.scope, hknown, hknown', hentries]
    · simp [Variables.scope, hknown, hlone]
    · intro p hp
      simp only [Variables.scope, Table.get?_modify_self, hknown', Option.map_some,
        Option.getD_some] at hp ⊢
      obtain ⟨hne, hempty⟩ := houter p hp
      exact ⟨hne, by rw [Table.get?_modify_of_ne _ hne.symm, hempty]⟩
    · exact ⟨_, by rw [Table.get?_modify_self, hknown, Option.map_some]⟩
    · exact ⟨_, by rw [Table.get?_modify_self, hknown', Option.map_some]⟩

end Scopes

/-! ### Wires -/

/-- What may differ between a wire and its image. -/
structure Guise where
  looped : Bool
  composed : Option Memo
  scope : Id .scope
  board : Id .board
  collector : Option (Id .collector)

end Mirror

/-- The wire in another guise. -/
def Wire.inGuise (w : Wire H) (g : Mirror.Guise) : Wire H :=
  { w with looped := g.looped, composed := g.composed, scope := g.scope, board := g.board,
           collector := g.collector }

/-- Where a wire runs. -/
def Wire.berth (w : Wire H) : Id .scope × Id .board := (w.scope, w.board)

namespace Mirror

variable (π : Mirror)

/-- How the berths of a wire and of its image are related. -/
abbrev Berths := Id .wire → Id .scope × Id .board → Id .scope × Id .board → Prop

/-- How the memos of a wire and of its image are related. -/
abbrev Memories := Id .wire → Option Memo → Option Memo → Prop

/-- Only one that has been composed has a memo. -/
def Made : Memories := fun _ m m' => m'.isNone = m.isNone

/-- A wire and its image, which differ in guise only. -/
structure Pairs (Q : Berths) (M : Memories) (j : Id .wire) (w w' : Wire H) : Prop where
  guise : ∃ g, w' = w.inGuise g
  looped : w'.looped = w.looped
  straight : j = π.root → w.looped = false
  composed : j ∈ π.members → M j w.composed w'.composed
  berth : Q j w.berth w'.berth
  kin : j ∈ π.members → w.stages.map (·.stage.kin) = π.shape j

/-- Stores that are the same up to places. Traces and the journal are left out. -/
structure Stores (V : Variables → Variables → Prop) (Q : Berths) (M : Memories) (s t : Store H) :
    Prop where
  size : s.wires.size = π.size
  size' : t.wires.size = π.size
  wires : ∀ j, Option.Rel (π.Pairs Q M j) (s.wires.get? j) (t.wires.get? j)
  vars : V s.vars t.vars
  exchange : π.Exchanges s.exchange t.exchange
  runs : t.runs = s.runs
  heap : t.heap = s.heap

end Mirror

/-- The same answer, and related stores afterwards. -/
inductive Agrees {α : Type} (R : Store H → Store H → Prop) : α × Store H → α × Store H → Prop where
  | intro (a : α) {s t : Store H} (h : R s t) : Agrees R (a, s) (a, t)

/-- What follows for all equal answers on related stores follows from agreement. -/
@[elab_as_elim]
theorem Agrees.elim {p q : α × Store H} {motive : α × Store H → α × Store H → Prop}
    (h : Agrees R p q) (intro : ∀ a s t, R s t → motive (a, s) (a, t)) : motive p q := by
  cases h with
  | intro a h => exact intro a _ _ h

theorem Agrees.imp {R' : Store H → Store H → Prop} {p q : α × Store H} (h : Agrees R p q)
    (hR : ∀ s t, R s t → R' s t) : Agrees R' p q := by
  cases h with
  | intro a h => exact .intro a (hR _ _ h)

namespace Mirror

variable {π : Mirror}

namespace Pairs

variable {Q Q' : Berths} {M M' : Memories}

theorem stages (h : π.Pairs Q M j w w') : w'.stages = w.stages := by
  obtain ⟨g, rfl⟩ := h.guise
  rfl

/-- What a change that ignores the guise does to a wire it does to the image. -/
theorem map (h : π.Pairs Q M j w w') (hf : ∀ w g, f (w.inGuise g) = (f w).inGuise g)
    (hkin : j ∈ π.members → (f w).stages.map (·.stage.kin) = w.stages.map (·.stage.kin)) :
    π.Pairs Q M j (f w) (f w') := by
  have hself : ∀ w : Wire H, (f w).looped = w.looped ∧ (f w).composed = w.composed ∧
      (f w).berth = w.berth := by
    intro w
    have hw := hf w ⟨w.looped, w.composed, w.scope, w.board, w.collector⟩
    exact ⟨(congrArg Wire.looped hw).trans rfl, (congrArg Wire.composed hw).trans rfl,
      (congrArg Wire.berth hw).trans rfl⟩
  obtain ⟨hlooped, hcomposed, hberth⟩ := hself w
  obtain ⟨hlooped', hcomposed', hberth'⟩ := hself w'
  refine ⟨?_, ?_, fun hj => hlooped.trans (h.straight hj), fun hj => ?_, ?_,
    fun hj => (hkin hj).trans (h.kin hj)⟩
  · obtain ⟨g, rfl⟩ := h.guise
    exact ⟨g, hf w g⟩
  · rw [hlooped, hlooped', h.looped]
  · rw [hcomposed, hcomposed']
    exact h.composed hj
  · rw [hberth, hberth']
    exact h.berth

theorem mono (h : π.Pairs Q M j w w') (hQ : ∀ p p', Q j p p' → Q' j p p')
    (hM : j ∈ π.members → ∀ m m', M j m m' → M' j m m') : π.Pairs Q' M' j w w' :=
  ⟨h.guise, h.looped, h.straight, fun hj => hM hj _ _ (h.composed hj), hQ _ _ h.berth, h.kin⟩

end Pairs

namespace Stores

variable {V' : Variables → Variables → Prop} {Q Q' : Berths} {M M' : Memories}

theorem get?_some (h : π.Stores V Q M s t) (hw : s.wires.get? j = some w) :
    ∃ w', t.wires.get? j = some w' ∧ π.Pairs Q M j w w' := by
  have hj := h.wires j
  rw [hw] at hj
  generalize t.wires.get? j = o at hj ⊢
  cases hj with
  | some hpair => exact ⟨_, rfl, hpair⟩

theorem get?_none (h : π.Stores V Q M s t) (hw : s.wires.get? j = none) :
    t.wires.get? j = none := by
  have hj := h.wires j
  rw [hw] at hj
  generalize t.wires.get? j = o at hj ⊢
  cases hj
  rfl

/-- What does not depend on the guise of a wire is the same for its image. -/
theorem map_get? (h : π.Stores V Q M s t) (j : Id .wire) {f : Wire H → α}
    (hf : ∀ w g, f (w.inGuise g) = f w) : (t.wires.get? j).map f = (s.wires.get? j).map f := by
  cases hw : s.wires.get? j with
  | none => rw [h.get?_none hw]
  | some w =>
    obtain ⟨w', hw', hpair⟩ := h.get?_some hw
    obtain ⟨g, rfl⟩ := hpair.guise
    rw [hw', Option.map_some, Option.map_some, hf]

theorem wireName (h : π.Stores V Q M s t) (j : Id .wire) : t.wireName j = s.wireName j := by
  rw [Store.wireName, Store.wireName, h.map_get? j fun _ _ => rfl]

theorem placedAt? (h : π.Stores V Q M s t) (j : Id .wire) (n : Nat) :
    t.placedAt? j n = s.placedAt? j n := by
  have hstages := h.map_get? j (f := Wire.stages) fun _ _ => rfl
  exact Store.placedAt?_congr hstages n

theorem size_eq (h : π.Stores V Q M s t) : t.wires.size = s.wires.size := h.size'.trans h.size.symm

theorem depthBound (h : π.Stores V Q M s t) : t.depthBound = s.depthBound :=
  congrArg (· + 1) h.size_eq

theorem run (h : π.Stores V Q M s t) (r : Id .run) : t.run r = s.run r := by
  rw [Store.run, Store.run, h.runs]

/-- The kin of a stage of a member. -/
theorem kin_of_placedAt? (h : π.Stores V Q M s t) (hj : j ∈ π.members) {p : Placed H}
    (hp : s.placedAt? j n = some p) : (π.shape j)[n]? = some p.stage.kin := by
  rw [Store.placedAt?_eq] at hp
  obtain ⟨w, hw, hat⟩ := Option.bind_eq_some_iff.1 hp
  obtain ⟨w', -, hpair⟩ := h.get?_some hw
  rw [← hpair.kin hj, List.getElem?_map, hat, Option.map_some]

/-- The same objects are held. -/
theorem holds (h : π.Stores V Q M s t) (hslots : t.vars.slots = s.vars.slots)
    (id : ObjectId) : t.holds id = s.holds id := by
  have hwires : t.wires.rows.map (Store.wireHolds id) = s.wires.rows.map (Store.wireHolds id) := by
    refine Array.ext_getElem? fun n => ?_
    have hn := h.map_get? ⟨n⟩ (f := Store.wireHolds id) fun _ _ => rfl
    simpa only [Array.getElem?_map, Table.get?] using hn
  have hany : t.wires.rows.any (Store.wireHolds id) = s.wires.rows.any (Store.wireHolds id) := by
    have := congrArg (fun a : Array Bool => a.any fun b => b) hwires
    simpa only [Array.any_map, Function.comp_def] using this
  rw [Store.holds, Store.holds, hslots, h.exchange.queues, hany, h.runs]

theorem mono (h : π.Stores V Q M s t) (hQ : ∀ j p p', Q j p p' → Q' j p p')
    (hM : ∀ j ∈ π.members, ∀ m m', M j m m' → M' j m m') : π.Stores V Q' M' s t := by
  refine ⟨h.size, h.size', fun j => ?_, h.vars, h.exchange, h.runs, h.heap⟩
  cases hw : s.wires.get? j with
  | none => rw [h.get?_none hw]; exact .none
  | some w =>
    obtain ⟨w', hw', hpair⟩ := h.get?_some hw
    rw [hw']
    exact .some (hpair.mono (hQ j) (hM j))

/-- Changing a wire and its image: what is to be seen to is the pair itself. -/
theorem modify_pair (h : π.Stores V Q M s t) (i : Id .wire) {f' : Wire H → Wire H}
    (hi : ∀ w w', s.wires.get? i = some w → π.Pairs Q M i w w' → π.Pairs Q' M i (f w) (f' w'))
    (hrest : ∀ j ≠ i, ∀ p p', Q j p p' → Q' j p p') :
    π.Stores V Q' M (s.modifyWire i f) (t.modifyWire i f') := by
  refine ⟨?_, ?_, fun j => ?_, h.vars, h.exchange, h.runs, h.heap⟩
  · simp only [Store.modifyWire, Table.size_modify, h.size]
  · simp only [Store.modifyWire, Table.size_modify, h.size']
  · by_cases hij : i = j
    · subst hij
      rw [Store.get?_modifyWire_self, Store.get?_modifyWire_self]
      cases hw : s.wires.get? i with
      | none => rw [h.get?_none hw]; exact .none
      | some w =>
        obtain ⟨w', hw', hpair⟩ := h.get?_some hw
        rw [hw']
        exact .some (hi w w' hw hpair)
    · rw [Store.get?_modifyWire_of_ne _ hij, Store.get?_modifyWire_of_ne _ hij]
      cases hw : s.wires.get? j with
      | none => rw [h.get?_none hw]; exact .none
      | some w =>
        obtain ⟨w', hw', hpair⟩ := h.get?_some hw
        rw [hw']
        exact .some (hpair.mono (hrest j (Ne.symm hij)) fun _ _ _ => id)

/-- The same change to a wire and its image, whatever their guises. -/
theorem modifyWire (h : π.Stores V Q M s t) (i : Id .wire)
    (hf : ∀ w g, f (w.inGuise g) = (f w).inGuise g)
    (hkin : ∀ w, s.wires.get? i = some w → i ∈ π.members →
      (f w).stages.map (·.stage.kin) = w.stages.map (·.stage.kin)) :
    π.Stores V Q M (s.modifyWire i f) (t.modifyWire i f) :=
  h.modify_pair i (fun _ _ hw hpair => hpair.map hf (hkin _ hw)) fun _ _ _ _ => id

theorem setStage (h : π.Stores V Q M s t) (st : Stage H)
    (hst : j ∈ π.members → (π.shape j)[n]? = some st.kin) :
    π.Stores V Q M (s.modifyWire j (·.setStage n st)) (t.modifyWire j (·.setStage n st)) := by
  refine h.modifyWire j (fun _ _ => rfl) fun w hw hj => ?_
  obtain ⟨w', -, hpair⟩ := h.get?_some hw
  refine w.map_setStage Stage.kin n st fun p hp => ?_
  have hat := hst hj
  rw [← hpair.kin hj, List.getElem?_map, hp, Option.map_some] at hat
  exact (Option.some.inj hat).symm

theorem modifyRun (h : π.Stores V Q M s t) (r : Id .run) (f : RunRecord → RunRecord) :
    π.Stores V Q M (s.modifyRun r f) (t.modifyRun r f) :=
  ⟨h.size, h.size', h.wires, h.vars, h.exchange, congrArg (·.modify r f) h.runs, h.heap⟩

theorem with_exchange (h : π.Stores V Q M s t) (hx : π.Exchanges x x') :
    π.Stores V Q M { s with exchange := x } { t with exchange := x' } :=
  ⟨h.size, h.size', h.wires, h.vars, hx, h.runs, h.heap⟩

theorem with_queues (h : π.Stores V Q M s t) (queues : Queues) :
    π.Stores V Q M { s with exchange.queues := queues } { t with exchange.queues := queues } :=
  h.with_exchange ⟨rfl, h.exchange.fans, h.exchange.boards⟩

theorem with_vars (h : π.Stores V Q M s t) (hv : V' v v') :
    π.Stores V' Q M { s with vars := v } { t with vars := v' } :=
  ⟨h.size, h.size', h.wires, hv, h.exchange, h.runs, h.heap⟩

theorem with_heap (h : π.Stores V Q M s t) (heap : Heap) :
    π.Stores V Q M { s with heap } { t with heap } :=
  ⟨h.size, h.size', h.wires, h.vars, h.exchange, h.runs, rfl⟩

theorem record (h : π.Stores V Q M s t) (c c' : Option (Id .collector)) (e e' : Trace) :
    π.Stores V Q M (s.record c e) (t.record c' e') := by
  cases c <;> cases c' <;> exact ⟨h.size, h.size', h.wires, h.vars, h.exchange, h.runs, h.heap⟩

/-- The same move of a wire and of its image. -/
theorem move (h : π.Stores V Q M s t) (r : Id .run) (hf : ∀ w g, f (w.inGuise g) = (f w).inGuise g)
    (hstages : ∀ w, (f w).stages = w.stages) (g : RunRecord → RunRecord) :
    π.Stores V Q M ((s.modifyWire i f).modifyRun r g) ((t.modifyWire i f).modifyRun r g) :=
  (h.modifyWire i hf fun w _ _ => by rw [hstages]).modifyRun r g

theorem conclude (h : π.Stores V Q M s t) (i : Id .wire) (outcome : Outcome) :
    π.Stores V Q M (s.conclude i outcome) (t.conclude i outcome) := by
  unfold Store.conclude
  cases hw : s.wires.get? i with
  | none => rw [h.get?_none hw]; exact h
  | some w =>
    obtain ⟨w', hw', hpair⟩ := h.get?_some hw
    obtain ⟨g, rfl⟩ := hpair.guise
    rw [hw']
    exact h.move w.run (by intros; rfl) (by intros; rfl) _

theorem start (h : π.Stores V Q M s t) (i : Id .wire) (input : Value) :
    π.Stores V Q M (s.start i input) (t.start i input) := by
  unfold Store.start
  cases hw : s.wires.get? i with
  | none => rw [h.get?_none hw]; exact h
  | some w =>
    obtain ⟨w', hw', hpair⟩ := h.get?_some hw
    obtain ⟨g, rfl⟩ := hpair.guise
    rw [hw']
    exact h.move w.run (by intros; rfl) (by intros; rfl) _

theorem suspended (h : π.Stores V Q M s t) (i : Id .wire) (n : Nat) (point : Suspension) :
    π.Stores V Q M (s.suspended i n point) (t.suspended i n point) := by
  unfold Store.suspended
  cases hw : s.wires.get? i with
  | none => rw [h.get?_none hw]; exact h
  | some w =>
    obtain ⟨w', hw', hpair⟩ := h.get?_some hw
    obtain ⟨g, rfl⟩ := hpair.guise
    rw [hw']
    exact h.move w.run (by intros; rfl) (by intros; rfl) _

theorem takenUp (h : π.Stores V Q M s t) (i : Id .wire) (w : Wire H) (g : Guise) :
    π.Stores V Q M (s.takenUp i w) (t.takenUp i (w.inGuise g)) := by
  simp only [Store.takenUp, Wire.inGuise]
  split
  · exact h.move w.run (by intros; rfl) (by intros; rfl) _
  · exact h

end Stores

/-! ### Cleaning up -/

/-- Members of a run have corresponding boards, and those in `B` belong to the run. -/
def Moored (π : Mirror) (B : Set (Id .wire)) : Berths := fun j p p' =>
  (j ∈ π.members → π.Boards p.2 p'.2) ∧
    (j ∈ B → p = (π.scope, π.board) ∧ p' = (π.scope', π.board'))

/-- Stores of a run and of its image, in which the wires in `B` are warmed up. -/
abbrev Runs (π : Mirror) (B : Set (Id .wire)) (s t : Store H) : Prop :=
  π.Stores π.Scopes (π.Moored B) Made s t

variable {B : Set (Id .wire)}

theorem agrees_stage_cleanup (h : π.Runs B s t) (hb : stage.isBuiltIn = true)
    {endNested : Id .wire → Exec H PUnit} (hn : ∀ j, stage.nested? = some j →
      Agrees (π.Runs B) (s.eval (endNested j)) (t.eval (endNested j))) (keep : Value) :
    Agrees (π.Runs B) (s.eval (stage.cleanup endNested keep))
        (t.eval (stage.cleanup endNested keep)) ∧
      ∀ st, (s.eval (stage.cleanup endNested keep)).1 = .ok st → st.kin = stage.kin := by
  cases stage with
  | buffer source =>
    simp only [Stage.cleanup, Store.eval_bind, Store.eval_getThe, h.holds h.vars.slots]
    split <;> exact ⟨.intro _ h, by rintro st ⟨⟩ <;> rfl⟩
  | inline sub | bound name sub slot =>
    obtain ⟨_ | j, running⟩ := sub
    · exact ⟨.intro _ h, by rintro st ⟨⟩; rfl⟩
    · simp only [Stage.cleanup, Store.eval_bind]
      refine (hn j rfl).elim fun a s t h => ?_
      cases a <;> exact ⟨.intro _ h, by rintro st ⟨⟩ <;> rfl⟩
  | consume r queue | listen r queue =>
    cases queue with
    | none => exact ⟨.intro _ h, by rintro st ⟨⟩; rfl⟩
    | some q =>
      simp only [Stage.cleanup, Store.eval_modifyGetThe, Option.bind_some, h.exchange.queues]
      rcases r.release (s.exchange.queues.get? q) with ⟨r', _ | q'⟩
      · exact ⟨.intro _ h, by rintro st ⟨⟩; rfl⟩
      · exact ⟨.intro _ (h.with_queues _), by rintro st ⟨⟩; rfl⟩
  | unit u => cases hb
  | _ => exact ⟨.intro _ h, by rintro st ⟨⟩; rfl⟩

theorem agrees_cleanupBelow (hi : i ∈ π.members) {endNested : Id .wire → Exec H PUnit}
    (hn : ∀ j ∈ π.members, ∀ s t, π.Runs B s t →
      Agrees (π.Runs B) (s.eval (endNested j)) (t.eval (endNested j))) (keep : Value) (n : Nat)
    (h : π.Runs B s t) :
    Agrees (π.Runs B) (s.eval (Store.cleanupBelow endNested keep i n))
      (t.eval (Store.cleanupBelow endNested keep i n)) := by
  induction n generalizing s t with
  | zero => exact .intro _ h
  | succ n ih =>
    rw [Store.eval_cleanupBelow_succ, Store.eval_cleanupBelow_succ, h.placedAt?]
    cases hp : s.placedAt? i n with
    | none => exact ih h
    | some p =>
      have hat := h.kin_of_placedAt? hi hp
      have hunmark : π.Runs B (s.unmark i n) (t.unmark i n) :=
        h.modifyWire i (fun _ _ => rfl) fun w _ _ => w.map_modifyPlaced Stage.kin n fun _ => rfl
      dsimp only
      split
      · split
        · obtain ⟨hclean, hkin⟩ := agrees_stage_cleanup hunmark
            (π.builtIn i hi _ (List.mem_of_getElem? hat)) (fun j hj =>
              hn j (π.closed i hi _ (List.mem_of_getElem? hat) j hj) _ _ hunmark) keep
          revert hkin
          refine hclean.elim fun a s t h hkin => ?_
          cases a with
          | error halt => exact .intro _ h
          | ok st => exact ih (h.setStage st fun _ => by rw [hat, hkin st rfl])
        · exact ih hunmark
      · exact ih h

theorem agrees_cleanupWithin (keep : Value) (hi : i ∈ π.members) (h : π.Runs B s t) :
    Agrees (π.Runs B) (s.eval (Store.cleanupWithin depth keep i))
      (t.eval (Store.cleanupWithin depth keep i)) := by
  induction depth generalizing i s t with
  | zero => exact .intro _ h
  | succ depth ih =>
    rw [Store.eval_cleanupWithin_succ, Store.eval_cleanupWithin_succ]
    cases hw : s.wires.get? i with
    | none => rw [h.get?_none hw]; exact .intro _ h
    | some w =>
      obtain ⟨w', hw', hpair⟩ := h.get?_some hw
      rw [hw']
      dsimp only
      rw [hpair.stages]
      refine agrees_cleanupBelow hi (fun j hj s t h => ?_) keep _ h
      have hrunning := h.map_get? j (f := Wire.midRun) fun _ _ => rfl
      rw [Store.eval_endNested, Store.eval_endNested, hrunning]
      refine (ih hj h).elim fun a s' t' h => ?_
      cases a with
      | error halt => exact .intro _ h
      | ok _ =>
        dsimp only
        split
        · exact .intro _ (h.conclude j _)
        · exact .intro _ h

theorem agrees_cleanup (keep : Value) (hi : i ∈ π.members) (h : π.Runs B s t) :
    Agrees (π.Runs B) (s.eval (Store.cleanup i keep)) (t.eval (Store.cleanup i keep)) := by
  rw [Store.eval_cleanup, Store.eval_cleanup, h.depthBound]
  exact agrees_cleanupWithin _ keep hi h

/-! ### Warming up -/

section Warmup

variable {nested : NestedWarmup H} (hberth : w.berth = (π.scope, π.board))
  (hberth' : w'.berth = (π.scope', π.board')) (hinput : w'.input = w.input)

include hberth hberth' hinput

theorem agrees_warmupNested (h : π.Runs B s t) (sub : Nested)
    (hn : ∀ j, sub.wire = some j →
      Agrees (π.Runs B) (s.eval (nested j w.input π.scope π.board))
        (t.eval (nested j w.input π.scope' π.board'))) :
    Agrees (π.Runs B) ((Stage.warmupNested nested w sub).run s)
      ((Stage.warmupNested nested w' sub).run t) := by
  simp only [Wire.berth, Prod.mk.injEq] at hberth hberth'
  rw [Stage.run_warmupNested, Stage.run_warmupNested]
  cases hj : sub.wire with
  | none => exact .intro _ h
  | some j =>
    simp only [hberth, hberth', hinput, h.wireName]
    refine (hn j hj).elim fun a s' t' h => ?_
    rcases a with _ | _ | _ <;> exact .intro _ h

theorem agrees_stage_warmup (h : π.Runs B s t) (hb : stage.isBuiltIn = true)
    (hn : ∀ j, stage.nested? = some j → ∀ s t, π.Runs B s t →
      Agrees (π.Runs B) (s.eval (nested j w.input π.scope π.board))
        (t.eval (nested j w.input π.scope' π.board'))) :
    Agrees (π.Runs B) ((stage.warmup nested w).run s) ((stage.warmup nested w').run t) ∧
      ((stage.warmup nested w).run s).1.stage.kin = stage.kin := by
  have hw := hberth
  have hw' := hberth'
  simp only [Wire.berth, Prod.mk.injEq] at hw hw'
  cases stage with
  | add operand =>
    simp only [Stage.warmup, Store.run_bind, Store.run_getThe, Stage.resolveOperand, hw, hw',
      h.vars.find?]
    cases operand.referent? with
    | none => exact ⟨.intro _ h, rfl⟩
    | some name =>
      dsimp only
      cases s.vars.find? π.scope name <;> exact ⟨.intro _ h, rfl⟩
  | set name ty slot =>
    obtain ⟨hslot, hvars⟩ := h.vars.declare name
    simp only [Stage.run_warmup_set, hw, hw', h.vars.isProtected, hslot]
    split
    · exact ⟨.intro _ h, rfl⟩
    · exact ⟨.intro _ (h.with_vars hvars), rfl⟩
  | get name slot =>
    simp only [Stage.warmup, Store.run_bind, Store.run_getThe, hw, hw', h.vars.find?]
    cases s.vars.find? π.scope name <;> exact ⟨.intro _ h, rfl⟩
  | update name ty slot =>
    simp only [Stage.run_warmup_update, hw, hw', h.vars.isProtected, h.vars.find?]
    split
    · exact ⟨.intro _ h, rfl⟩
    · cases s.vars.find? π.scope name <;> exact ⟨.intro _ h, rfl⟩
  | inline sub =>
    simp only [Stage.warmup, Store.run_bind]
    refine (agrees_warmupNested hberth hberth' hinput h { sub with running := false }
      fun j hj => hn j hj s t h).elim fun a s t h => ?_
    exact ⟨.intro _ h, rfl⟩
  | bound name sub slot =>
    obtain ⟨hslot, hvars⟩ := h.vars.declare name
    have hdeclared := h.with_vars hvars
    simp only [Stage.warmup, Store.run_bind, Store.run_getThe, Store.run_modify, hw, hw', hslot]
    refine (agrees_warmupNested hberth hberth' hinput hdeclared
      { sub with running := false } fun j hj => hn j hj _ _ hdeclared).elim
      fun a s t h => ?_
    exact ⟨.intro _ h, rfl⟩
  | produce sender queue =>
    obtain ⟨hanswer, hexchange⟩ := h.exchange.initQueue π.boards_self sender.name sender.ty
      sender.noCopy
    simp only [Stage.warmup, Store.run_bind, Stage.warmupChannel, Store.run_modifyGetThe, hw, hw',
      hanswer]
    split <;> exact ⟨.intro _ (h.with_exchange hexchange), rfl⟩
  | broadcast sender fan =>
    obtain ⟨hanswer, hexchange⟩ := h.exchange.initFan π.boards_self sender.name sender.ty
      sender.noCopy
    simp only [Stage.warmup, Store.run_bind, Stage.warmupChannel, Store.run_modifyGetThe, hw, hw',
      hanswer]
    split <;> exact ⟨.intro _ (h.with_exchange hexchange), rfl⟩
  | consume r queue =>
    obtain ⟨hanswer, hexchange⟩ := h.exchange.initQueue π.boards_self r.name r.ty r.noCopy
    simp only [Stage.warmup, Store.run_bind, Stage.warmupChannel, Store.run_modifyGetThe, hw, hw',
      hanswer]
    split <;> exact ⟨.intro _ (h.with_exchange hexchange), rfl⟩
  | listen r queue =>
    obtain ⟨hanswer, hexchange⟩ := h.exchange.initFan π.boards_self r.name r.ty r.noCopy
    simp only [Stage.warmup, Store.run_bind, Stage.warmupChannel, Store.run_modifyGetThe, hw, hw',
      hanswer]
    split
    · rename_i fan _
      obtain ⟨hqueue, hsubscribed⟩ := hexchange.subscribe fan
      simp only [Store.run_bind, Store.run_getThe, Store.run_modify, hqueue]
      exact ⟨.intro _ (h.with_exchange hsubscribed), rfl⟩
    · exact ⟨.intro _ (h.with_exchange hexchange), rfl⟩
  | unit u => cases hb
  | _ => exact ⟨.intro _ h, rfl⟩

end Warmup

theorem agrees_warmupFrom (hi : i ∈ π.members) (hB : i ∈ B) {nested : NestedWarmup H}
    (hn : ∀ j ∈ π.members, ∀ input s t, π.Runs B s t →
      Agrees (π.Runs B) (s.eval (nested j input π.scope π.board))
        (t.eval (nested j input π.scope' π.board'))) (n count : Nat) (h : π.Runs B s t) :
    Agrees (π.Runs B) (s.eval (Store.warmupFrom nested i n count))
      (t.eval (Store.warmupFrom nested i n count)) := by
  induction count generalizing n s t with
  | zero => exact .intro _ h
  | succ count ih =>
    have hmark : π.Runs B (s.mark i n) (t.mark i n) :=
      h.modifyWire i (fun _ _ => rfl) fun w _ _ => w.map_modifyPlaced Stage.kin n fun _ => rfl
    rw [Store.eval_warmupFrom_succ, Store.eval_warmupFrom_succ, hmark.placedAt?]
    cases hw : (s.mark i n).wires.get? i with
    | none => rw [hmark.get?_none hw]; exact .intro _ hmark
    | some w =>
      obtain ⟨w', hw', hpair⟩ := hmark.get?_some hw
      obtain ⟨hberth, hberth'⟩ := hpair.berth.2 hB
      have hinput : w'.input = w.input := by obtain ⟨g, rfl⟩ := hpair.guise; rfl
      rw [hw']
      cases hp : (s.mark i n).placedAt? i n with
      | none => exact .intro _ hmark
      | some p =>
        have hat := hmark.kin_of_placedAt? hi hp
        have hmem := List.mem_of_getElem? hat
        dsimp only
        split
        · obtain ⟨hstage, hkin⟩ := agrees_stage_warmup hberth hberth' hinput hmark
            (π.builtIn i hi _ hmem)
            fun j hj s t h => hn j (π.closed i hi _ hmem j hj) _ s t h
          revert hkin
          refine hstage.elim fun step s t h hkin => ?_
          have hset := h.setStage (j := i) step.stage fun _ => by rw [hat, hkin]
          dsimp only
          rcases step.answer with _ | _ | _
          · exact .intro _ hset
          · exact .intro _ hset
          · exact ih (n + 1) hset
        · exact ih (n + 1) hmark

/-- A wire and its image are taken into the run. -/
theorem Stores.adopt {Q : Berths} (h : π.Stores π.Scopes Q Made s t) (input : Value)
    (hQ : ∀ j ≠ i, ∀ p p', Q j p p' → π.Moored B j p p') :
    π.Runs (insert i B) (s.adopt i input π.scope π.board)
      (t.adopt i input π.scope' π.board') := by
  refine h.modify_pair i (fun w w' _ hpair => ?_) fun j hj p p' hp => ?_
  · obtain ⟨⟨g, rfl⟩, hlooped, hstraight, hcomposed, -, hkin⟩ := hpair
    exact ⟨⟨⟨g.looped, g.composed, π.scope', π.board', g.collector⟩, rfl⟩, hlooped, hstraight,
      hcomposed, ⟨fun _ => π.boards_self, fun _ => ⟨rfl, rfl⟩⟩, hkin⟩
  · obtain ⟨hboards, hplaces⟩ := hQ j hj p p' hp
    exact ⟨hboards, fun hj' => hplaces (Set.mem_of_mem_insert_of_ne hj' hj)⟩

/-- A composed wire is taken into the run and its stages are warmed up. -/
theorem agrees_warmupWithin_succ {Q : Berths} (hi : i ∈ π.members)
    (h : π.Stores π.Scopes Q Made s t) (hQ : ∀ j ≠ i, ∀ p p', Q j p p' → π.Moored B j p p')
    (hw : s.wires.get? i = some w) (hcomposed : w.composed.isNone = false) (input : Value)
    {depth : Nat} (hn : ∀ j ∈ π.members, ∀ input (s t : Store H), π.Runs (insert i B) s t →
      Agrees (π.Runs (insert i B)) (s.eval (Store.warmupWithin depth j input π.scope π.board))
        (t.eval (Store.warmupWithin depth j input π.scope' π.board'))) :
    Agrees (π.Runs (insert i B)) (s.eval (Store.warmupWithin (depth + 1) i input π.scope π.board))
      (t.eval (Store.warmupWithin (depth + 1) i input π.scope' π.board')) := by
  obtain ⟨w', hw', hpair⟩ := h.get?_some hw
  have hcomposed' : w'.composed.isNone = w.composed.isNone := hpair.composed hi
  rw [Store.eval_warmupWithin_succ, Store.eval_warmupWithin_succ, hw, hw']
  dsimp only
  rw [hcomposed', hcomposed, hpair.stages]
  refine (agrees_warmupFrom hi (Set.mem_insert i B) hn 0 w.stages.length (h.adopt input hQ)).elim
    fun a s t h => ?_
  rcases a with halt | e | _
  · exact .intro _ h
  · dsimp only
    refine (agrees_cleanup .nothing hi h).elim fun a s t h => ?_
    cases a <;> exact .intro _ h
  · exact .intro _ h

theorem agrees_warmupWithin (hi : i ∈ π.members) (input : Value) (h : π.Runs B s t) :
    Agrees (π.Runs B) (s.eval (Store.warmupWithin depth i input π.scope π.board))
      (t.eval (Store.warmupWithin depth i input π.scope' π.board')) := by
  induction depth generalizing i input s t B with
  | zero => exact .intro _ h
  | succ depth ih =>
    cases hw : s.wires.get? i with
    | none =>
      rw [Store.eval_warmupWithin_succ, Store.eval_warmupWithin_succ, hw, h.get?_none hw]
      exact .intro _ h
    | some w =>
      cases hcomposed : w.composed.isNone with
      | true =>
        obtain ⟨w', hw', hpair⟩ := h.get?_some hw
        have hcomposed' : w'.composed.isNone = w.composed.isNone := hpair.composed hi
        have hname : w'.name = w.name := by obtain ⟨g, rfl⟩ := hpair.guise; rfl
        rw [Store.eval_warmupWithin_succ, Store.eval_warmupWithin_succ, hw, hw']
        dsimp only
        rw [hcomposed', hcomposed, hname]
        exact .intro _ h
      | false =>
        refine (agrees_warmupWithin_succ hi h (fun _ _ _ _ hp => hp) hw hcomposed input
          fun j hj input s t h => ih hj input h).imp fun s t h => h.mono (fun j p p' hp => ?_)
            fun _ _ _ _ => id
        exact ⟨hp.1, fun hj => hp.2 (Set.mem_insert_of_mem i hj)⟩

/-! ### Resuming -/

section Activation

variable {resume : Id .wire → Exec H Progress}

theorem agrees_activateNested (h : π.Runs B s t) {sub : Nested}
    (hn : ∀ j, sub.wire = some j → ∀ s t, π.Runs B s t →
      Agrees (π.Runs B) (s.eval (resume j)) (t.eval (resume j))) (input : Value) :
    Agrees (π.Runs B) ((Stage.activateNested resume sub input).run s)
        ((Stage.activateNested resume sub input).run t) ∧
      ((Stage.activateNested resume sub input).run s).1.1.wire = sub.wire := by
  rw [Stage.run_activateNested, Stage.run_activateNested]
  cases hj : sub.wire with
  | none => exact ⟨.intro _ h, hj⟩
  | some j =>
    have henter : π.Runs B (Stage.enter sub.running s j input) (Stage.enter sub.running t j input) := by
      unfold Stage.enter
      split
      · exact h
      · exact h.start j input
    dsimp only
    refine (hn j hj _ _ henter).elim fun a s t h => ?_
    rcases a with halt | point | output | failure
    · exact ⟨.intro _ h, hj⟩
    · exact ⟨.intro _ h, rfl⟩
    · exact ⟨.intro _ h, rfl⟩
    · dsimp only
      rw [h.wireName]
      exact ⟨.intro _ h, rfl⟩

theorem agrees_stage_activate (h : π.Runs B s t) (w' : Wire H) (hinput : w'.input = w.input)
    (hboards : π.Boards w.board w'.board) (hb : stage.isBuiltIn = true)
    (hn : ∀ j, stage.nested? = some j → ∀ s t, π.Runs B s t →
      Agrees (π.Runs B) (s.eval (resume j)) (t.eval (resume j))) (input : Value) :
    Agrees (π.Runs B) ((stage.activate resume w input).run s)
        ((stage.activate resume w' input).run t) ∧
      ((stage.activate resume w input).run s).1.stage.kin = stage.kin := by
  cases stage with
  | input =>
    simp only [Stage.activate, hinput]
    exact ⟨.intro _ h, rfl⟩
  | add operand =>
    simp only [Stage.activate, Store.run_bind, Store.run_getThe, Operand.current, h.vars.read]
    exact ⟨.intro _ h, rfl⟩
  | set name ty slot | update name ty slot =>
    cases slot with
    | none => exact ⟨.intro _ h, rfl⟩
    | some slot => exact ⟨.intro _ (h.with_vars (h.vars.assign slot input)), rfl⟩
  | get name slot =>
    cases slot with
    | none => exact ⟨.intro _ h, rfl⟩
    | some slot =>
      simp only [Stage.activate, Store.run_bind, Store.run_getThe, h.vars.read]
      exact ⟨.intro _ h, rfl⟩
  | pause time paused =>
    cases paused with
    | true => exact ⟨.intro _ h, rfl⟩
    | false =>
      simp only [Stage.activate, Bool.false_eq_true, if_false]
      split <;> exact ⟨.intro _ h, rfl⟩
  | buffer source =>
    have hheld : t.holds = s.holds := funext (h.holds h.vars.slots)
    simp only [Stage.activate, Store.run_bind, Store.run_getThe, hheld, h.heap]
    rcases source.next s.holds s.heap with v | ⟨object, source', heap⟩
    · exact ⟨.intro _ h, rfl⟩
    · exact ⟨.intro _ (h.with_heap heap), rfl⟩
  | inline sub =>
    obtain ⟨hnested, hwire⟩ := agrees_activateNested h hn input
    simp only [Stage.activate, Store.run_bind]
    revert hwire
    refine hnested.elim fun a s t h hwire => ?_
    exact ⟨.intro _ h, congrArg (Prod.mk true) hwire⟩
  | bound name sub slot =>
    cases input with
    | object object =>
      cases slot with
      | none => exact ⟨.intro _ h, rfl⟩
      | some slot =>
        obtain ⟨hnested, hwire⟩ := agrees_activateNested
          (h.with_vars (h.vars.write slot (.object object))) hn (.object object)
        simp only [Stage.activate, Store.run_bind, Stage.run_activateBound, h.vars.read]
        revert hwire
        refine hnested.elim fun a s' t' h' hwire => ?_
        dsimp only
        rw [h'.vars.read]
        exact ⟨.intro _ (h'.with_vars (h'.vars.write slot _)), congrArg (Prod.mk true) hwire⟩
    | _ => exact ⟨.intro _ h, rfl⟩
  | produce sender queue =>
    cases queue with
    | none => exact ⟨.intro _ h, rfl⟩
    | some q =>
      simp only [Stage.activate, Store.run_bind, Stage.sendTo, Store.run_modifyGetThe,
        h.exchange.queues]
      cases s.exchange.queues.get? q with
      | none => exact ⟨.intro _ h, rfl⟩
      | some queue =>
        dsimp only
        split <;> exact ⟨.intro _ (h.with_queues _), rfl⟩
  | broadcast sender fan =>
    cases fan with
    | none => exact ⟨.intro _ h, rfl⟩
    | some f => exact ⟨.intro _ (h.with_exchange (h.exchange.publish f input)), rfl⟩
  | consume r queue | listen r queue =>
    cases queue with
    | none => exact ⟨.intro _ h, rfl⟩
    | some q =>
      simp only [Stage.activate, Store.run_bind, Stage.receiveFrom, Store.run_modifyGetThe,
        h.exchange.queues]
      cases s.exchange.queues.get? q with
      | none => exact ⟨.intro _ h, rfl⟩
      | some queue => exact ⟨.intro _ (h.with_queues _), rfl⟩
  | complete name =>
    obtain ⟨hchannel, hexchange⟩ := h.exchange.resolve hboards name
    simp only [Stage.activate, Store.run_bind, Store.run_modify, hchannel]
    exact ⟨.intro _ (h.with_exchange (hexchange.close _)), rfl⟩
  | flush name =>
    obtain ⟨hchannel, hexchange⟩ := h.exchange.resolve hboards name
    simp only [Stage.activate, Store.run_bind, Store.run_modify, hchannel]
    exact ⟨.intro _ (h.with_exchange (hexchange.flush _)), rfl⟩
  | unit u => cases hb
  | _ => exact ⟨.intro _ h, rfl⟩

end Activation

theorem Stores.stopping {Q : Berths} {M : Memories} (h : π.Stores V Q M s t) (w : Wire H)
    (g : Guise) :
    t.stopping (w.inGuise g) = s.stopping w := by
  rw [Store.stopping, Store.stopping, h.run]
  rfl

theorem agrees_completeIteration (h : π.Runs B s t) (i : Id .wire) :
    Agrees (π.Runs B) (s.eval (Store.completeIteration i)) (t.eval (Store.completeIteration i)) := by
  rw [Store.eval_completeIteration, Store.eval_completeIteration]
  cases hw : s.wires.get? i with
  | none => rw [h.get?_none hw]; exact .intro _ h
  | some w =>
    obtain ⟨w', hw', hpair⟩ := h.get?_some hw
    have hlooped := hpair.looped
    obtain ⟨g, rfl⟩ := hpair.guise
    rw [hw']
    dsimp only
    rw [h.stopping, hlooped]
    have hsame : ∀ f : Wire H → Wire H, (∀ w g, f (w.inGuise g) = (f w).inGuise g) →
        (∀ w, (f w).stages = w.stages) → π.Runs B (s.modifyWire i f) (t.modifyWire i f) :=
      fun f hf hstages => h.modifyWire i hf fun w _ _ => by rw [hstages]
    split
    · exact .intro _ (hsame _ (by intros; rfl) (by intros; rfl))
    · split
      · exact .intro _ ((hsame _ (by intros; rfl) (by intros; rfl)).suspended i 0 .yield)
      · exact .intro _ (hsame _ (by intros; rfl) (by intros; rfl))

/-- The progress of a run that did not fail, or failed in a stage. -/
def Blamed (a : Except Halt Progress) : Prop := ∀ f, a = .ok (.failed f) → f.stage ≠ ""

theorem blamed_completeIteration (i : Id .wire) (s : Store H) :
    Blamed (s.eval (Store.completeIteration i)).1 := by
  rw [Store.eval_completeIteration]
  intro f hf
  split at hf
  · cases hf
  · split at hf
    · cases hf
    · split at hf <;> cases hf

theorem agrees_advance (hi : i ∈ π.members) {resume : Id .wire → Exec H Progress}
    (hn : ∀ j ∈ π.members, ∀ s t, π.Runs B s t →
      Agrees (π.Runs B) (s.eval (resume j)) (t.eval (resume j))) (n remaining : Nat)
    (h : π.Runs B s t) :
    Agrees (π.Runs B) (s.eval (Store.advance resume i n remaining))
        (t.eval (Store.advance resume i n remaining)) ∧
      Blamed (s.eval (Store.advance resume i n remaining)).1 := by
  induction remaining generalizing n s t with
  | zero => exact ⟨agrees_completeIteration h i, blamed_completeIteration i s⟩
  | succ remaining ih =>
    rw [Store.eval_advance_succ, Store.eval_advance_succ, h.placedAt?]
    cases hw : s.wires.get? i with
    | none =>
      rw [h.get?_none hw]
      exact ⟨agrees_completeIteration h i, blamed_completeIteration i s⟩
    | some w =>
      obtain ⟨w', hw', hpair⟩ := h.get?_some hw
      have hboards := hpair.berth.1 hi
      obtain ⟨g, rfl⟩ := hpair.guise
      rw [hw']
      cases hp : s.placedAt? i n with
      | none => exact ⟨agrees_completeIteration h i, blamed_completeIteration i s⟩
      | some p =>
        have hat := h.kin_of_placedAt? hi hp
        have hmem := List.mem_of_getElem? hat
        have hbuilt := π.builtIn i hi _ hmem
        have hcurrent : ∀ {s t : Store H}, π.Runs B s t → ∀ v, π.Runs B
            (s.modifyWire i fun w => { w with current := v })
            (t.modifyWire i fun w => { w with current := v }) := fun h v =>
          h.modifyWire i (fun _ _ => rfl) fun _ _ _ => rfl
        dsimp only
        rw [h.stopping]
        split
        · exact ⟨.intro _ (h.modifyWire i (fun _ _ => rfl) fun _ _ _ => rfl),
            by rintro f ⟨⟩⟩
        · rw [Store.eval_activateAt, Store.eval_activateAt]
          obtain ⟨hstage, hkin⟩ := agrees_stage_activate h (w.inGuise g) (w := w) rfl hboards
            hbuilt (fun j hj => hn j (π.closed i hi _ hmem j hj)) w.current
          revert hkin
          refine hstage.elim fun step s t h hkin => ?_
          have hset := h.setStage (j := i) step.stage fun _ => by rw [hat, hkin]
          dsimp only
          rcases step.answer with halt | e | activation
          · exact ⟨.intro _ hset, by rintro f ⟨⟩⟩
          · refine ⟨.intro _ (hset.record _ _ _ _), ?_⟩
            rintro f ⟨⟩
            exact Stage.name_ne_empty hbuilt
          · have hrecorded := hset.record w.collector g.collector
              ⟨w.name, step.stage.name, n, w.iteration, Store.traceEnd (.ok activation)⟩
              ⟨w.name, step.stage.name, n, w.iteration, Store.traceEnd (.ok activation)⟩
            cases activation with
            | proceed output => exact ih (n + 1) (hcurrent hrecorded output)
            | suspend point =>
              exact ⟨.intro _ (hrecorded.suspended i n point), by rintro f ⟨⟩⟩
            | finish output =>
              exact ⟨agrees_completeIteration (hcurrent hrecorded output) i,
                blamed_completeIteration i _⟩
            | stop output => exact ⟨.intro _ hrecorded, by rintro f ⟨⟩⟩

theorem agrees_resumeWithin (hi : i ∈ π.members) (h : π.Runs B s t) :
    Agrees (π.Runs B) (s.eval (Store.resumeWithin depth i)) (t.eval (Store.resumeWithin depth i)) ∧
      Blamed (s.eval (Store.resumeWithin depth i)).1 := by
  induction depth generalizing i s t with
  | zero => exact ⟨.intro _ h, by rintro f ⟨⟩⟩
  | succ depth ih =>
    rw [Store.resumeWithin]
    simp only [Store.eval_bind, Store.eval_get]
    cases hw : s.wires.get? i with
    | none =>
      rw [h.get?_none hw]
      exact ⟨.intro _ h, by rintro f ⟨⟩⟩
    | some w =>
      obtain ⟨w', hw', hpair⟩ := h.get?_some hw
      obtain ⟨g, rfl⟩ := hpair.guise
      rw [hw']
      simp only [Store.eval_bind, Store.eval_takeUp, Wire.inGuise]
      cases w.cursor.position? with
      | none => exact ⟨.intro _ h, by rintro f ⟨⟩⟩
      | some n =>
        exact agrees_advance hi (fun j hj s t h => (ih hj h).1) n _ (h.takenUp i w g)

theorem agrees_resume (hi : i ∈ π.members) (h : π.Runs B s t) :
    Agrees (π.Runs B) (s.eval (Store.resume i)) (t.eval (Store.resume i)) ∧
      Blamed (s.eval (Store.resume i)).1 := by
  rw [Store.eval_resume, Store.eval_resume, h.size_eq]
  exact agrees_resumeWithin _ hi h

/-! ### Whole runs -/

/-- The scopes of a run and of its image are the next ones that will be made. The image's is made
inside another, empty one. -/
structure Unopened (π : Mirror) (p : Id .scope) (v v' : Variables) : Prop where
  slots : v'.slots = v.slots
  scope : v.scopes.next = π.scope
  scope' : v'.scopes.next = π.scope'
  known : p.row < v'.scopes.size
  empty : v'.scope p = {}

theorem Unopened.addScope (h : π.Unopened p v v') :
    π.Scopes (v.addScope none).2 (v'.addScope (some p)).2 := by
  have hnew : (v.addScope none).2.scopes.get? π.scope = some {} := by
    rw [← h.scope]
    exact Table.get?_push_next ..
  have hnew' : (v'.addScope (some p)).2.scopes.get? π.scope' = some { parent := some p } := by
    rw [← h.scope']
    exact Table.get?_push_next ..
  have hold : (v'.addScope (some p)).2.scope p = v'.scope p := by
    rw [Variables.scope, Variables.scope]
    exact congrArg (Option.getD · ({} : Scope)) (Table.get?_push_of_lt _ _ h.known)
  refine ⟨h.slots, ?_, ?_, fun q hq => ?_, ⟨_, hnew⟩, ⟨_, hnew'⟩⟩
  · rw [Variables.scope, Variables.scope, hnew, hnew']
    rfl
  · rw [Variables.scope, hnew]
    rfl
  · rw [Variables.scope, hnew'] at hq
    obtain rfl : p = q := Option.some.inj hq
    refine ⟨fun heq => ?_, hold.trans h.empty⟩
    rw [← h.scope'] at heq
    exact absurd h.known (heq ▸ Nat.lt_irrefl _)

/-- A run begins, and so does its image. -/
theorem agrees_beginRun {Q : Berths} (hroot : π.root ∈ π.members)
    (h : π.Stores (π.Unopened p) Q Made s t)
    (hQ : ∀ j ≠ π.root, ∀ p p', Q j p p' → π.Moored B j p p') (hw : s.wires.get? π.root = some w)
    (hcomposed : w.composed.isNone = false) (input : Value) :
    Agrees (π.Runs (insert π.root B)) (s.eval (Store.beginRun π.root input none π.board))
      (t.eval (Store.beginRun π.root input (some p) π.board')) := by
  have hrun : π.Stores (π.Unopened p) Q Made
      (s.modifyWire π.root fun w => { w with run := s.runs.next })
      (t.modifyWire π.root fun w => { w with run := t.runs.next }) := by
    rw [h.runs]
    exact h.modifyWire π.root (fun _ _ => rfl) fun _ _ _ => rfl
  have hready : π.Stores π.Scopes Q Made (s.readied π.root none).2 (t.readied π.root (some p)).2 :=
    ⟨hrun.size, hrun.size', hrun.wires, h.vars.addScope, h.exchange, congrArg (·.push {}) h.runs,
      h.heap⟩
  have hscope : (s.readied π.root none).1 = π.scope := h.vars.scope
  have hscope' : (t.readied π.root (some p)).1 = π.scope' := h.vars.scope'
  have hw₁ : (s.readied π.root none).2.wires.get? π.root = some { w with run := s.runs.next } := by
    change (s.modifyWire π.root _).wires.get? π.root = _
    rw [Store.get?_modifyWire_self, hw, Option.map_some]
  rw [Store.eval_beginRun, Store.eval_beginRun, hready.depthBound, hscope, hscope']
  refine (agrees_warmupWithin_succ hroot hready hQ hw₁ hcomposed input
    fun j hj input s t h => agrees_warmupWithin _ hj input h).elim fun a s t h => ?_
  rcases a with halt | e | _
  · exact .intro _ h
  · exact .intro _ (h.conclude π.root _)
  · exact .intro _ (h.start π.root input)

theorem agrees_endRun (hi : i ∈ π.members) (h : π.Runs B s t) (outcome : Outcome) :
    Agrees (π.Runs B) (s.eval (Store.endRun i outcome)) (t.eval (Store.endRun i outcome)) := by
  rw [Store.endRun, Store.eval_bind, Store.eval_bind]
  refine (agrees_cleanup outcome.output hi h).elim fun a s t h => ?_
  cases a with
  | error halt => exact .intro _ h
  | ok _ => exact .intro _ (h.conclude i outcome)

/-- A run is driven to its end, and so is its image. If it fails, then in a stage. -/
theorem agrees_driveToEnd (hi : i ∈ π.members) (limit : Nat) (h : π.Runs B s t) :
    Agrees (π.Runs B) (s.eval (Store.driveToEnd i limit)) (t.eval (Store.driveToEnd i limit)) ∧
      ∀ f, (s.eval (Store.driveToEnd i limit)).1 = .ok (.failed f) → f.stage ≠ "" := by
  induction limit generalizing s t with
  | zero => exact ⟨.intro _ h, by rintro f ⟨⟩⟩
  | succ limit ih =>
    rw [Store.driveToEnd, Store.eval_bind, Store.eval_bind]
    obtain ⟨hresume, hblamed⟩ := agrees_resume hi h
    revert hblamed
    refine hresume.elim fun a s t h hblamed => ?_
    rcases a with halt | point | output | failure
    · exact ⟨.intro _ h, by rintro f ⟨⟩⟩
    · exact ih h
    · exact ⟨.intro _ h, by rintro f ⟨⟩⟩
    · exact ⟨.intro _ h, by rintro f ⟨⟩; exact hblamed _ rfl⟩

end Mirror

end Dataflow
