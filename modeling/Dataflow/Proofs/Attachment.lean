import Dataflow.Proofs.Evaluation
import Dataflow.Proofs.Uses
/-!
# Channels are found again

A stage that sends or receives resolves its channel twice: when it is composed, which may be the
first that is heard of the channel, and when it is warmed up. In between others resolve names on the
same board. What a name stands for does not change any more, and what is declared of it only becomes
more definite, so the stage finds the channel that it found before. It is refused in one case only:
its own composition decided the type of the channel, and the type does not take itself.
-/

namespace Dataflow

variable {noCopy : Bool} {f : Id .fan} {n : String} {e : ComposeError}

namespace Exchange

variable {x x' : Exchange} {b : Id .board} {name : String} {ty : Ty} {u : Use} {c : Channel}
  {uses : List Use}

/-! ### What names stand for -/

/-- The channel that a name was resolved to is there. -/
theorem there_use (hx : x.Stocked u.board) (h : (x.use u).1 = .ok c) :
    ((x.use u).2.header? c).isSome = true := by
  have hused := x.used_use u
  rw [h] at hused
  obtain ⟨hc, hne⟩ := hused.channel_eq hx.there
  have hx' : (x.use u).2.Stocked u.board := (hused.grows hx).1
  have hthere := hx'.channels u.name (by rwa [hc])
  rwa [hc] at hthere

/-- A fan that is there knows who subscribes. -/
theorem known_subscribe (h : (x.header? (.fan f)).isSome = true) :
    ∃ id fan, (x.subscribe f).1 = some id ∧ (x.subscribe f).2.fans.get? f = some fan ∧
      id ∈ fan.subscribers ∧ (x.subscribe f).2.boards = x.boards := by
  obtain ⟨header, hheader⟩ := Option.isSome_iff_exists.1 h
  obtain ⟨fan, hfan, -⟩ := Option.map_eq_some_iff.1 hheader
  simp only [subscribe, hfan]
  refine ⟨_, (fan.subscribe x.queues).2.1, rfl, ?_, ?_, trivial⟩
  · rw [Table.set, Table.get?_modify_self, hfan]
    rfl
  · exact List.mem_append_right _ List.mem_cons_self

theorem Used.channel_kept {isFan : Bool} {answer : Except ComposeError Channel}
    (h : Used b name isFan ty x answer x') {board : Id .board} (hx : x.Stocked board)
    (hn : (x.board board).channel n ≠ .placeholder) :
    (x'.board board).channel n = (x.board board).channel n := by
  cases h with
  | refused | dangling => rfl
  | opened hc hfan hboards hty hopened hkept =>
    rcases channel_of_bind hboards hx.there n with ⟨rfl, rfl, -⟩ | ⟨-, hsame⟩
    · exact absurd hc hn
    · exact hsame
  | agreed hc hfan hheader hverify hboards hheader' hkept =>
    rw [Exchange.board, Exchange.board, hboards]

/-- What a name stands for does not change any more. -/
theorem channel_runAll {board : Id .board} (hx : x.Stocked board)
    (hn : (x.board board).channel n ≠ .placeholder) (uses : List Use) :
    ((runAll use uses x).2.board board).channel n = (x.board board).channel n := by
  induction uses generalizing x with
  | nil => rfl
  | cons u uses ih =>
    have hused := x.used_use u
    have hkept := hused.channel_kept hx hn
    rw [runAll_cons, ih (hused.grows hx).1 (by rwa [hkept]), hkept]

/-! ### Resolving a name again -/

/-- A use is lasting unless it is the one to decide the type, and the type does not take itself. -/
def Lasting (x : Exchange) (u : Use) : Prop :=
  Declaration.Undecided (x.declared? u.board u.name) → u.ty = .nothing ∨ u.ty.accepts u.ty = true

/-- A use that was accepted finds the same channel again, after any other uses, if it is lasting,
and is refused otherwise. -/
theorem use_again (hx : x.Stocked u.board) (h : (x.use u).1 = .ok c) (uses : List Use) :
    let y := (runAll use uses (x.use u).2).2
    (x.Lasting u → (y.use u).1 = .ok c ∧ ((y.use u).2.board u.board).channel u.name = c) ∧
      (¬ x.Lasting u → ∃ reason, (y.use u).1 = .error (.channel u.name reason)) := by
  intro y
  have hused := x.used_use u
  rw [h] at hused
  have hx₁ : (x.use u).2.Stocked u.board := (hused.grows hx).1
  obtain ⟨hc, hne⟩ := hused.channel_eq hx.there
  have hy : y.Stocked u.board := ((x.use u).2.grows_runAll u.board uses hx₁).1
  have hyc : (y.board u.board).channel u.name = c := by
    rw [channel_runAll hx₁ (by rwa [hc]) uses, hc]
  -- `d` is what the use has left declared, and `e` what the others have made of it
  obtain ⟨d, hagree, hd⟩ := hused.accepted hx
  obtain ⟨e, he, hde⟩ := ((x.use u).2.grows_runAll u.board uses hx₁).2 u.name d hd
  have hused' := y.used_use u
  refine ⟨fun hlasting => ?_, fun hlasting => ?_⟩
  · obtain ⟨c', hanswer⟩ := (hused'.settled he (Declaration.agree_again hagree hde hlasting)).1
    have hkept := (hused'.channel_kept hy (by rwa [hyc])).trans hyc
    rw [hanswer] at hused'
    obtain rfl : c' = c := (hused'.channel_eq hy.there).1.symm.trans hkept
    exact ⟨hanswer, hkept⟩
  · cases hanswer : (y.use u).1 with
    | error e =>
      rw [hanswer] at hused'
      obtain ⟨⟨reason, rfl⟩, -⟩ := hused'.error
      exact ⟨reason, rfl⟩
    | ok c' =>
      -- being accepted now, it must have been lasting
      rw [hanswer] at hused'
      obtain ⟨f, hagree', -⟩ := hused'.accepted hy
      rw [he] at hagree'
      exact absurd (fun hopen => Declaration.self_of_agree hagree hopen hde hagree') hlasting

end Exchange

/-! ### Stages -/

variable {H : Host}

namespace Stage

/-- A stage sends to a channel or receives from it. A listener receives from a queue of its own that
the fan knows. -/
def AttachedTo (c : Channel) (x : Exchange) : Stage H → Prop
  | produce _ queue | consume _ queue => queue.map .queue = some c
  | broadcast _ fan => fan.map .fan = some c
  | listen _ queue => ∃ id fan f, queue = some id ∧ c = .fan fan ∧ x.fans.get? fan = some f ∧
      id ∈ f.subscribers
  | _ => False

variable {stage stage' : Stage H} {site : Site} {s s' : Store H} {ty : Ty} {c : Channel} {u : Use}
  {wire : Wire H}

/-- A stage that composes has resolved its channel as it will when it is warmed up. -/
theorem use_of_compose (hstage : (stage.use? site.board).isSome = true)
    (h : (stage.compose site).run s = ((stage', .ok ty), s')) :
    ∃ u c, stage'.use? site.board = some u ∧ s.exchange.use u = (.ok c, s'.exchange) := by
  obtain ⟨hb, hhook⟩ : stage.isBuiltIn = true ∧ stage.capabilities.compose = true := by
    cases stage <;> first | exact ⟨rfl, rfl⟩ | cases hstage
  cases composes_of_run hb h with
  | channel hclaim hu huse => exact ⟨_, _, hu, huse⟩
  | idle _ hnone =>
    rw [hhook] at hnone
    cases hnone
  | _ => cases hstage

section Resolve

variable {b : Id .board} {name : String}

theorem run_warmupQueue (h : (s.exchange.use ⟨b, name, false, ty, noCopy⟩).1 = .ok c) :
    ∃ q, c = .queue q ∧ (warmupChannel (·.initQueue b name ty noCopy)).run s =
      (.ok q, { s with exchange := (s.exchange.use ⟨b, name, false, ty, noCopy⟩).2 }) := by
  simp only [Exchange.use, Bool.false_eq_true, if_false] at h ⊢
  simp only [warmupChannel, Store.run_modifyGetThe]
  generalize s.exchange.initQueue b name ty noCopy = resolved at h ⊢
  obtain ⟨_ | q, x⟩ := resolved <;> cases h
  exact ⟨q, rfl, rfl⟩

theorem run_warmupFan (h : (s.exchange.use ⟨b, name, true, ty, noCopy⟩).1 = .ok c) :
    ∃ f, c = .fan f ∧ (warmupChannel (·.initFan b name ty noCopy)).run s =
      (.ok f, { s with exchange := (s.exchange.use ⟨b, name, true, ty, noCopy⟩).2 }) := by
  simp only [Exchange.use, if_true] at h ⊢
  simp only [warmupChannel, Store.run_modifyGetThe]
  generalize s.exchange.initFan b name ty noCopy = resolved at h ⊢
  obtain ⟨_ | f, x⟩ := resolved <;> cases h
  exact ⟨f, rfl, rfl⟩

theorem run_warmupQueue_error (h : (s.exchange.use ⟨b, name, false, ty, noCopy⟩).1 = .error e) :
    ((warmupChannel (·.initQueue b name ty noCopy)).run s).1 = .error (.failed e.message) := by
  simp only [Exchange.use, Bool.false_eq_true, if_false] at h
  simp only [warmupChannel, Store.run_modifyGetThe]
  generalize s.exchange.initQueue b name ty noCopy = resolved at h ⊢
  obtain ⟨_ | q, x⟩ := resolved <;> cases h
  rfl

theorem run_warmupFan_error (h : (s.exchange.use ⟨b, name, true, ty, noCopy⟩).1 = .error e) :
    ((warmupChannel (·.initFan b name ty noCopy)).run s).1 = .error (.failed e.message) := by
  simp only [Exchange.use, if_true] at h
  simp only [warmupChannel, Store.run_modifyGetThe]
  generalize s.exchange.initFan b name ty noCopy = resolved at h ⊢
  obtain ⟨_ | f, x⟩ := resolved <;> cases h
  rfl

end Resolve

/-- A stage that is refused its channel does not warm up. -/
theorem warmup_of_error (nested : NestedWarmup H) (hu : stage.use? wire.board = some u)
    (h : (s.exchange.use u).1 = .error e) :
    ((stage.warmup nested wire).run s).1.answer = .ok (.error (.failed e.message)) := by
  cases stage with
  | produce sender queue | consume r queue =>
    cases hu
    simp only [warmup, Store.run_bind, run_warmupQueue_error h]
    rfl
  | broadcast sender fan | listen r queue =>
    cases hu
    simp only [warmup, Store.run_bind, run_warmupFan_error h]
    rfl
  | _ => cases hu

/-- A stage that gets a channel warms up, and is attached to it. -/
theorem warmup_of_ok (nested : NestedWarmup H) (hu : stage.use? wire.board = some u)
    (h : (s.exchange.use u).1 = .ok c) (hthere : ((s.exchange.use u).2.header? c).isSome = true) :
    let step := (stage.warmup nested wire).run s
    step.1.answer = .ok (.ok ()) ∧ step.1.stage.AttachedTo c step.2.exchange ∧
      step.2.exchange.boards = (s.exchange.use u).2.boards := by
  cases stage with
  | produce sender queue | consume r queue =>
    cases hu
    obtain ⟨q, rfl, hrun⟩ := run_warmupQueue h
    simp only [warmup, Store.run_bind, hrun]
    exact ⟨rfl, rfl, rfl⟩
  | broadcast sender fan =>
    cases hu
    obtain ⟨f, rfl, hrun⟩ := run_warmupFan h
    simp only [warmup, Store.run_bind, hrun]
    exact ⟨rfl, rfl, rfl⟩
  | listen r queue =>
    cases hu
    obtain ⟨f, rfl, hrun⟩ := run_warmupFan h
    obtain ⟨id, fan, hid, hfan, hmem, hboards⟩ := Exchange.known_subscribe hthere
    simp only [warmup, Store.run_bind, hrun, Store.run_getThe, Store.run_modify]
    exact ⟨rfl, ⟨id, f, fan, hid, rfl, hfan, hmem⟩, hboards⟩
  | _ => cases hu

/-- A channel is found again. If the compose hook of a stage that sends to or receives from a
channel succeeds on a board, and later, after any other uses of names, the stage is warmed up on the
same board, then it is attached to the channel that the name was resolved to when it was composed,
and the name still stands for that channel, provided that the use is lasting. Otherwise warming up
fails on account of the channel. -/
theorem reattached {s₁ s₂ : Store H} (hs : s.exchange.Stocked site.board)
    (hstage : (stage.use? site.board).isSome = true)
    (hcompose : (stage.compose site).run s = ((stage', .ok ty), s₁)) (uses : List Use)
    (hlater : s₂.exchange = (runAll Exchange.use uses s₁.exchange).2)
    (hwire : wire.board = site.board) (nested : NestedWarmup H) :
    let step := (stage'.warmup nested wire).run s₂
    ∃ u c, stage'.use? site.board = some u ∧ s.exchange.use u = (.ok c, s₁.exchange) ∧
      (s.exchange.Lasting u → step.1.answer = .ok (.ok ()) ∧
        step.1.stage.AttachedTo c step.2.exchange ∧
        (step.2.exchange.board site.board).channel u.name = c) ∧
      (¬ s.exchange.Lasting u → ∃ reason, step.1.answer =
        .ok (.error (.failed (ComposeError.channel u.name reason).message))) := by
  intro step
  obtain ⟨u, c, hu, huse⟩ := use_of_compose hstage hcompose
  refine ⟨u, c, hu, huse, ?_⟩
  rw [← board_of_use? hu] at hs ⊢
  rw [← hwire] at hu
  have hs₁ : s₁.exchange = (s.exchange.use u).2 := by rw [huse]
  rw [hs₁] at hlater
  have hs₂ : s₂.exchange.Stocked u.board := by
    rw [hlater]
    exact (((s.exchange.used_use u).grows.trans (Exchange.grows_runAll _ _ uses)) hs).1
  have hagain := Exchange.use_again hs (congrArg Prod.fst huse) uses
  rw [← hlater] at hagain
  refine ⟨fun hlasting => ?_, fun hlasting => ?_⟩
  · obtain ⟨hanswer, hchannel⟩ := hagain.1 hlasting
    obtain ⟨hok, hattached, hboards⟩ :=
      warmup_of_ok nested hu hanswer (Exchange.there_use hs₂ hanswer)
    refine ⟨hok, hattached, ?_⟩
    rwa [Exchange.board, hboards]
  · obtain ⟨reason, hanswer⟩ := hagain.2 hlasting
    exact ⟨reason, warmup_of_error nested hu hanswer⟩

/-- A store with a board on which there is nothing yet. -/
def quiet : Store Host.none := { exchange := Exchange.vacant }

/-- A wire that uses the board. -/
def quietWire : Wire Host.none := { name := "w", scope := ⟨0⟩, board := ⟨0⟩, run := ⟨0⟩ }

/-- Where its first stage is composed. -/
def quietSite : Site := { input := .nothing, wireInput := .nothing, board := ⟨0⟩ }

/-- Why an action failed. -/
def failure? : Except Halt (Except ActivationError PUnit) → Option ActivationError
  | .ok (.error e) => some e
  | _ => none

/-- A receiver of references to integers or floats, which is the first to speak of its channel. -/
def fickle : Stage Host.none := .consume { name := "c", ty := .ref [.int, .float] } none

/-- The stage composes, and is refused its own channel when it is warmed up. -/
theorem fickle_not_reattached :
    let composed := (fickle.compose quietSite).run quiet
    let step := (composed.1.1.warmup (fun _ _ _ _ => pure (.ok ())) quietWire).run composed.2
    quiet.exchange.Stocked ⟨0⟩ ∧ composed.1.2.toOption = some (.ref [.int, .float]) ∧
      failure? step.1.answer =
        some (.failed "Channel c: declared as &(Int Float), used as &(Int Float)") :=
  ⟨Exchange.stocked_vacant, by decide +kernel, by decide +kernel⟩

/-- A listener to strings. -/
def steady : Stage Host.none := .listen { name := "c", ty := .string } none

/-- The stage finds its fan again after others have used the board. -/
theorem steady_reattached :
    let composed := (steady.compose quietSite).run quiet
    let uses : List Use := [⟨⟨0⟩, "c", true, .any, false⟩, ⟨⟨0⟩, "d", false, .int, false⟩]
    let later : Store Host.none :=
      { composed.2 with exchange := (runAll Exchange.use uses composed.2.exchange).2 }
    let step := (composed.1.1.warmup (fun _ _ _ _ => pure (.ok ())) quietWire).run later
    step.1.answer = .ok (.ok ()) ∧ step.1.stage.AttachedTo (.fan ⟨0⟩) step.2.exchange := by
  intro composed uses later step
  have hcompose : (steady.compose quietSite).run quiet =
      ((composed.1.1, .ok .string), composed.2) := rfl
  have hlater : later.exchange = (runAll Exchange.use uses composed.2.exchange).2 := rfl
  have hwire : quietWire.board = quietSite.board := rfl
  obtain ⟨u, c, hu, huse, hlasting, -⟩ :=
    reattached Exchange.stocked_vacant rfl hcompose uses hlater hwire fun _ _ _ _ => pure (.ok ())
  obtain rfl : u = ⟨⟨0⟩, "c", true, .string, false⟩ := (Option.some.inj hu).symm
  obtain rfl : c = .fan ⟨0⟩ := by
    cases huse
    rfl
  obtain ⟨hok, hattached, -⟩ := hlasting fun _ => .inr rfl
  exact ⟨hok, hattached⟩

end Stage

end Dataflow
