import Dataflow.Proofs.Declarations
import Dataflow.Proofs.Matching
import Dataflow.Proofs.Queues
/-!
# Users of one channel

Stages of many wires resolve the same channel name, some to send and some to receive. Each of them
is compared with the one declaration of the name only, and in either direction: it may know more
about the type than the declaration does, or less. So two users of a channel need not agree with
each other. What they all agree with is the declaration, which does not change any more once there
is a type in it. If the sender's type is taken by the declared type and the receiver takes that one
in turn, then the receiver takes what the sender sends, unless the declared type has gaps.
-/

namespace Dataflow

namespace Exchange

/-- The uses along a run that were not refused. -/
def accepted : List Use → Exchange → List Use
  | [], _ => []
  | u :: uses, x =>
    if (x.use u).1.isOk then u :: accepted uses (x.use u).2 else accepted uses (x.use u).2

/-- Those along a run who use a channel name and know a type. -/
def users (board : Id .board) (name : String) (uses : List Use) (x : Exchange) : List Use :=
  (accepted uses x).filter fun u => u.board = board ∧ u.name = name ∧ u.ty ≠ .nothing

variable {x : Exchange} {board : Id .board} {name : String} {u : Use} {uses : List Use}
  {d : Declaration}

theorem grows_runAll (x : Exchange) (board : Id .board) (uses : List Use) :
    Grows board x (runAll use uses x).2 := by
  induction uses generalizing x with
  | nil => exact .refl board x
  | cons u uses ih => exact (x.used_use u).grows.trans (ih _)

/-- A declaration that has a type does not change any more. -/
theorem declared?_runAll (hx : x.Stocked board) (hd : x.declared? board name = some d)
    (hne : d.ty ≠ .nothing) (uses : List Use) :
    (runAll use uses x).2.declared? board name = some d := by
  obtain ⟨e, he, hfan, hty⟩ := (x.grows_runAll board uses hx).2 name d hd
  rw [he]
  obtain ⟨isFan, ty⟩ := e
  obtain rfl : isFan = d.isFan := hfan
  obtain rfl : ty = d.ty := hty.resolve_left hne
  rfl

/-- Someone who knows a type and was not refused leaves a declaration whose type agrees. -/
theorem declared?_of_ok {c : Channel} (hx : x.Stocked u.board) (hok : (x.use u).1 = .ok c)
    (hty : u.ty ≠ .nothing) :
    ∃ d, (x.use u).2.declared? u.board u.name = some d ∧ d.isFan = u.isFan ∧ d.ty ≠ .nothing ∧
      (u.ty = d.ty ∨ d.ty.accepts u.ty = true ∨ u.ty.accepts d.ty = true) ∧
      (Declaration.Undecided (x.declared? u.board u.name) → d.ty = u.ty) := by
  have hused := x.used_use u
  rw [hok] at hused
  obtain ⟨d, hagree, hd⟩ := hused.accepted hx
  obtain ⟨hfan, ⟨-, hdecided⟩ | ⟨hbefore, hne, hfits⟩⟩ := Declaration.of_agree hagree
  · exact ⟨d, hd, hfan, by rwa [hdecided], .inl hdecided.symm, fun _ => hdecided⟩
  · refine ⟨d, hd, hfan, hne, .inr ?_, fun hopen => absurd (hopen d hbefore) hne⟩
    have hknown : u.ty.isNothing = false := by
      simpa [← Declaration.isNothing_iff] using hty
    simpa [hknown] using hfits

/-- All who know a type agree with the declaration in the end. -/
theorem agrees_of_accepted (hx : x.Stocked board) (hu : u ∈ accepted uses x)
    (hboard : u.board = board) (hty : u.ty ≠ .nothing) :
    ∃ d, (runAll use uses x).2.declared? board u.name = some d ∧ d.isFan = u.isFan ∧
      d.ty ≠ .nothing ∧
      (u.ty = d.ty ∨ d.ty.accepts u.ty = true ∨ u.ty.accepts d.ty = true) := by
  induction uses generalizing x with
  | nil => cases hu
  | cons u₁ uses ih =>
    have hx₁ : (x.use u₁).2.Stocked board := ((x.used_use u₁).grows hx).1
    rw [accepted] at hu
    cases hanswer : (x.use u₁).1 with
    | error e =>
      rw [hanswer] at hu
      exact ih hx₁ hu
    | ok c =>
      rw [hanswer] at hu
      rcases List.mem_cons.1 hu with rfl | hu
      · subst hboard
        obtain ⟨d, hd, hfan, hne, hagrees, -⟩ := declared?_of_ok hx hanswer hty
        exact ⟨d, declared?_runAll hx₁ hd hne uses, hfan, hne, hagrees⟩
      · exact ih hx₁ hu

/-- On a name that nobody else uses, the first one who knows a type decides it. -/
theorem decided_by_first (hx : x.Stocked board)
    (hown : ∀ u ∈ uses, u.board = board ∧ u.name = name)
    (hopen : Declaration.Undecided (x.declared? board name)) {first : Use} {rest : List Use}
    (husers : users board name uses x = first :: rest)
    (hd : (runAll use uses x).2.declared? board name = some d) : d.ty = first.ty := by
  induction uses generalizing x with
  | nil => cases husers
  | cons u uses ih =>
    have hused := x.used_use u
    have hx₁ : (x.use u).2.Stocked board := (hused.grows hx).1
    obtain ⟨rfl, rfl⟩ := hown u List.mem_cons_self
    have hown' : ∀ u' ∈ uses, u'.board = u.board ∧ u'.name = u.name := fun u' hu' =>
      hown u' (List.mem_cons_of_mem _ hu')
    rw [users, accepted] at husers
    cases hanswer : (x.use u).1 with
    | error e =>
      rw [hanswer] at husers hused
      have hsame : (x.use u).2 = x := hused.error.2
      rw [runAll_cons, hsame] at hd
      rw [hsame] at husers
      exact ih hx hown' hopen husers hd
    | ok c =>
      have hok : (x.use u).1.isOk = true := by
        rw [hanswer]
        rfl
      rw [if_pos hok] at husers
      by_cases hty : u.ty = .nothing
      · -- who knows no type leaves it open
        rw [List.filter_cons_of_neg (by simp [hty])] at husers
        rw [hanswer] at hused
        refine ih hx₁ hown' ?_ husers hd
        obtain ⟨d₁, hagree, hd₁⟩ := hused.accepted hx
        rw [hd₁]
        rintro _ ⟨⟩
        rcases (Declaration.of_agree hagree).2 with ⟨-, hdecided⟩ | ⟨hbefore, -⟩
        · exact hdecided.trans hty
        · exact hopen d₁ hbefore
      · rw [List.filter_cons_of_pos (by simp [hty])] at husers
        obtain ⟨rfl, -⟩ := List.cons.inj husers
        obtain ⟨d₁, hd₁, -, hne, -, hdecided⟩ := declared?_of_ok hx hanswer hty
        rw [runAll_cons, declared?_runAll hx₁ hd₁ hne uses] at hd
        cases hd
        exact hdecided hopen

/-- All users of a channel agree with its declaration. Resolve a name any number of times, among any
uses of other names, and take those who know a type and were not refused. The name is then declared
with a type that does not change any more, and if the name was new and nothing else was used, it is
the type of the first of them. The types of all of them are the declared one, are taken by it or
take it. A receiver that takes the declared type takes what a sender sends whose type is taken by the
declared type, provided that this one is definite. If the declared type is one that takes only
itself, every receiver takes what every sender sends, except for senders of anything. -/
theorem users_agree (hx : x.Stocked board) (name : String) (uses : List Use) (first : Use)
    (rest : List Use) (husers : users board name uses x = first :: rest) :
    let y := (runAll use uses x).2
    ∃ d, y.declared? board name = some d ∧
      (∀ later, (runAll use later y).2.declared? board name = some d) ∧
      (x.declared? board name = none → (∀ u ∈ uses, u.board = board ∧ u.name = name) →
        d.ty = first.ty) ∧
      (∀ u ∈ users board name uses x, u.isFan = d.isFan ∧
        (u.ty = d.ty ∨ d.ty.accepts u.ty = true ∨ u.ty.accepts d.ty = true)) ∧
      (d.ty.isDefinite = true →
        ∀ s ∈ users board name uses x, ∀ r ∈ users board name uses x, s.ty.isPaired = true →
          (s.ty = d.ty ∨ d.ty.accepts s.ty = true) → (r.ty = d.ty ∨ r.ty.accepts d.ty = true) →
            r.ty = s.ty ∨ r.ty.accepts s.ty = true) ∧
      (d.ty.isAtomic = true →
        ∀ s ∈ users board name uses x, ∀ r ∈ users board name uses x, s.ty ≠ .any →
          r.ty.accepts s.ty = true) := by
  intro y
  have hy : y.Stocked board := (x.grows_runAll board uses hx).1
  have husers' : ∀ u ∈ users board name uses x, ∃ d, y.declared? board name = some d ∧
      d.isFan = u.isFan ∧ d.ty ≠ .nothing ∧
      (u.ty = d.ty ∨ d.ty.accepts u.ty = true ∨ u.ty.accepts d.ty = true) := by
    intro u hu
    obtain ⟨haccepted, hself⟩ := List.mem_filter.1 hu
    obtain ⟨hboard, rfl, hty⟩ := of_decide_eq_true hself
    exact agrees_of_accepted hx haccepted hboard hty
  obtain ⟨d, hd, -, hne, -⟩ := husers' first (by rw [husers]; exact List.mem_cons_self)
  have hagree : ∀ u ∈ users board name uses x, u.isFan = d.isFan ∧
      (u.ty = d.ty ∨ d.ty.accepts u.ty = true ∨ u.ty.accepts d.ty = true) := by
    intro u hu
    obtain ⟨d', hd', hfan, -, hagree⟩ := husers' u hu
    obtain rfl : d = d' := Option.some.inj (hd.symm.trans hd')
    exact ⟨hfan.symm, hagree⟩
  refine ⟨d, hd, declared?_runAll hy hd hne, fun hnew hown => ?_, hagree, ?_, ?_⟩
  · exact decided_by_first hx hown (by rw [hnew]; exact nofun) husers hd
  · intro hdefinite s _ r _ hpaired hs hr
    -- matching goes through the declared type, unless one of the two types is that type
    rcases hs with hs | hs
    · rw [hs]
      exact hr
    · rcases hr with hr | hr
      · rw [hr]
        exact .inr hs
      · exact .inr (Ty.accepts_trans d.ty r.ty s.ty hdefinite hpaired hr hs)
  · -- a sender that agrees with such a type sends just that, or anything
    intro hatomic s hs r hr hany
    have hsender : s.ty = d.ty := by
      rcases (hagree s hs).2 with h | h | h
      · exact h
      · exact Ty.eq_of_isAtomic hatomic h
      · exact ((Ty.accepts_isAtomic_iff hatomic).1 h).resolve_left hany
    rw [hsender, Ty.accepts_isAtomic_iff hatomic]
    rcases (hagree r hr).2 with h | h | h
    · exact .inr h
    · exact .inr (Ty.eq_of_isAtomic hatomic h)
    · exact (Ty.accepts_isAtomic_iff hatomic).1 h

/-- A board without names. -/
def vacant : Exchange := { boards := Table.empty.push ⟨8, []⟩ }

theorem stocked_vacant : vacant.Stocked ⟨0⟩ := by
  refine ⟨rfl, fun name hname => absurd ?_ hname⟩
  rfl

/-- A receiver of anything, a sender of integers and a receiver of strings. -/
def parley : List Use :=
  [⟨⟨0⟩, "c", false, .any, false⟩, ⟨⟨0⟩, "c", false, .int, false⟩,
    ⟨⟨0⟩, "c", false, .string, false⟩]

theorem parley_disagrees : vacant.Stocked ⟨0⟩ ∧ accepted parley vacant = parley ∧
    parley.map (·.ty) = [.any, .int, .string] ∧ Ty.string.accepts .int = false :=
  ⟨stocked_vacant, by decide +kernel, rfl, rfl⟩

/-- A sender of integers and two receivers, one of which takes anything. -/
def accord : List Use :=
  [⟨⟨0⟩, "c", false, .int, false⟩, ⟨⟨0⟩, "c", false, .any, false⟩,
    ⟨⟨0⟩, "c", false, .int, false⟩]

theorem accord_agrees : vacant.Stocked ⟨0⟩ ∧ users ⟨0⟩ "c" accord vacant = accord ∧
    ∃ d, (runAll use accord vacant).2.declared? ⟨0⟩ "c" = some d ∧ d.ty = .int := by
  have husers : users ⟨0⟩ "c" accord vacant = accord := by decide +kernel
  obtain ⟨d, hd, -, hfirst, -⟩ := users_agree stocked_vacant "c" accord _ _ husers
  exact ⟨stocked_vacant, husers, d, hd, hfirst rfl (by decide)⟩

end Exchange

end Dataflow
