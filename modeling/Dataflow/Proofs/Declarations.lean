import Dataflow.Proofs.Composition
import Dataflow.Proofs.Scopes
/-!
# What channels are declared as

The first stage that is composed with a channel name decides whether it is a queue or a fan, and the
first one that knows a type decides the type. From then on the name stays what it is. So all that a
composition does to the channels of a board is to make their declarations more definite, and a use
that was accepted once is accepted again when all declarations have settled, provided that the
settled type takes itself.
-/

namespace Dataflow

variable {H : Host} {c : Channel} {u : Option Declaration} {h : Header} {e : ComposeError}

/-! ### Declarations -/

/-- What a channel name is declared as. -/
structure Declaration where
  isFan : Bool
  ty : Ty
  deriving DecidableEq

namespace Declaration

/-- The declaration after a use of the name, unless the use is refused. -/
def agree (isFan : Bool) (ty : Ty) : Option Declaration → Option Declaration
  | none => some ⟨isFan, ty⟩
  | some d =>
    if d.isFan ≠ isFan then none
    else if d.ty.isNothing then some { d with ty }
    else if ty.isNothing || d.ty.accepts ty || ty.accepts d.ty then some d
    else none

/-- The second declaration is as definite as the first one, and agrees with it. -/
def Settles (d e : Declaration) : Prop := e.isFan = d.isFan ∧ (d.ty = .nothing ∨ e.ty = d.ty)

/-- The declared type, if there is one, takes itself. -/
def Steady (d : Declaration) : Prop := d.ty = .nothing ∨ d.ty.accepts d.ty = true

instance (d : Declaration) : Decidable d.Steady := inferInstanceAs (Decidable (_ ∨ _))

variable {d e f : Declaration} {isFan : Bool} {ty : Ty}

theorem Settles.refl (d : Declaration) : d.Settles d := ⟨rfl, .inr rfl⟩

theorem Settles.trans (h : d.Settles e) (h' : e.Settles f) : d.Settles f := by
  refine ⟨h'.1.trans h.1, ?_⟩
  rcases h.2 with hd | hd
  · exact .inl hd
  · rw [← hd]
    exact h'.2

theorem isNothing_iff {t : Ty} : t.isNothing = true ↔ t = .nothing := by
  cases t <;> simp [Ty.isNothing]

/-- A use makes a declaration more definite. -/
theorem settles_of_agree (h : agree isFan ty (some d) = some e) : d.Settles e := by
  rw [agree] at h
  split_ifs at h with _ hnothing
  · cases h
    exact ⟨rfl, .inl (isNothing_iff.1 hnothing)⟩
  · cases h
    exact .refl _

/-- No type was declared before, so that a use decides it. -/
def Undecided (u : Option Declaration) : Prop := ∀ d, u = some d → d.ty = .nothing

/-- A use that is accepted either decides the type, or agrees with the one that is declared. -/
theorem of_agree (h : agree isFan ty u = some d) :
    d.isFan = isFan ∧ (Undecided u ∧ d.ty = ty ∨ u = some d ∧ d.ty ≠ .nothing ∧
      (ty.isNothing || d.ty.accepts ty || ty.accepts d.ty) = true) := by
  unfold agree at h
  split at h
  · cases h
    exact ⟨rfl, .inl ⟨nofun, rfl⟩⟩
  · rename_i e
    split_ifs at h with hfan hnothing hfits <;> cases h
    · refine ⟨not_not.1 hfan, .inl ⟨fun d hd => ?_, rfl⟩⟩
      rw [← Option.some.inj hd]
      exact isNothing_iff.1 hnothing
    · exact ⟨not_not.1 hfan, .inr ⟨rfl, fun h => hnothing (isNothing_iff.2 h), hfits⟩⟩

/-- A use that was accepted is accepted again, and changes nothing, however definite the declaration
has become, unless it was this use that decided the type, and the type does not take itself. -/
theorem agree_again (h : agree isFan ty u = some d) (hde : d.Settles e)
    (hself : Undecided u → ty = .nothing ∨ ty.accepts ty = true) :
    agree isFan ty (some e) = some e := by
  obtain ⟨hfan, huse⟩ := of_agree h
  rw [agree, if_neg (not_not.2 (hde.1.trans hfan))]
  split_ifs with hnothing hfits
  · -- the type is still open, so the use knew none either
    have he : e.ty = .nothing := isNothing_iff.1 hnothing
    have hd : d.ty = .nothing := hde.2.elim id fun heq => heq ▸ he
    rcases huse with ⟨-, rfl⟩ | ⟨-, hne, -⟩
    · rw [hd, ← he]
    · exact absurd hd hne
  · rfl
  · refine absurd ?_ hfits
    rcases huse with ⟨hopen, rfl⟩ | ⟨-, hne, hfits⟩
    · rcases hself hopen with hty | hty
      · simp [hty, Ty.isNothing]
      · rcases hde.2 with hd | hd
        · simp [hd, Ty.isNothing]
        · rw [hd, hty, Bool.or_true]
    · rwa [hde.2.resolve_left hne]

/-- A use that decided the type and is accepted again knows no type, or one that takes itself. -/
theorem self_of_agree (h : agree isFan ty u = some d) (hopen : Undecided u) (hde : d.Settles e)
    (h' : agree isFan ty (some e) = some f) : ty = .nothing ∨ ty.accepts ty = true := by
  by_cases hty : ty = .nothing
  · exact .inl hty
  have hd : d.ty = ty := by
    rcases (of_agree h).2 with ⟨-, hd⟩ | ⟨hu, hne, -⟩
    · exact hd
    · exact absurd (hopen d hu) hne
  have he : e.ty = ty := by
    rw [← hd] at hty
    exact (hde.2.resolve_left hty).trans hd
  rcases (of_agree h').2 with ⟨hopen', -⟩ | ⟨hef, -, hfits⟩
  · exact absurd (he.symm.trans (hopen' e rfl)) hty
  · rw [← Option.some.inj hef, he] at hfits
    have hknown : ty.isNothing = false := Bool.eq_false_iff.2 fun h => hty (isNothing_iff.1 h)
    exact .inr (by simpa [hknown] using hfits)

/-- A use that was accepted is accepted again, and changes nothing, once the declaration has
settled. -/
theorem agree_settled (h : agree isFan ty u = some d) (hde : d.Settles e) (he : e.Steady) :
    agree isFan ty (some e) = some e := by
  refine agree_again h hde fun hopen => ?_
  rcases (of_agree h).2 with ⟨-, rfl⟩ | ⟨hu, hne, -⟩
  · rcases hde.2 with hd | hd
    · exact .inl hd
    · rw [← hd]
      exact he
  · exact absurd (hopen d hu) hne

end Declaration

theorem Header.error_verify {name : String} {ty : Ty} (herror : h.verify name ty = .error e) :
    ∃ reason, e = .channel name reason := by
  unfold verify at herror
  split_ifs at herror
  cases herror
  exact ⟨_, rfl⟩

/-! ### Names on a board -/

/-- Whether a channel is a fan. -/
def Channel.isFan : Channel → Bool
  | fan _ => true
  | _ => false

namespace Exchange

/-- The header of a channel that is there. -/
def header? (x : Exchange) : Channel → Option Header
  | .placeholder => none
  | .queue id => (x.queues.get? id).map (·.header)
  | .fan id => (x.fans.get? id).map (·.header)

/-- What a name is declared as on a board. -/
def declared? (x : Exchange) (board : Id .board) (name : String) : Option Declaration :=
  let c := (x.board board).channel name
  (x.header? c).map fun h => ⟨c.isFan, h.ty⟩

/-- The board is there, and so are the channels that its names stand for. -/
structure Stocked (x : Exchange) (board : Id .board) : Prop where
  there : (x.boards.get? board).isSome = true
  channels : ∀ name, (x.board board).channel name ≠ .placeholder →
    (x.header? ((x.board board).channel name)).isSome = true

/-- What resolving a name as a channel of some kind does to an exchange, and what it answers. -/
inductive Used (board : Id .board) (name : String) (isFan : Bool) (ty : Ty) (x : Exchange) :
    Except ComposeError Channel → Exchange → Prop where
  /-- The name is declared as something else. -/
  | refused (reason : String) (hc : (x.board board).channel name ≠ .placeholder)
      (h : ∀ d, x.declared? board name = some d → Declaration.agree isFan ty (some d) = none) :
      Used board name isFan ty x (.error (.channel name reason)) x
  /-- The name stands for something that is not there. -/
  | dangling {c : Channel} (hc : (x.board board).channel name = c) (hne : c ≠ .placeholder)
      (h : x.header? c = none) : Used board name isFan ty x (.ok c) x
  /-- The name is new, and so is the channel. -/
  | opened {x' : Exchange} {c : Channel} {h : Header}
      (hc : (x.board board).channel name = .placeholder) (hfan : c.isFan = isFan)
      (hboards : x'.boards = x.boards.modify board (·.bind name c)) (hty : h.ty = ty)
      (hopened : x'.header? c = some h)
      (hkept : ∀ c h, x.header? c = some h → x'.header? c = some h) :
      Used board name isFan ty x (.ok c) x'
  /-- The name is declared, and the use agrees. -/
  | agreed {x' : Exchange} {c : Channel} {h h' : Header} (hc : (x.board board).channel name = c)
      (hfan : c.isFan = isFan) (hheader : x.header? c = some h)
      (hverify : h.verify name ty = .ok h') (hboards : x'.boards = x.boards)
      (hheader' : x'.header? c = some h') (hkept : ∀ d, d ≠ c → x'.header? d = x.header? d) :
      Used board name isFan ty x (.ok c) x'

variable {x x' : Exchange} {board b : Id .board} {name : String} {isFan : Bool} {ty : Ty}

theorem header?_push_queue (x : Exchange) (q : Queue) (hc : x.header? c = some h) :
    { x with queues := x.queues.push q }.header? c = some h := by
  cases c with
  | queue id =>
    obtain ⟨q', hq', rfl⟩ := Option.map_eq_some_iff.1 hc
    have hlt : id.row < x.queues.size := (Array.getElem?_eq_some_iff.1 hq').1
    rw [header?, Table.get?_push_of_lt _ _ hlt, hq', Option.map_some]
  | _ => exact hc

theorem header?_push_fan (x : Exchange) (f : Fan) (hc : x.header? c = some h) :
    { x with fans := x.fans.push f }.header? c = some h := by
  cases c with
  | fan id =>
    obtain ⟨f', hf', rfl⟩ := Option.map_eq_some_iff.1 hc
    have hlt : id.row < x.fans.size := (Array.getElem?_eq_some_iff.1 hf').1
    rw [header?, Table.get?_push_of_lt _ _ hlt, hf', Option.map_some]
  | _ => exact hc

/-- A use of a declared name is accepted if its header accepts it. -/
theorem agree_of_verify (h : Header) (name : String) (isFan : Bool) (ty : Ty) :
    Declaration.agree isFan ty (some ⟨isFan, h.ty⟩) =
      (h.verify name ty).toOption.map fun h => ⟨isFan, h.ty⟩ := by
  rw [Declaration.agree, Header.verify, if_neg (by simp)]
  split_ifs <;> rfl

namespace Used

/-- A name that is declared as a channel of the other kind. -/
theorem conflict (hc : (x.board b).channel name = c) (hne : c ≠ .placeholder)
    (hfan : c.isFan ≠ isFan) (reason : String) :
    Used b name isFan ty x (.error (.channel name reason)) x := by
  refine .refused reason (hc ▸ hne) fun d hd => ?_
  rw [declared?, hc] at hd
  obtain ⟨h, -, rfl⟩ := Option.map_eq_some_iff.1 hd
  rw [Declaration.agree, if_pos hfan]

/-- A name that is declared with another type. -/
theorem unverified (hc : (x.board b).channel name = c) (hheader : x.header? c = some h)
    (hverify : h.verify name ty = .error e) :
    Used b name c.isFan ty x (.error e) x := by
  obtain ⟨reason, rfl⟩ := Header.error_verify hverify
  refine .refused reason (fun hnone => ?_) fun d hd => ?_
  · rw [← hc, hnone] at hheader
    cases hheader
  · rw [declared?, hc, hheader] at hd
    cases hd
    rw [agree_of_verify _ name, hverify]
    rfl

end Used

theorem used_initQueue (x : Exchange) (b : Id .board) (name : String) (ty : Ty) (noCopy : Bool) :
    Used b name false ty x ((x.initQueue b name ty noCopy).1.map .queue)
      (x.initQueue b name ty noCopy).2 := by
  unfold initQueue
  dsimp only
  cases hc : (x.board b).channel name with
  | placeholder =>
    refine .opened (h := ⟨ty, noCopy, false⟩) hc rfl rfl rfl ?_ fun c h hc =>
      header?_push_queue x _ hc
    exact congrArg (Option.map _) (Table.get?_push_next ..)
  | queue q =>
    dsimp only
    cases hq : x.queues.get? q with
    | none => exact .dangling hc (by simp) (by rw [header?, hq]; rfl)
    | some queue =>
      have hheader : x.header? (.queue q) = some queue.header := by rw [header?, hq]; rfl
      dsimp only
      cases hverify : queue.header.verify name ty with
      | ok h =>
        refine .agreed hc rfl hheader hverify rfl ?_ fun c hne => ?_
        · change (Table.get? (x.queues.modify q _) q).map _ = _
          rw [Table.get?_modify_self, hq]
          rfl
        · cases c with
          | queue q' =>
            have hne' : q ≠ q' := fun h => hne (h ▸ rfl)
            exact congrArg (Option.map _) (Table.get?_modify_of_ne _ hne' _)
          | _ => rfl
      | error e => exact .unverified hc hheader hverify
  | fan f => exact .conflict hc (by simp) (by simp [Channel.isFan]) _

theorem used_initFan (x : Exchange) (b : Id .board) (name : String) (ty : Ty) (noCopy : Bool) :
    Used b name true ty x ((x.initFan b name ty noCopy).1.map .fan)
      (x.initFan b name ty noCopy).2 := by
  unfold initFan
  dsimp only
  cases hc : (x.board b).channel name with
  | placeholder =>
    refine .opened (h := ⟨ty, noCopy, false⟩) hc rfl rfl rfl ?_ fun c h hc =>
      header?_push_fan x _ hc
    exact congrArg (Option.map _) (Table.get?_push_next ..)
  | fan f =>
    dsimp only
    cases hf : x.fans.get? f with
    | none => exact .dangling hc (by simp) (by rw [header?, hf]; rfl)
    | some fan =>
      have hheader : x.header? (.fan f) = some fan.header := by rw [header?, hf]; rfl
      dsimp only
      cases hverify : fan.header.verify name ty with
      | ok h =>
        refine .agreed hc rfl hheader hverify rfl ?_ fun c hne => ?_
        · change (Table.get? (x.fans.modify f _) f).map _ = _
          rw [Table.get?_modify_self, hf]
          rfl
        · cases c with
          | fan f' =>
            have hne' : f ≠ f' := fun h => hne (h ▸ rfl)
            exact congrArg (Option.map _) (Table.get?_modify_of_ne _ hne' _)
          | _ => rfl
      | error e => exact .unverified hc hheader hverify
  | queue q => exact .conflict hc (by simp) (by simp [Channel.isFan]) _

theorem used_use (x : Exchange) (u : Use) :
    Used u.board u.name u.isFan u.ty x (x.use u).1 (x.use u).2 := by
  rw [use]
  split
  · rename_i hfan
    rw [hfan]
    exact used_initFan ..
  · rename_i hqueue
    rw [Bool.eq_false_iff.2 hqueue]
    exact used_initQueue ..

/-! ### What uses do to declarations -/

/-- On a board whose channels are there, declarations only become more definite. -/
def Grows (board : Id .board) (x x' : Exchange) : Prop :=
  x.Stocked board → x'.Stocked board ∧ ∀ name d, x.declared? board name = some d →
    ∃ e, x'.declared? board name = some e ∧ d.Settles e

theorem Grows.refl (board : Id .board) (x : Exchange) : Grows board x x := fun hx =>
  ⟨hx, fun _ d hd => ⟨d, hd, .refl d⟩⟩

theorem Grows.trans {x'' : Exchange} (h : Grows board x x') (h' : Grows board x' x'') :
    Grows board x x'' := by
  intro hx
  obtain ⟨hx', hgrows⟩ := h hx
  obtain ⟨hx'', hgrows'⟩ := h' hx'
  refine ⟨hx'', fun name d hd => ?_⟩
  obtain ⟨e, he, hde⟩ := hgrows name d hd
  obtain ⟨f, hf, hef⟩ := hgrows' name e he
  exact ⟨f, hf, hde.trans hef⟩

theorem board_of_bind (hboards : x'.boards = x.boards.modify b (·.bind name c)) :
    x'.boards.get? b = (x.boards.get? b).map (·.bind name c) ∧
      ∀ d, b ≠ d → x'.boards.get? d = x.boards.get? d := by
  rw [hboards]
  exact ⟨Table.get?_modify_self .., fun d hd => Table.get?_modify_of_ne _ hd _⟩

theorem channel_bind_self (bd : Board) (name : String) (c : Channel) :
    (bd.bind name c).channel name = c := by
  rw [Board.channel, Board.bind, lookup?_upsert_self, Option.getD_some]

theorem channel_bind_of_ne (bd : Board) {name n : String} (h : name ≠ n) (c : Channel) :
    (bd.bind name c).channel n = bd.channel n := by
  rw [Board.channel, Board.bind, lookup?_upsert_of_ne h]
  rfl

/-- What a name stands for after a new name was bound: the same, unless it is that name. -/
theorem channel_of_bind (hboards : x'.boards = x.boards.modify b (·.bind name c))
    (hboard : (x.boards.get? board).isSome = true) (n : String) :
    board = b ∧ n = name ∧ (x'.board board).channel n = c ∨
      (board = b → n ≠ name) ∧ (x'.board board).channel n = (x.board board).channel n := by
  obtain ⟨bd, hbd⟩ := Option.isSome_iff_exists.1 hboard
  obtain ⟨hself, hother⟩ := board_of_bind hboards
  by_cases hb : b = board
  · subst hb
    rw [Exchange.board, Exchange.board, hself, hbd, Option.map_some, Option.getD_some,
      Option.getD_some]
    by_cases hn : name = n
    · subst hn
      exact .inl ⟨rfl, rfl, channel_bind_self bd name c⟩
    · exact .inr ⟨fun _ => Ne.symm hn, channel_bind_of_ne bd hn c⟩
  · rw [Exchange.board, Exchange.board, hother board hb]
    exact .inr ⟨fun h => absurd h.symm hb, rfl⟩

theorem declared?_of_placeholder (h : (x.board b).channel name = .placeholder) :
    x.declared? b name = none := by
  rw [declared?, h]
  rfl

theorem settles_of_verify {h' : Header} (hverify : h.verify name ty = .ok h') (isFan : Bool) :
    Declaration.Settles ⟨isFan, h.ty⟩ ⟨isFan, h'.ty⟩ := by
  have hagree : Declaration.agree isFan ty (some ⟨isFan, h.ty⟩) = some ⟨isFan, h'.ty⟩ := by
    rw [agree_of_verify h name, hverify]
    rfl
  exact Declaration.settles_of_agree hagree

namespace Used

variable {answer : Except ComposeError Channel}

theorem grows (h : Used b name isFan ty x answer x') : Grows board x x' := by
  cases h with
  | refused | dangling => exact .refl board x
  | @opened _ c h hc hfan hboards hty hopened hkept =>
    intro hx
    have hchannel := channel_of_bind hboards hx.there
    refine ⟨⟨?_, fun n hn => ?_⟩, fun n d hd => ?_⟩
    · obtain ⟨hself, hother⟩ := board_of_bind hboards
      by_cases hb : b = board
      · subst hb
        rw [hself, Option.isSome_map]
        exact hx.there
      · rw [hother board hb]
        exact hx.there
    · rcases hchannel n with ⟨-, -, hsame⟩ | ⟨-, hsame⟩ <;> rw [hsame] at hn ⊢
      · rw [hopened, Option.isSome_some]
      · obtain ⟨h', hh'⟩ := Option.isSome_iff_exists.1 (hx.channels n hn)
        rw [hkept _ _ hh', Option.isSome_some]
    · rcases hchannel n with ⟨rfl, rfl, -⟩ | ⟨-, hsame⟩
      · rw [declared?_of_placeholder hc] at hd
        cases hd
      · obtain ⟨h', hh', rfl⟩ := Option.map_eq_some_iff.1 hd
        refine ⟨_, ?_, .refl _⟩
        rw [declared?, hsame, hkept _ _ hh', Option.map_some]
  | @agreed _ c h h' hc hfan hheader hverify hboards hheader' hkept =>
    intro hx
    have hboard : x'.board board = x.board board := by rw [Exchange.board, Exchange.board, hboards]
    refine ⟨⟨by rw [hboards]; exact hx.there, fun n hn => ?_⟩, fun n d hd => ?_⟩
    · rw [hboard] at hn ⊢
      by_cases heq : (x.board board).channel n = c
      · rw [heq, hheader', Option.isSome_some]
      · rw [hkept _ heq]
        exact hx.channels n hn
    · rw [declared?, hboard]
      by_cases heq : (x.board board).channel n = c
      · rw [declared?, heq, hheader] at hd
        cases hd
        rw [heq, hheader']
        exact ⟨_, rfl, settles_of_verify hverify _⟩
      · rw [hkept _ heq]
        exact ⟨d, hd, .refl d⟩

/-- A use that is accepted leaves the declaration that it agrees with. -/
theorem accepted (h : Used b name isFan ty x (.ok c) x') (hx : x.Stocked b) :
    ∃ d, Declaration.agree isFan ty (x.declared? b name) = some d ∧
      x'.declared? b name = some d := by
  cases h with
  | dangling hc hne hnone =>
    subst hc
    exact absurd hnone (Option.isSome_iff_ne_none.1 (hx.channels name hne))
  | @opened _ _ h hc hfan hboards hty hopened hkept =>
    refine ⟨⟨isFan, ty⟩, by rw [declared?_of_placeholder hc]; rfl, ?_⟩
    rcases channel_of_bind hboards hx.there name with ⟨-, -, hsame⟩ | ⟨hne, -⟩
    · rw [declared?, hsame, hopened, Option.map_some, hfan, hty]
    · exact absurd rfl (hne rfl)
  | @agreed _ _ h h' hc hfan hheader hverify hboards hheader' hkept =>
    have hboard : x'.board b = x.board b := by rw [Exchange.board, Exchange.board, hboards]
    refine ⟨⟨isFan, h'.ty⟩, ?_, ?_⟩
    · rw [declared?, hc, hheader, Option.map_some, hfan, agree_of_verify h name, hverify]
      rfl
    · rw [declared?, hboard, hc, hheader', Option.map_some, hfan]

/-- The name stands for the channel that it was resolved to. -/
theorem channel_eq (h : Used b name isFan ty x (.ok c) x')
    (hb : (x.boards.get? b).isSome = true) :
    (x'.board b).channel name = c ∧ c ≠ .placeholder := by
  cases h with
  | dangling hc hne => exact ⟨hc, hne⟩
  | opened hc hfan hboards hty hopened hkept =>
    refine ⟨?_, fun hnone => by rw [hnone] at hopened; cases hopened⟩
    rcases channel_of_bind hboards hb name with ⟨-, -, hsame⟩ | ⟨hne, -⟩
    · exact hsame
    · exact absurd rfl (hne rfl)
  | agreed hc hfan hheader hverify hboards hheader' hkept =>
    refine ⟨?_, fun hnone => by rw [hnone] at hheader; cases hheader⟩
    rw [Exchange.board, hboards]
    exact hc

/-- A use that is refused says which name it is about, and changes nothing. -/
theorem error (h : Used b name isFan ty x (.error e) x') :
    (∃ reason, e = .channel name reason) ∧ x' = x := by
  cases h with
  | refused reason => exact ⟨⟨reason, rfl⟩, rfl⟩

/-- A use that agrees with a declaration that has settled is accepted and changes no declaration. -/
theorem settled (h : Used b name isFan ty x answer x') {d : Declaration}
    (hd : x.declared? b name = some d) (hagree : Declaration.agree isFan ty (some d) = some d) :
    (∃ c, answer = .ok c) ∧ ∀ n, x'.declared? b n = x.declared? b n := by
  cases h with
  | refused reason hc hrefused =>
    rw [hrefused d hd] at hagree
    cases hagree
  | dangling => exact ⟨⟨_, rfl⟩, fun _ => rfl⟩
  | opened hc =>
    rw [declared?_of_placeholder hc] at hd
    cases hd
  | @agreed _ c h h' hc hfan hheader hverify hboards hheader' hkept =>
    have hboard : x'.board b = x.board b := by rw [Exchange.board, Exchange.board, hboards]
    have hty : h'.ty = h.ty := by
      rw [declared?, hc, hheader, Option.map_some, hfan] at hd
      obtain rfl := Option.some.inj hd
      rw [agree_of_verify h name, hverify] at hagree
      exact congrArg Declaration.ty (Option.some.inj hagree)
    refine ⟨⟨c, rfl⟩, fun n => ?_⟩
    rw [declared?, declared?, hboard]
    by_cases heq : (x.board b).channel n = c
    · rw [heq, hheader', hheader, Option.map_some, Option.map_some, hty]
    · rw [hkept _ heq]

end Used

/-- The declarations of a board become these in the end. -/
def Settling (x : Exchange) (board : Id .board) (final : String → Option Declaration) : Prop :=
  ∀ name d, x.declared? board name = some d → ∃ e, final name = some e ∧ d.Settles e

/-- The declarations of a board are these, and the channels are there. -/
structure Settled (x : Exchange) (board : Id .board) (final : String → Option Declaration) :
    Prop where
  stocked : x.Stocked board
  declared : ∀ name, x.declared? board name = final name

variable {final : String → Option Declaration}

/-- What comes before what becomes settled becomes settled. -/
theorem Settling.of_grows (h : x'.Settling board final) (hx : x.Stocked board)
    (hgrows : Grows board x x') : x.Settling board final := by
  intro name d hd
  obtain ⟨e, he, hde⟩ := (hgrows hx).2 name d hd
  obtain ⟨f, hf, hef⟩ := h name e he
  exact ⟨f, hf, hde.trans hef⟩

/-- A use that was accepted on the way is accepted again in the end, and changes nothing then, unless
the declared type does not take itself. -/
theorem Used.again {answer : Except ComposeError Channel} {y y' : Exchange}
    (h : Used b name isFan ty x (.ok c) x') (hx : x.Stocked b) (hx' : x'.Settling b final)
    (hy : y.Settled b final) (h' : Used b name isFan ty y answer y') :
    (∃ c, answer = .ok c) ∧ y'.Settled b final ∨
      ∃ reason e, answer = .error (.channel name reason) ∧ final name = some e ∧ ¬ e.Steady := by
  obtain ⟨d, hagree, hd⟩ := h.accepted hx
  obtain ⟨e, he, hde⟩ := hx' name d hd
  have hdeclared : y.declared? b name = some e := (hy.declared name).trans he
  have hsettled : Declaration.agree isFan ty (some e) = some e →
      (∃ c, answer = .ok c) ∧ y'.Settled b final := by
    intro hagree
    obtain ⟨hok, hsame⟩ := h'.settled hdeclared hagree
    exact ⟨hok, (h'.grows hy.stocked).1, fun n => (hsame n).trans (hy.declared n)⟩
  by_cases hsteady : e.Steady
  · exact .inl (hsettled (Declaration.agree_settled hagree hde hsteady))
  · cases answer with
    | error e' =>
      obtain ⟨⟨reason, rfl⟩, -⟩ := h'.error
      exact .inr ⟨reason, e, rfl, he, hsteady⟩
    | ok c =>
      -- a declaration with a type is not changed by a use that it accepts
      obtain ⟨e', hagree', -⟩ := h'.accepted hy.stocked
      rw [hdeclared] at hagree'
      obtain rfl : e' = e := by
        rcases Declaration.settles_of_agree hagree' with ⟨hfan, hopen | hty⟩
        · exact absurd (.inl hopen) hsteady
        · cases e
          cases e'
          simp_all
      exact .inl (hsettled hagree')

end Exchange

namespace Store

/-- Composing wires only makes declarations more definite. -/
theorem permits_grows (board : Id .board) : Permits (fun _ _ _ _ => True)
    fun s s' : Store H => Exchange.Grows board s.exchange s'.exchange := by
  refine .of_husk (fun s => .refl board s.exchange) .trans (fun stage here s => ?_)
    fun s _ _ _ => .refl board s.exchange
  rcases stage.effect_compose here s with h | ⟨u, h⟩ | ⟨_, _, h⟩ <;> rw [h]
  · exact .refl board s.exchange
  · exact (s.exchange.used_use u).grows
  · exact .refl board s.exchange

end Store

end Dataflow
