import Dataflow.Proofs.Streams
import Dataflow.Proofs.Warmup
import Mathlib.Data.List.Forall2
import Mathlib.Data.List.Perm.Subperm
/-!
# What the hash of a wire's content tells about nesting

The hash of a wire's content follows the wires that it runs, those that they run, and so on, also
where wires run each other in circles: a wire that is being hashed counts by its identity. So the
search for the hash always ends. Where the wires of one hash do not run in circles, neither do those
of an equal hash: unless digests collide, both run the same wires.
-/

namespace Dataflow

variable {H : Host} {n depth depth' n' : Nat} {α β : Type} {f f' g : Id .wire → Option UInt64}
  {st st' : Stage H} {words : List UInt64}
  {locked' visiting visiting' locked path : List (Id .wire)} {c : UInt64} {stages : List (Stage H)}
  {k i : Id .wire} {code' : Code H} {l : List α} {bs : List β} {s : Store H} {w : Wire H}

open Relation (TransGen ReflTransGen)

/-- A path that meets no wire twice is no longer than there are wires. -/
theorem length_le_of_rows (h : path.Nodup) (hrows : ∀ v ∈ path, v.row < n) : path.length ≤ n := by
  have hdistinct : (path.map Id.row).Nodup :=
    List.Pairwise.map Id.row (fun a b hne hrow => hne (congrArg Id.mk hrow)) h
  have hsub : path.map Id.row ⊆ List.range n := by
    intro row hrow
    obtain ⟨v, hv, rfl⟩ := List.mem_map.1 hrow
    exact List.mem_range.2 (hrows v hv)
  simpa using (List.subperm_of_subset hdistinct hsub).length_le

theorem mapM_eq_some_iff {f : α → Option β} :
    l.mapM f = some bs ↔ List.Forall₂ (fun a b => f a = some b) l bs := by
  induction l generalizing bs with
  | nil => simp [eq_comm]
  | cons a l ih =>
    rw [List.mapM_cons, List.forall₂_cons_left_iff]
    cases f a with
    | none => simp
    | some b =>
      cases hl : l.mapM f with
      | none => simp_all
      | some bs' =>
        simp only [hl, Option.some.injEq] at ih
        simp [← ih, eq_comm]

/-- A function that is defined wherever another one is, with the same values, maps lists alike. -/
theorem mapM_mono {f g : α → Option β} (h : ∀ a ∈ l, ∀ b, f a = some b → g a = some b)
    (hf : l.mapM f = some bs) :
    l.mapM g = some bs := by
  rw [mapM_eq_some_iff] at hf ⊢
  induction hf with
  | nil => exact .nil
  | cons hab _ ih =>
    exact .cons (h _ List.mem_cons_self _ hab) (ih fun a ha => h a (List.mem_cons_of_mem _ ha))

theorem mapM_congr {f g : α → Option β} (h : ∀ a ∈ l, f a = g a) : l.mapM f = l.mapM g :=
  Option.ext fun _ => ⟨mapM_mono fun a ha _ hb => (h a ha).symm.trans hb,
    mapM_mono fun a ha _ hb => (h a ha).trans hb⟩

/-! ### The search for the hash -/

namespace Store

/-- The hash of a wire as a parameter, while `visiting` is being hashed. -/
def nestedHash (s : Store H) (locked : List (Id .wire)) (depth : Nat) (visiting : List (Id .wire))
    (sub : Id .wire) : Option UInt64 :=
  if visiting.contains sub then some sub.row.toUInt64
  else if locked.contains sub then none
  else do
    let inner ← s.wires.get? sub
    let content ← s.contentHash locked depth (sub :: visiting) inner
    return combine Sip.digest [sub.row.toUInt64, content]

theorem contentHash_succ (s : Store H) (locked : List (Id .wire)) (depth : Nat)
    (visiting : List (Id .wire)) (wire : Wire H) :
    s.contentHash locked (depth + 1) visiting wire =
      (wire.stages.mapM fun p => stageHashes (s.nestedHash locked depth visiting) p.stage).map
        fun parts => combine Sip.digest (wire.stages.length.toUInt64 :: parts.flatten) := by
  rw [contentHash]
  change (wire.stages.mapM fun p => stageHashes (s.nestedHash locked depth visiting) p.stage).bind _ = _
  cases wire.stages.mapM fun p => stageHashes (s.nestedHash locked depth visiting) p.stage <;> rfl

theorem row_lt_of_get? (h : s.wires.get? i = some w) : i.row < s.wires.size :=
  (Array.getElem?_eq_some_iff.1 h).1

/-- The hash does not depend on the bound, once the bound is larger than the number of wires that
are not being hashed. -/
theorem contentHash_stable (s : Store H) (locked : List (Id .wire)) (hnodup : visiting.Nodup)
    (hrows : ∀ v ∈ visiting, v.row < s.wires.size) (hdepth : s.wires.size < depth + visiting.length)
    (hdepth' : s.wires.size < depth' + visiting.length) (wire : Wire H) :
    s.contentHash locked depth visiting wire = s.contentHash locked depth' visiting wire := by
  have hlength := length_le_of_rows hnodup hrows
  induction depth generalizing depth' visiting wire with
  | zero => omega
  | succ depth ih =>
    obtain _ | depth' := depth'
    · omega
    -- One more wire is being hashed at the next level.
    have hnested : s.nestedHash locked depth visiting = s.nestedHash locked depth' visiting := by
      funext sub
      unfold nestedHash
      split
      · rfl
      · rename_i hfresh
        split
        · rfl
        · cases hinner : s.wires.get? sub with
          | none => rfl
          | some inner =>
            have hnodup' : (sub :: visiting).Nodup :=
              List.nodup_cons.2 ⟨by simpa using hfresh, hnodup⟩
            have hrows' : ∀ v ∈ sub :: visiting, v.row < s.wires.size := by
              rintro v (_ | ⟨_, hv⟩)
              · exact row_lt_of_get? hinner
              · exact hrows v hv
            have hlength' := length_le_of_rows hnodup' hrows'
            rw [List.length_cons] at hlength'
            have hcontent : s.contentHash locked depth (sub :: visiting) inner =
                s.contentHash locked depth' (sub :: visiting) inner :=
              ih hnodup' hrows' (by rw [List.length_cons]; omega) (by rw [List.length_cons]; omega)
                inner hlength'
            simp only [Option.bind_eq_bind, Option.bind_some, hcontent]
    rw [contentHash_succ, contentHash_succ, hnested]

/-- No larger bound gives another hash. -/
theorem contentHash_of_le (s : Store H) (locked : List (Id .wire)) (h : s.depthBound ≤ depth)
    (wire : Wire H) :
    s.contentHash locked depth [] wire = s.contentHash locked s.depthBound [] wire :=
  s.contentHash_stable locked .nil (by simp) (Nat.lt_of_succ_le h) (Nat.lt_succ_self _) wire

end Store

/-! ### Wires that clear others -/

namespace Code

/-- No wire below a wire runs itself. -/
def Acyclic (code : Code H) (i : Id .wire) : Prop := ∀ j, code.Below i j → ¬ TransGen code.Child j j

/-- Nothing below a wire runs itself, or is one of the locked wires. -/
def Clears (code : Code H) (locked : List (Id .wire)) (i : Id .wire) : Prop :=
  code.Acyclic i ∧ ∀ v ∈ locked, ¬ code.Below i v

variable {code : Code H}

/-- A wire is clear if the wires that it runs are clear of it too. -/
theorem clears_of_child (hi : i ∉ locked) (h : ∀ j, code.Child i j → code.Clears (i :: locked) j) :
    code.Clears locked i := by
  refine ⟨fun l hl hcycle => ?_, fun v hv hbelow => ?_⟩
  · rcases ReflTransGen.cases_head hl with rfl | ⟨j, hij, hjl⟩
    · obtain ⟨j, hij, hji⟩ := TransGen.head'_iff.1 hcycle
      exact (h j hij).2 i List.mem_cons_self hji
    · exact (h j hij).1 l hjl hcycle
  · rcases ReflTransGen.cases_head hbelow with rfl | ⟨j, hij, hjv⟩
    · exact hi hv
    · exact (h j hij).2 v (List.mem_cons_of_mem _ hv) hjv

/-- A wire is clear if whatever lies below it was so in acyclic code and is not locked. -/
theorem clears_of_acyclic {old : Code H} (hi : i ∉ locked) (hold : old.Acyclic i)
    (h : ∀ a b, code.Below i a → code.Child a b → old.Child a b ∧ b ∉ locked) :
    code.Clears locked i := by
  have hbelow : ∀ a b, code.Below i a → code.Below a b → old.Below a b := by
    intro a b ha hab
    induction hab with
    | refl => exact .refl
    | tail hac hstep ih => exact ih.tail (h _ _ (ha.trans hac) hstep).1
  refine ⟨fun l hl hcycle => ?_, fun v hv hiv => ?_⟩
  · obtain ⟨m, hlm, hml⟩ := TransGen.head'_iff.1 hcycle
    refine hold l (hbelow i l .refl hl) (TransGen.head'_iff.2 ⟨m, (h l m hl hlm).1, ?_⟩)
    exact hbelow m l (hl.tail hlm) hml
  · rcases ReflTransGen.cases_tail hiv with rfl | ⟨a, hia, hav⟩
    · exact hi hv
    · exact (h a v hia hav).2 hv

/-- No path below an acyclic wire meets a wire twice, so with those that are not below there are no more
than there are wires. -/
theorem Acyclic.height (h : code.Acyclic i) (hrows : ∀ j, code.Below i j → j.row < n)
    (hnodup : path.Nodup) (hpath : ∀ v ∈ path, v.row < n ∧ ¬ code.Below i v)
    (hlength : n ≤ path.length + depth) :
    code.Height depth i := by
  have hcons : (i :: path).Nodup := List.nodup_cons.2 ⟨fun hi => (hpath i hi).2 .refl, hnodup⟩
  induction depth generalizing i path with
  | zero =>
    have hrow : ∀ v ∈ i :: path, v.row < n := by
      rintro v (_ | ⟨_, hv⟩)
      · exact hrows i .refl
      · exact (hpath v hv).1
    have hle := length_le_of_rows hcons hrow
    rw [List.length_cons] at hle
    omega
  | succ depth ih =>
    intro j hij
    have hpath' : ∀ v ∈ i :: path, v.row < n ∧ ¬ code.Below j v := by
      rintro v (_ | ⟨_, hv⟩)
      · exact ⟨hrows i .refl, fun hji => h i .refl (.head' hij hji)⟩
      · exact ⟨(hpath v hv).1, fun hjv => (hpath v hv).2 (.head hij hjv)⟩
    refine ih (fun l hl => h l (.head hij hl)) (fun l hl => hrows l (.head hij hl)) hcons hpath'
      (by rw [List.length_cons]; omega) (List.nodup_cons.2 ⟨fun hj => (hpath' j hj).2 .refl, hcons⟩)

end Code

/-! ### The hash as a function of the code -/

/-- How many words a stage has in a hash besides its name. -/
def Stage.width (st : Stage H) : Nat := if st.capabilities.parameters then st.params.length else 0

@[simp] theorem Stage.width_bare (st : Stage H) : st.bare.width = st.width := by simp [width]

/-- The hash of a parameter; `nested` gives those of wires. -/
def Store.paramHash (nested : Id .wire → Option UInt64) : Value → Option UInt64
  | .wire sub => nested sub
  | value => some value.fingerprint

theorem Store.stageHashes_eq_mapM (nested : Id .wire → Option UInt64) (st : Stage H) :
    stageHashes nested st =
      ((List.range st.width).mapM fun n => paramHash nested (st.getParam n)).map
        (Sip.digest (octetsText st.name) :: ·) := by
  unfold stageHashes paramHashes Stage.width
  split
  · rfl
  · rfl

theorem Store.stageHashes_bare (nested : Id .wire → Option UInt64) (st : Stage H) :
    stageHashes nested st.bare = stageHashes nested st := by
  simp [stageHashes_eq_mapM]

/-- The wires that a stage has as parameters. -/
def Stage.wires (st : Stage H) : List (Id .wire) :=
  (List.range st.width).filterMap fun n =>
    match st.getParam n with
    | .wire k => some k
    | _ => none

theorem Stage.mem_wires (hn : n < st.width) (hk : st.getParam n = .wire k) : k ∈ st.wires :=
  List.mem_filterMap.2 ⟨n, List.mem_range.2 hn, by rw [hk]⟩

theorem Store.stageHashes_congr (h : ∀ k ∈ st.wires, f k = g k) :
    stageHashes f st = stageHashes g st := by
  rw [stageHashes_eq_mapM, stageHashes_eq_mapM]
  refine congrArg (Option.map _) (mapM_congr fun n hn => ?_)
  cases hv : st.getParam n
  case wire k => exact h k (Stage.mem_wires (List.mem_range.1 hn) hv)
  all_goals rfl

theorem Store.stageHashes_mono (h : ∀ j word, f j = some word → g j = some word)
    (hf : stageHashes f st = some words) :
    stageHashes g st = some words := by
  rw [stageHashes_eq_mapM] at hf ⊢
  obtain ⟨params, hparams, rfl⟩ := Option.map_eq_some_iff.1 hf
  refine Option.map_eq_some_iff.2 ⟨params, mapM_mono (fun n _ word hword => ?_) hparams, rfl⟩
  cases hv : st.getParam n <;> rw [hv] at hword
  case wire sub => exact h sub word hword
  all_goals exact hword

namespace Code

/-- The hash of a wire as a parameter, while `visiting` is being hashed. -/
def nestedWord (locked visiting : List (Id .wire))
    (hash : List (Id .wire) → Id .wire → Option UInt64) (sub : Id .wire) : Option UInt64 :=
  if visiting.contains sub then some sub.row.toUInt64
  else if locked.contains sub then none
  else (hash (sub :: visiting) sub).map fun content => combine Sip.digest [sub.row.toUInt64, content]

theorem nestedWord_mono {hash hash' : List (Id .wire) → Id .wire → Option UInt64}
    (h : ∀ v j c, hash v j = some c → hash' v j = some c) {j : Id .wire} {word : UInt64}
    (hj : nestedWord locked visiting hash j = some word) :
    nestedWord [] visiting hash' j = some word := by
  unfold nestedWord at hj ⊢
  split at hj
  · rename_i hvisited
    rwa [if_pos hvisited]
  · rename_i hfresh
    split at hj
    · cases hj
    · obtain ⟨content, hcontent, rfl⟩ := Option.map_eq_some_iff.1 hj
      rw [if_neg hfresh, if_neg (by simp), h _ _ _ hcontent, Option.map_some]

/-- The hash of a wire's content. -/
def hashWithin (code : Code H) (locked : List (Id .wire)) :
    Nat → List (Id .wire) → Id .wire → Option UInt64
  | 0, _, _ => none
  | depth + 1, visiting, i =>
    (code i).bind fun plans =>
      (plans.mapM fun plan : Option (Stage H) =>
        plan.bind (Store.stageHashes (nestedWord locked visiting (hashWithin code locked depth)))).map
          fun parts => combine Sip.digest (plans.length.toUInt64 :: parts.flatten)

/-- What can be read while some wires are locked reads the same when none is. -/
theorem hashWithin_of_locked {code : Code H} (h : code.hashWithin locked depth visiting i = some c)
    :
    code.hashWithin [] depth visiting i = some c := by
  induction depth generalizing visiting i c with
  | zero => cases h
  | succ depth ih =>
    obtain ⟨plans, hplans, h⟩ := Option.bind_eq_some_iff.1 h
    obtain ⟨parts, hparts, rfl⟩ := Option.map_eq_some_iff.1 h
    refine Option.bind_eq_some_iff.2 ⟨plans, hplans, Option.map_eq_some_iff.2 ⟨parts, ?_, rfl⟩⟩
    refine mapM_mono (fun plan _ words hwords => ?_) hparts
    obtain ⟨st, rfl, hst⟩ := Option.bind_eq_some_iff.1 hwords
    exact Store.stageHashes_mono (fun j word hword => nestedWord_mono (fun _ _ _ => ih) hword) hst

/-- The hash of a wire of known stages. -/
theorem hashWithin_succ_eq_some_iff {code : Code H} (hstages : code i = some (stages.map some)) :
    code.hashWithin locked (depth + 1) visiting i = some c ↔
      ∃ parts, List.Forall₂ (fun st words => Store.stageHashes
          (nestedWord locked visiting (code.hashWithin locked depth)) st = some words) stages parts ∧
        combine Sip.digest (stages.length.toUInt64 :: parts.flatten) = c := by
  rw [hashWithin, hstages, Option.bind_some, List.mapM_map, List.length_map, Option.map_eq_some_iff]
  simp only [mapM_eq_some_iff, Function.comp_apply, Option.bind_some]

end Code

/-- Where wires are made of built-in stages, with no other wires as parameters, the hash is a function
of the code. -/
theorem Store.contentHash_eq_hashWithin {sort : Stage H → Prop} {T : Set (Id .wire)}
    (hclosed : s.code.Closed sort T)
    (hsort : ∀ st, sort st → ∀ k ∈ st.wires, k ∈ T ∨ s.wires.get? k = none)
    (locked visiting : List (Id .wire)) (depth : Nat) (hi : i ∈ T) (hw : s.wires.get? i = some w) :
    s.contentHash locked depth visiting w = s.code.hashWithin locked depth visiting i := by
  induction depth generalizing visiting i w with
  | zero => rfl
  | succ depth ih =>
    have hcode : s.code i = some w.code := by rw [code, hw, Option.map_some]
    have hnested : ∀ sub, sub ∈ T ∨ s.wires.get? sub = none → s.nestedHash locked depth visiting sub =
        Code.nestedWord locked visiting (s.code.hashWithin locked depth) sub := by
      intro sub hsub
      unfold nestedHash Code.nestedWord
      congr 2
      cases hinner : s.wires.get? sub with
      | none =>
        have hmissing : s.code.hashWithin locked depth (sub :: visiting) sub = none := by
          cases depth with
          | zero => rfl
          | succ depth => simp [Code.hashWithin, code, hinner]
        rw [hmissing]
        rfl
      | some inner =>
        rw [← ih (sub :: visiting) (hsub.resolve_right (by simp [hinner])) hinner, Option.bind_eq_bind, Option.bind_some]
        generalize s.contentHash locked depth (sub :: visiting) inner = content
        cases content <;> rfl
    have hstages : ∀ p ∈ w.stages, p.stage.plan?.bind (stageHashes
        (Code.nestedWord locked visiting (s.code.hashWithin locked depth))) =
          stageHashes (s.nestedHash locked depth visiting) p.stage := by
      intro p hp
      obtain ⟨hplan, hmember, -⟩ := hclosed.stage hi hcode hp
      rw [hplan, Option.bind_some, ← stageHashes_bare _ p.stage]
      exact stageHashes_congr fun k hk => (hnested k (hsort _ hmember k hk)).symm
    rw [contentHash_succ, Code.hashWithin, hcode, Option.bind_some, Wire.code, List.mapM_map,
      List.length_map]
    exact congrArg (Option.map _) (mapM_congr fun p hp => (hstages p hp).symm)

/-! ### Undoing the hash -/

/-- The digest tells some streams apart. -/
def Apart (streams : List (List UInt8)) : Prop :=
  ∀ a ∈ streams, ∀ b ∈ streams, Sip.digest a = Sip.digest b → a = b

instance (streams : List (List UInt8)) : Decidable (Apart streams) :=
  inferInstanceAs (Decidable (∀ a ∈ _, ∀ b ∈ _, _))

namespace Code

/-- The octets that are hashed for a parameter, while `visiting` is being hashed. -/
def paramStreams (visiting : List (Id .wire)) (hash : List (Id .wire) → Id .wire → Option UInt64)
    (inner : List (Id .wire) → Id .wire → List (List UInt8)) : Value → List (List UInt8)
  | .wire sub =>
    if visiting.contains sub then []
    else
      [sub.row.toUInt64, (hash (sub :: visiting) sub).getD 0].flatMap octets64 ::
        inner (sub :: visiting) sub
  | value => [value.octets Sip.digest]

/-- The octets that are hashed for a wire's content: those of the wire, those of its stages, and those
of the wires among its parameters. -/
def hashStreams (code : Code H) : Nat → List (Id .wire) → Id .wire → List (List UInt8)
  | 0, _, _ => []
  | depth + 1, visiting, i =>
    let stages := ((code i).getD []).filterMap id
    let hash := code.hashWithin [] depth
    let words := stages.flatMap fun st =>
      (Store.stageHashes (nestedWord [] visiting hash) st).getD []
    (stages.length.toUInt64 :: words).flatMap octets64 ::
      stages.flatMap fun st =>
        octetsText st.name ::
          (List.range st.width).flatMap fun n =>
            paramStreams visiting hash (hashStreams code depth) (st.getParam n)

/-- The octets that are hashed for a wire of known stages that could be read. -/
theorem hashStreams_succ {code : Code H} (hstages : code i = some (stages.map some))
    {parts : List (List UInt64)} (hparts : List.Forall₂ (fun st words => Store.stageHashes
      (nestedWord locked visiting (code.hashWithin locked depth)) st = some words) stages parts) :
    code.hashStreams (depth + 1) visiting i =
      (stages.length.toUInt64 :: parts.flatten).flatMap octets64 ::
        stages.flatMap fun st =>
          octetsText st.name ::
            (List.range st.width).flatMap fun n =>
              paramStreams visiting (code.hashWithin [] depth) (code.hashStreams depth)
                (st.getParam n) := by
  have hwords : (stages.flatMap fun st => (Store.stageHashes
      (nestedWord [] visiting (code.hashWithin [] depth)) st).getD []) = parts.flatten := by
    clear hstages
    induction hparts with
    | nil => rfl
    | cons hst _ ih =>
      have hst' := Store.stageHashes_mono (fun j word hword =>
        nestedWord_mono (fun _ _ _ => hashWithin_of_locked) hword) hst
      rw [List.flatMap_cons, List.flatten_cons, ih, hst', Option.getD_some]
  have hall : (stages.map some).filterMap id = stages := by simp
  simp only [hashStreams, hstages, Option.getD_some, hall, hwords]

end Code

namespace Stage

/-- How many words a built-in stage of some name has in a hash. -/
def widthOf (name : String) : Nat :=
  if ["Pass", "Input", "Stop", "Return"].contains name then 0
  else if ["With", "Produce", "Broadcast"].contains name then 2
  else if ["Consume", "Listen"].contains name then 4
  else 1

theorem width_eq_widthOf (h : st.isBuiltIn = true) : st.width = widthOf st.name := by
  cases st with
  | unit u => cases h
  | _ => rfl

/-- Where a stage runs a wire, any built-in stage of that name has a wire that it runs, or nothing. -/
theorem param_of_name_eq (h : st.isBuiltIn = true) (hname : st.name = st'.name)
    (hk : st'.nested? = some k) :
    ∃ n < st'.width, st'.getParam n = .wire k ∧
      (st.getParam n = .nothing ∨ ∃ j, st.getParam n = .wire j ∧ st.nested? = some j) := by
  have hvalue : ∀ sub : Nested, nestedValue sub = .nothing ∨
      ∃ j, nestedValue sub = .wire j ∧ sub.wire = some j := by
    intro sub
    cases hsub : sub.wire <;> simp [nestedValue, hsub]
  cases st' with
  | inline sub' =>
    refine ⟨0, Nat.zero_lt_one, by simp_all [nested?, getParam, nestedValue], ?_⟩
    cases st with
    | inline sub => exact hvalue sub
    | unit u => cases h
    | _ => simp [name] at hname
  | bound x sub' slot =>
    refine ⟨1, Nat.one_lt_two, by simp_all [nested?, getParam, nestedValue], ?_⟩
    cases st with
    | bound y sub slot' => exact hvalue sub
    | unit u => cases h
    | _ => simp [name] at hname
  | _ => cases hk

end Stage

/-- Stages with the same words have the same word for each parameter. -/
theorem Store.exists_word_of_words_eq (h : stageHashes f st = some words)
    (h' : stageHashes f' st' = some words) (hn : n < st.width) (hn' : n < st'.width) :
    ∃ word, paramHash f (st.getParam n) = some word ∧
      paramHash f' (st'.getParam n) = some word := by
  rw [stageHashes_eq_mapM] at h h'
  obtain ⟨params, hparams, rfl⟩ := Option.map_eq_some_iff.1 h
  obtain ⟨params', hparams', heq⟩ := Option.map_eq_some_iff.1 h'
  obtain rfl := (List.cons.inj heq).2
  rw [mapM_eq_some_iff] at hparams hparams'
  have hlength : n < params'.length := by simpa [← hparams'.length_eq] using hn'
  have hget := hparams.get (by simpa using hn) hlength
  have hget' := hparams'.get (by simpa using hn') hlength
  simp only [List.get_eq_getElem, List.getElem_range] at hget hget'
  exact ⟨_, hget, hget'⟩

theorem exists_of_forall₂ {R : α → β → Prop} {as : List α} (h : List.Forall₂ R as bs) {a : α}
    (ha : a ∈ as) : ∃ b, R a b := by
  induction h with
  | nil => cases ha
  | cons hab _ ih =>
    rcases List.mem_cons.1 ha with rfl | ha
    · exact ⟨_, hab⟩
    · exact ih ha

/-! ### Wires of one hash -/

/-- A wire was hashed, and what was hashed for it is among some streams. -/
structure Code.Hashed (code : Code H) (streams : List (List UInt8))
    (locked visiting : List (Id .wire)) (depth : Nat) (i : Id .wire) (c : UInt64) : Prop where
  hash : code.hashWithin locked depth visiting i = some c
  octets : code.hashStreams depth visiting i ⊆ streams

/-- So was a stage of a wire. -/
structure Code.StageHashed (code : Code H) (sort : Stage H → Prop) (streams : List (List UInt8))
    (locked visiting : List (Id .wire)) (depth : Nat) (i : Id .wire) (st : Stage H)
    (words : List UInt64) : Prop where
  sort : sort st
  child : ∀ j, st.nested? = some j → code.Child i j
  hashes : Store.stageHashes (nestedWord locked visiting (code.hashWithin locked depth)) st =
    some words
  name : octetsText st.name ∈ streams
  params : ∀ n < st.width, paramStreams visiting (code.hashWithin [] depth) (code.hashStreams depth)
    (st.getParam n) ⊆ streams

/-- Two codes give a wire one hash. Nothing below it in the first one runs itself, or was already
being hashed. -/
structure Code.OneHash (code code' : Code H) (streams : List (List UInt8)) (n n' : Nat)
    (locked' : List (Id .wire)) (i : Id .wire) : Prop where
  row : i.row < n
  row' : i.row < n'
  hash : ∃ visiting visiting' depth depth' c,
    (∀ l, TransGen code.Child i l → ¬ TransGen code.Child l l ∧ l ∉ visiting) ∧
    code.Hashed streams [] visiting depth i c ∧ code'.Hashed streams locked' visiting' depth' i c

/-- How the stages of two wires with one hash match: names and parameters are the same, and so are the
wires that they run, which are not locked and have one hash again. -/
structure Code.Matches (code code' : Code H) (sort : Stage H → Prop) (streams : List (List UInt8))
    (n n' : Nat) (locked' : List (Id .wire)) (i : Id .wire) (st' st : Stage H) : Prop where
  sorts : sort st ∧ sort st'
  name : st.name = st'.name
  nested : st.nested? = st'.nested?
  octets : ∀ n < st.width, (∀ k, st.getParam n ≠ .wire k) → (∀ k, st'.getParam n ≠ .wire k) →
    (st.getParam n).octets Sip.digest = (st'.getParam n).octets Sip.digest
  hash : ∀ k, st.nested? = some k →
    code.Child i k ∧ k ∉ locked' ∧ code.OneHash code' streams n n' locked' k

/-- Codes whose hashes can be compared: the digest tells the streams apart, and from the wires. -/
structure Code.Comparable (code code' : Code H) (sort : Stage H → Prop)
    (streams : List (List UInt8)) (n n' : Nat) : Prop where
  builtIn : ∀ st, sort st → st.isBuiltIn = true
  closed : code.Closed sort {i | i.row < n}
  closed' : code'.Closed sort {i | i.row < n'}
  size : n ≤ UInt64.size
  size' : n' ≤ UInt64.size
  apart : Apart streams
  rows : ∀ a ∈ streams, ∀ row < n', Sip.digest a ≠ row.toUInt64

namespace Code

variable {code : Code H} {sort : Stage H → Prop} {streams : List (List UInt8)} {j : Id .wire}
  {word : UInt64}

/-- The stages of a wire that was hashed. -/
theorem Hashed.stagesHashed (h : code.Hashed streams locked visiting depth i c)
    (hclosed : code.Closed sort {i | i.row < n}) (hi : i.row < n) :
    ∃ stages depth parts, code i = some (stages.map some) ∧
      List.Forall₂ (code.StageHashed sort streams locked visiting depth i) stages parts ∧
      (stages.length.toUInt64 :: parts.flatten).flatMap octets64 ∈ streams ∧
      combine Sip.digest (stages.length.toUInt64 :: parts.flatten) = c := by
  obtain ⟨stages, hstages, hsort⟩ := hclosed.known i hi
  obtain ⟨hhash, hsub⟩ := h
  obtain _ | depth := depth
  · cases hhash
  obtain ⟨parts, hparts, hc⟩ := (hashWithin_succ_eq_some_iff hstages).1 hhash
  rw [hashStreams_succ hstages hparts, List.cons_subset] at hsub
  have hmem : ∀ st ∈ stages, ∀ x ∈ octetsText st.name :: (List.range st.width).flatMap fun n =>
      paramStreams visiting (code.hashWithin [] depth) (code.hashStreams depth) (st.getParam n),
        x ∈ streams := fun st hst x hx => hsub.2 (List.mem_flatMap.2 ⟨st, hst, hx⟩)
  refine ⟨stages, depth, parts, hstages, ?_, hsub.1, hc⟩
  refine ((List.forall₂_and_left _ _).2 ⟨fun _ hst => hst, hparts⟩).imp fun st words hst => ?_
  refine ⟨hsort st hst.1, fun j hj => ⟨_, hstages, st, List.mem_map.2 ⟨st, hst.1, rfl⟩, hj⟩, hst.2,
    hmem st hst.1 _ List.mem_cons_self, fun n hn x hx => hmem st hst.1 x ?_⟩
  exact List.mem_cons_of_mem _ (List.mem_flatMap.2 ⟨n, List.mem_range.2 hn, hx⟩)

namespace StageHashed

variable (h : code.StageHashed sort streams locked visiting depth i st words) (hn : n < st.width)
  (hword : Store.paramHash (nestedWord locked visiting (code.hashWithin locked depth))
    (st.getParam n) = some word)

include h hn hword

/-- The word for a parameter that is a wire: its identity, if it was being hashed, or a digest. -/
theorem wire (hj : st.getParam n = .wire j) :
    j ∈ visiting ∧ word = j.row.toUInt64 ∨
      j ∉ locked ∧ ∃ c, code.Hashed streams locked (j :: visiting) depth j c ∧
        [j.row.toUInt64, c].flatMap octets64 ∈ streams ∧
        Sip.digest ([j.row.toUInt64, c].flatMap octets64) = word := by
  have hsub := h.params n hn
  rw [hj] at hword hsub
  simp only [Store.paramHash, nestedWord, paramStreams, List.contains_iff_mem] at hword hsub
  by_cases hvisiting : j ∈ visiting
  · rw [if_pos hvisiting] at hword
    exact .inl ⟨hvisiting, (Option.some.inj hword).symm⟩
  · rw [if_neg hvisiting] at hword hsub
    split at hword
    · cases hword
    · rename_i hlocked
      obtain ⟨c, hc, rfl⟩ := Option.map_eq_some_iff.1 hword
      rw [hashWithin_of_locked hc, Option.getD_some, List.cons_subset] at hsub
      exact .inr ⟨hlocked, c, ⟨hc, hsub.2⟩, hsub.1, rfl⟩

/-- The word for any other parameter is a digest. -/
theorem literal (hv : ∀ k, st.getParam n ≠ .wire k) :
    (st.getParam n).octets Sip.digest ∈ streams ∧
      Sip.digest ((st.getParam n).octets Sip.digest) = word := by
  have hsub := h.params n hn
  cases hparam : st.getParam n <;> rw [hparam] at hword hsub
  case wire k => exact absurd hparam (hv k)
  all_goals exact ⟨hsub List.mem_cons_self, Option.some.inj hword⟩

end StageHashed

/-- The names of stages tell how many words they have. -/
theorem StageHashed.words_eq (h : code.StageHashed sort streams locked visiting depth i st words) :
    ∃ params, words = Sip.digest (octetsText st.name) :: params ∧ params.length = st.width := by
  have hhashes := h.hashes
  rw [Store.stageHashes_eq_mapM] at hhashes
  obtain ⟨params, hparams, rfl⟩ := Option.map_eq_some_iff.1 hhashes
  exact ⟨params, rfl, by simpa using (mapM_eq_some_iff.1 hparams).length_eq.symm⟩

namespace Comparable

variable (hcode : code.Comparable code' sort streams n n')

include hcode

theorem width_eq (hst : sort st) (hst' : sort st') (hname : st.name = st'.name) :
    st.width = st'.width := by
  rw [Stage.width_eq_widthOf (hcode.builtIn _ hst), Stage.width_eq_widthOf (hcode.builtIn _ hst'),
    hname]

/-- Where stages have the same words, one after the other, each has a counterpart of the same name and
with the same words. -/
theorem forall₂_of_words_eq {stages' : List (Stage H)} {parts parts' : List (List UInt64)}
    (h : List.Forall₂ (code.StageHashed sort streams locked visiting depth i) stages parts)
    (h' : List.Forall₂ (code'.StageHashed sort streams locked' visiting' depth' i) stages' parts')
    (heq : parts.flatten = parts'.flatten) :
    List.Forall₂ (fun st' st => st.name = st'.name ∧ ∃ words,
      code.StageHashed sort streams locked visiting depth i st words ∧
      code'.StageHashed sort streams locked' visiting' depth' i st' words) stages' stages := by
  induction h generalizing stages' parts' with
  | nil =>
    cases h' with
    | nil => exact .nil
    | cons hst' hrest' =>
      obtain ⟨params', rfl, -⟩ := hst'.words_eq
      cases heq
  | @cons st words stages parts hst hrest ih =>
    obtain ⟨params, rfl, hwidth⟩ := hst.words_eq
    cases h' with
    | nil => cases heq
    | @cons st' words' stages' parts' hst' hrest' =>
      obtain ⟨params', rfl, hwidth'⟩ := hst'.words_eq
      simp only [List.flatten_cons, List.cons_append, List.cons.injEq] at heq
      have hname : st.name = st'.name :=
        octetsText_injective (hcode.apart _ hst.name _ hst'.name heq.1)
      have hlength : params.length = params'.length := by
        rw [hwidth, hwidth', hcode.width_eq hst.sort hst'.sort hname]
      obtain ⟨rfl, hflat⟩ := List.append_inj heq.2 hlength
      exact .cons ⟨hname, _, hst, by rw [hname]; exact hst'⟩ (ih hrest' hflat)

/-- Stages of one name with the same words match. -/
theorem matches_of_words_eq
    (hfresh : ∀ l, TransGen code.Child i l → ¬ TransGen code.Child l l ∧ l ∉ visiting)
    (hi : i.row < n) (hi' : i.row < n') (hname : st.name = st'.name)
    (h : code.StageHashed sort streams [] visiting depth i st words)
    (h' : code'.StageHashed sort streams locked' visiting' depth' i st' words) :
    code.Matches code' sort streams n n' locked' i st' st := by
  have hb := hcode.builtIn _ h.sort
  have hwidth := hcode.width_eq h.sort h'.sort hname
  have hnew : ∀ j, st.nested? = some j → j ∉ visiting := fun j hj =>
    (hfresh j (.single (h.child j hj))).2
  have hsome : ∀ k, st'.nested? = some k → st.nested? = some k ∧ k ∉ locked' ∧
      code.OneHash code' streams n n' locked' k := by
    intro k hk
    have hkrow : k.row < n' := hcode.closed'.child i hi' k (h'.child k hk)
    obtain ⟨m, hm, hparam', hparam⟩ := Stage.param_of_name_eq hb hname hk
    -- The word at the place of the wire.
    obtain ⟨word, hword, hword'⟩ :=
      Store.exists_word_of_words_eq h.hashes h'.hashes (hwidth ▸ hm) hm
    -- On one side it is the digest of nothing, or of a wire that is not being hashed.
    obtain ⟨a, ha, rfl, hcases⟩ : ∃ a ∈ streams, Sip.digest a = word ∧
        (a = [0] ∨ ∃ j c, st.nested? = some j ∧ code.Hashed streams [] (j :: visiting) depth j c ∧
          a = [j.row.toUInt64, c].flatMap octets64) := by
      rcases hparam with hnothing | ⟨j, hj, hnested⟩
      · have hliteral := h.literal (hwidth ▸ hm) hword (by simp [hnothing])
        rw [hnothing] at hliteral
        exact ⟨[0], hliteral.1, hliteral.2, .inl rfl⟩
      · rcases h.wire (hwidth ▸ hm) hword hj with ⟨hvisiting, -⟩ | ⟨-, c, hc, hstream, hdigest⟩
        · exact absurd hvisiting (hnew j hnested)
        · exact ⟨_, hstream, hdigest, .inr ⟨j, c, hnested, hc, rfl⟩⟩
    -- On the other side it is no identity, so the wire could be read and was not being hashed.
    rcases h'.wire hm hword' hparam' with ⟨-, hrow⟩ | ⟨hlocked', c', hc', hstream', hdigest'⟩
    · exact absurd hrow (hcode.rows a ha k.row hkrow)
    have heq := hcode.apart _ hstream' a ha hdigest'
    rcases hcases with rfl | ⟨j, c, hnested, hc, rfl⟩
    · exact nomatch (congrArg List.length heq : (16 : Nat) = 1)
    · have hwords := flatMap_octets64_injective heq
      simp only [List.cons.injEq, and_true] at hwords
      have hjrow : j.row < n := hcode.closed.child i hi j (h.child j hnested)
      have hnat := congrArg UInt64.toNat hwords.1
      simp only [Nat.toUInt64_eq, UInt64.toNat_ofNat'] at hnat
      rw [Nat.mod_eq_of_lt (hkrow.trans_le hcode.size'),
        Nat.mod_eq_of_lt (hjrow.trans_le hcode.size)] at hnat
      obtain rfl : k = j := congrArg Id.mk hnat
      obtain rfl := hwords.2
      refine ⟨hnested, hlocked', hjrow, hkrow, _, _, _, _, _, fun l hl => ?_, hc, hc'⟩
      -- Beneath a wire that is not below itself, nothing meets the wires that are being hashed.
      obtain ⟨hacyclic, hvisiting⟩ := hfresh l (.head (h.child k hnested) hl)
      refine ⟨hacyclic, ?_⟩
      rintro (_ | ⟨_, hmem⟩)
      · exact hacyclic hl
      · exact hvisiting hmem
  have hnested : st.nested? = st'.nested? := by
    cases hk : st'.nested? with
    | some k => exact (hsome k hk).1
    | none =>
      by_contra hne
      obtain ⟨j, hj⟩ := Option.ne_none_iff_exists'.1 hne
      obtain ⟨m, hm, hparam, hparam'⟩ :=
        Stage.param_of_name_eq (hcode.builtIn _ h'.sort) hname.symm hj
      obtain ⟨word, hword, hword'⟩ :=
        Store.exists_word_of_words_eq h.hashes h'.hashes hm (hwidth ▸ hm)
      rcases hparam' with hnothing | ⟨k, -, hk'⟩
      · obtain ⟨hmem, hdigest⟩ := h'.literal (hwidth ▸ hm) hword' (by simp [hnothing])
        rw [hnothing] at hmem hdigest
        rcases h.wire hm hword hparam with ⟨hvisiting, -⟩ | ⟨-, c, -, hstream, rfl⟩
        · exact hnew j hj hvisiting
        · exact nomatch
            (congrArg List.length (hcode.apart _ hmem _ hstream hdigest) : (1 : Nat) = 16)
      · rw [hk] at hk'
        cases hk'
  refine ⟨⟨h.sort, h'.sort⟩, hname, hnested, fun m hm hv hv' => ?_,
    fun k hk => ⟨h.child k hk, (hsome k (hnested.symm.trans hk)).2⟩⟩
  obtain ⟨word, hword, hword'⟩ := Store.exists_word_of_words_eq h.hashes h'.hashes hm (hwidth ▸ hm)
  obtain ⟨hmem, hdigest⟩ := h.literal hm hword hv
  obtain ⟨hmem', hdigest'⟩ := h'.literal (hwidth ▸ hm) hword' hv'
  exact hcode.apart _ hmem _ hmem' (hdigest.trans hdigest'.symm)

variable (hhash : code.OneHash code' streams n n' locked' i)

include hhash

/-- The stages of two wires with one hash match. -/
theorem matches_of_hash_eq :
    ∃ stages stages' : List (Stage H), code i = some (stages.map some) ∧
      code' i = some (stages'.map some) ∧
      List.Forall₂ (code.Matches code' sort streams n n' locked' i) stages' stages := by
  obtain ⟨hi, hi', visiting, visiting', depth, depth', c, hfresh, h, h'⟩ := hhash
  obtain ⟨stages, depth, parts, hstages, hparts, hmem, rfl⟩ := h.stagesHashed hcode.closed hi
  obtain ⟨stages', depth', parts', hstages', hparts', hmem', hc⟩ := h'.stagesHashed hcode.closed' hi'
  -- The words of both wires are the same, so their stages match.
  have hwords := flatMap_octets64_injective (hcode.apart _ hmem _ hmem' hc.symm)
  refine ⟨stages, stages', hstages, hstages',
    (hcode.forall₂_of_words_eq hparts hparts' (List.cons.inj hwords).2).imp ?_⟩
  rintro st' st ⟨hname, words, hw, hw'⟩
  exact hcode.matches_of_words_eq hfresh hi hi' hname hw hw'

/-- Wires with one hash run the same wires, which are not locked and have one hash again. -/
theorem child_of_hash_eq {k : Id .wire} (hk : code.Child i k ∨ code'.Child i k) :
    code.Child i k ∧ k ∉ locked' ∧ code.OneHash code' streams n n' locked' k := by
  obtain ⟨stages, stages', hstages, hstages', hmatch⟩ := hcode.matches_of_hash_eq hhash
  rcases hk with ⟨plans, hplans, st, hst, hk⟩ | ⟨plans, hplans, st', hst', hk⟩
  · obtain rfl := Option.some.inj (hstages.symm.trans hplans)
    obtain ⟨st', hm⟩ := exists_of_forall₂ hmatch.flip (by simpa using hst)
    exact hm.hash k hk
  · obtain rfl := Option.some.inj (hstages'.symm.trans hplans)
    obtain ⟨st, hm⟩ := exists_of_forall₂ hmatch (by simpa using hst')
    exact hm.hash k (hm.nested.trans hk)

/-- So it is below them. -/
theorem below_of_hash_eq {a : Id .wire} (ha : code.Below i a ∨ code'.Below i a) :
    code.OneHash code' streams n n' locked' a := by
  rcases ha with ha | ha
  · induction ha with
    | refl => exact hhash
    | tail _ hstep ih => exact (hcode.child_of_hash_eq ih (.inl hstep)).2.2
  · induction ha with
    | refl => exact hhash
    | tail _ hstep ih => exact (hcode.child_of_hash_eq ih (.inr hstep)).2.2

end Comparable

end Code

end Dataflow
