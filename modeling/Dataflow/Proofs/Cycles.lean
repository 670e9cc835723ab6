import Dataflow.Proofs.Discipline
import Dataflow.Proofs.Trail
import Dataflow.Proofs.Vetting
/-!
# Composition rejects cycles

Wires may run each other in any way, also in circles. A composition that starts anywhere in such a
heap ends, and it succeeds only if nothing below the wire runs itself. Composing afresh follows all
wires that a wire runs, and refuses those that are on the stack. A memo cuts the search short: it
was left by a composition that succeeded, when nothing below the wire ran itself, and answers only
where the content has the same hash, so that the wire still runs the same wires.
-/

namespace Dataflow

variable {H : Host} {s : Store H}

open Relation (TransGen ReflTransGen)

/-! ### Queries -/

/-- A request to compose a wire, with the code and the number of wires when it was made. -/
structure Query (H : Host) where
  code : Code H
  size : Nat
  request : Request

namespace Query

/-- The octets that are hashed for the key of a query: for the site, and for the content. -/
def streams (q : Query H) : List (List UInt8) :=
  q.request.streams ++
    if q.request.content.isSome then q.code.hashStreams (q.size + 1) [] q.request.wire else []

/-- The digest tells apart the octets that are hashed for the keys of the queries, and does not
answer the identity of a wire. -/
def Distinct (queries : List (Query H)) : Prop :=
  Apart (queries.flatMap streams) ∧
    ∀ a ∈ queries.flatMap streams, ∀ q ∈ queries, ∀ row < q.size, Sip.digest a ≠ row.toUInt64

instance (queries : List (Query H)) : Decidable (Distinct queries) :=
  inferInstanceAs (Decidable (_ ∧ ∀ a ∈ _, ∀ q ∈ _, ∀ row < _, _))

/-- What is hashed for the key of a query. -/
theorem streams_subset {L : List (Query H)} {q : Query H} (hq : q ∈ L) :
    q.request.streams ⊆ L.flatMap streams := fun _ ha =>
  List.mem_flatMap.2 ⟨q, hq, List.mem_append_left _ ha⟩

/-- What is hashed for the content of a query's wire. -/
theorem hashStreams_subset {L : List (Query H)} {q : Query H} (hq : q ∈ L) {c : UInt64}
    (hc : q.request.content = some c) :
    q.code.hashStreams (q.size + 1) [] q.request.wire ⊆ L.flatMap streams := by
  intro a ha
  refine List.mem_flatMap.2 ⟨q, hq, List.mem_append_right _ ?_⟩
  rw [hc]
  exact ha

/-- A query that found a wire acyclic, and whose answer was kept under a key. -/
structure Attests (q : Query H) (j : Id .wire) (k : UInt64) : Prop where
  closed : q.code.Closed (·.isBuiltIn = true) {i | i.row < q.size}
  size : q.size ≤ UInt64.size
  wire : q.request.wire = j
  row : j.row < q.size
  key : q.request.key = some k
  content : ∀ c, q.request.content = some c → q.code.hashWithin [] (q.size + 1) [] j = some c
  acyclic : q.code.Acyclic j

end Query

namespace Store

/-- The queries of a composition that starts here. -/
def queries (s : Store H) (requests : List Request) : List (Query H) :=
  requests.map (⟨s.code, s.wires.size, ·⟩)

/-- All wires are made of built-in stages and run only wires of the store. -/
structure IsHeap (s : Store H) : Prop where
  closed : s.code.Closed (·.isBuiltIn = true) {i | i.row < s.wires.size}
  size : s.wires.size ≤ UInt64.size

theorem IsHeap.of_code_eq {s₀ : Store H} (h : s₀.IsHeap) (hcode : s.code = s₀.code) : s.IsHeap := by
  have hsize : s.wires.size = s₀.wires.size := size_of_code_eq hcode
  exact ⟨by rw [hcode, hsize]; exact h.closed, by rw [hsize]; exact h.size⟩

theorem IsHeap.contentHash_eq (h : s.IsHeap) (locked : List (Id .wire)) {i : Id .wire} {w : Wire H}
    (hw : s.wires.get? i = some w) :
    s.contentHash locked s.depthBound [] w = s.code.hashWithin locked (s.wires.size + 1) [] i :=
  contentHash_eq_hashWithin h.closed
    (fun _ _ k _ => (Nat.lt_or_ge k.row s.wires.size).imp_right Array.getElem?_eq_none) _ _ _
    (row_lt_of_get? hw) hw

/-- A key under which the answer to one of the queries was kept, which found the wire acyclic. -/
def Attested (L : List (Query H)) (j : Id .wire) (k : UInt64) : Prop := ∃ q ∈ L, q.Attests j k

/-! ### Composing wires -/

section Clearing

variable {L : List (Query H)} {s : Store H} {id : Id .wire} {locked : List (Id .wire)}
  {wire : Wire H} {site : Site} {k : UInt64}

/-- Where a memo answers, the wire has the hash that it had for the query behind the memo, in
streams that can be compared. -/
theorem oneHash_of_attests {q : Query H} (hqL : q ∈ L) (h : q.Attests id k) (hL : Query.Distinct L)
    (hs : s.IsHeap) (hw : s.wires.get? id = some wire) {recalled : Bool}
    (hq : ⟨s.code, s.wires.size, ⟨id, site, s.contentHash (id :: locked) s.depthBound [] wire,
      recalled⟩⟩ ∈ L)
    (hk : s.composeKey (id :: locked) wire site = some k) :
    q.code.OneHash s.code (L.flatMap Query.streams) q.size s.wires.size (id :: locked) id ∧
      ∃ c, q.request.site.keyWords c = site.keyWords c := by
  have hkey := (composeKey_eq s (id :: locked) wire site).symm.trans hk
  obtain ⟨c, hc, hc', hwords⟩ :=
    Request.words_eq hL.1 (Query.streams_subset hqL) (Query.streams_subset hq) h.key hkey
  have hmem := Query.hashStreams_subset hqL hc
  rw [h.wire] at hmem
  refine ⟨⟨h.row, row_lt_of_get? hw, [], [], _, _, c,
    fun l hl => ⟨h.acyclic l hl.to_reflTransGen, List.not_mem_nil⟩, ⟨h.content c hc, hmem⟩,
    ⟨?_, Query.hashStreams_subset hq hc'⟩⟩, c, hwords⟩
  rw [← hs.contentHash_eq _ hw]
  exact hc'

/-- Where a memo answers, the wire is clear of all locked wires. -/
theorem Attested.clears (h : Attested L id k) (hL : Query.Distinct L) (hs : s.IsHeap)
    (hw : s.wires.get? id = some wire) {recalled : Bool}
    (hq : ⟨s.code, s.wires.size, ⟨id, site, s.contentHash (id :: locked) s.depthBound [] wire,
      recalled⟩⟩ ∈ L)
    (hk : s.composeKey (id :: locked) wire site = some k) (hid : id ∉ locked) :
    s.code.Clears locked id := by
  obtain ⟨q, hqL, hattests⟩ := h
  obtain ⟨hhash, -⟩ := oneHash_of_attests hqL hattests hL hs hw hq hk
  have hcode : q.code.Comparable s.code (·.isBuiltIn = true) (L.flatMap Query.streams) q.size
      s.wires.size := ⟨fun _ hst => hst, hattests.closed, hs.closed, hattests.size, hs.size, hL.1,
    fun x hx row hrow => hL.2 x hx _ hq row hrow⟩
  refine Code.clears_of_acyclic hid hattests.acyclic fun a b ha hab => ?_
  obtain ⟨hchild, hlocked, -⟩ := hcode.child_of_hash_eq (hcode.below_of_hash_eq hhash (.inr ha))
    (.inr hab)
  exact ⟨hchild, fun hb => hlocked (List.mem_cons_of_mem _ hb)⟩

/-- A query that finds a wire clear attests its answer. -/
theorem attests_of_clears (hs : s.IsHeap) (hw : s.wires.get? id = some wire) (recalled : Bool)
    (hk : s.composeKey (id :: locked) wire site = some k) (h : s.code.Clears locked id) :
    Query.Attests ⟨s.code, s.wires.size, ⟨id, site, s.contentHash (id :: locked) s.depthBound [] wire,
      recalled⟩⟩ id k := by
  refine ⟨hs.closed, hs.size, rfl, row_lt_of_get? hw, ?_, fun c hc => ?_, h.1⟩
  · rw [← hk]
    exact (composeKey_eq ..).symm
  · have hhash : s.code.hashWithin (id :: locked) (s.wires.size + 1) [] id = some c := by
      rw [← hc]
      exact (hs.contentHash_eq _ hw).symm
    exact Code.hashWithin_of_locked hhash

/-- The discipline by which compositions clear wires. -/
def clearing {s₀ : Store H} (hL : Query.Distinct L) (hheap : s₀.IsHeap) :
    Discipline s₀.code {i | i.row < s₀.wires.size} where
  asked r := ⟨s₀.code, s₀.wires.size, r⟩ ∈ L
  promise j k _ _ := Attested L j k
  fit _ := True
  known _ _ _ := True
  good locked j _ _ _ := s₀.code.Clears locked j
  lasting := True
  sort := (·.isBuiltIn = true)
  closed := hheap.closed
  start _ := trivial
  inner _ _ _ := trivial
  leaf _ _ _ _ _ _ := trivial
  nest _ _ _ := trivial
  fresh := by
    intro id locked wire site b _ hlocked hplans _ hcomposes
    refine Code.clears_of_child hlocked fun j hj => ?_
    obtain ⟨plans, hplans', st, hst, hnested⟩ := hj
    obtain rfl := Option.some.inj (hplans.symm.trans hplans')
    obtain ⟨p, hp, hplan⟩ := List.mem_map.1 hst
    obtain ⟨-, rfl⟩ := Stage.plan?_eq_some_iff.1 hplan
    obtain ⟨-, -, -, hclears⟩ := hcomposes.good hp (by rwa [Stage.nested?_bare] at hnested)
    exact hclears
  revive := by
    intro s id locked wire site k signature _ recalled hcode _ hlocked hw _ hq hk h
    rw [← hcode, ← size_of_code_eq hcode] at hq
    rw [← hcode]
    exact h.clears hL (hheap.of_code_eq hcode) hw hq hk hlocked
  keep := by
    intro s id locked wire site k signature _ recalled hcode _ _ hw _ hq hk h
    rw [← hcode, ← size_of_code_eq hcode] at hq
    rw [← hcode] at h
    exact ⟨_, hq, attests_of_clears (hheap.of_code_eq hcode) hw recalled hk h⟩

end Clearing

/-! ### Earlier compositions -/

/-- What may have happened to the wires of a store since none of them was composed: compositions, of
shared or of owned wires, whether they succeeded or not, and edits of any kind, which drop the memos
of some wires. The queries are those of all compositions. -/
inductive Past : List (Query H) → Store H → Prop where
  | fresh {s : Store H} (h : ∀ j w, s.wires.get? j = some w → w.composed = none) : Past [] s
  | compose {L : List (Query H)} {s : Store H} (h : Past L s) (hs : s.IsHeap) (owned : Bool)
      (id : Id .wire) (site : Site) :
      Past (L ++ s.queries (requestsAs owned id site s)) (s.eval (composeAs owned id site)).2
  | edit {L : List (Query H)} {s s' : Store H} (h : Past L s)
      (hmemos : ∀ j w', s'.wires.get? j = some w' → w'.composed = none ∨
        ∃ w, s.wires.get? j = some w ∧ w'.composed = w.composed) : Past L s'

/-- Whatever has happened, all memos are attested. -/
theorem Past.attested {L L' : List (Query H)} (h : Past L s) (hL : Query.Distinct L')
    (hsub : L ⊆ L') : s.Remembers (fun j k _ _ => Attested L' j k) Set.univ := by
  induction h with
  | fresh hfresh =>
    intro j _ w m k hw hm
    rw [hfresh j w hw] at hm
    cases hm
  | @compose L s h hs owned id site ih =>
    have hkept : (clearing hL hs).Kept s :=
      ⟨rfl, fun j _ => ih (fun q hq => hsub (List.mem_append_left _ hq)) j trivial⟩
    have hkept' := (Discipline.lasts owned trivial (fun w hw => row_lt_of_get? hw) trivial (fun r hr =>
      hsub (List.mem_append_right _ (List.mem_map.2 ⟨r, hr, rfl⟩))) hkept).1
    intro j _ w m k hw hm hk
    have hrow := row_lt_of_get? hw
    rw [size_of_code_eq hkept'.1] at hrow
    exact hkept'.2 j hrow w m k hw hm hk
  | edit h hmemos ih =>
    refine (ih hsub).of_composed fun j _ w' hw' => ?_
    obtain hnone | ⟨w, hw, hcomposed⟩ := hmemos j w' hw'
    · exact .inl hnone
    · exact .inr ⟨w, hw, hcomposed, fun _ _ h => h⟩

/-- A wire that runs another one twice, once through a third one, and two wires that run each
other. -/
def circling : Store Host.none :=
  let (leaf, s) := ({} : Store Host.none).addWire "leaf" false
  let (inner, s) := s.addWire "inner" false
  let (outer, s) := s.addWire "outer" false
  let (here, s) := s.addWire "here" false
  let (there, s) := s.addWire "there" false
  let runs (wire : Id .wire) : Placed Host.none := { stage := .inline { wire := some wire } }
  let s := s.modifyWire leaf fun x => { x with stages := [{ stage := .pass }] }
  let s := s.modifyWire inner fun x => { x with stages := [runs leaf] }
  let s := s.modifyWire outer fun x => { x with stages := [runs inner, runs leaf] }
  let s := s.modifyWire here fun x => { x with stages := [runs there] }
  s.modifyWire there fun x => { x with stages := [runs here] }

/-- The wires after the one that is run twice has been composed, and the one in between edited. -/
def circlingEdited : Store Host.none :=
  ((circling.eval (composeAs false ⟨2⟩ (plainSite .int))).2).modifyWire ⟨1⟩
    (·.push { stage := .pass })

theorem isHeap_of_rows (hsize : s.wires.size ≤ UInt64.size)
    (h : ∀ w ∈ s.wires.rows.toList, ∀ p ∈ w.stages, p.stage.isBuiltIn = true ∧
      ∀ j ∈ p.stage.nested?, j.row < s.wires.size) : s.IsHeap where
  closed := closed_of_rows fun w hw p hp => ⟨(h w hw p hp).1, by simpa using (h w hw p hp).1,
    (h w hw p hp).2⟩
  size := hsize

theorem past_circlingEdited :
    Past (circling.queries (requestsAs false ⟨2⟩ (plainSite .int) circling)) circlingEdited := by
  have hfresh : ∀ w ∈ circling.wires.rows.toList, w.composed.isNone = true := by decide +kernel
  have hheap : circling.IsHeap := isHeap_of_rows (by decide +kernel) (by decide +kernel)
  have hpast : Past [] circling := .fresh fun j w hw => by
    simpa using hfresh w (Array.mem_toList_iff.2 (Array.mem_of_getElem? hw))
  refine .edit (hpast.compose hheap false ⟨2⟩ (plainSite .int)) fun j w' hw' => ?_
  unfold circlingEdited at hw'
  obtain ⟨rfl, w, -, rfl⟩ | ⟨-, hw'⟩ := get?_of_modifyWire hw'
  · exact .inl rfl
  · exact .inr ⟨w', hw', rfl⟩

end Store

end Dataflow
