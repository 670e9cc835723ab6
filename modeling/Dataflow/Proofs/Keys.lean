import Dataflow.Proofs.Transparency
/-!
# Keys of corresponding requests

A memo answers a request whose key is the one that it was left with. Two compositions that ask for
the same wires, in other surroundings or on another board, go through the same requests with other
keys. Unless hashes collide, two requests have one key in the one composition if and only if they
have one key in the other, so that the same requests are answered from memos.
-/

namespace Dataflow

variable {H : Host} {A E F as bs : List VarDecl} {requests : List Request} {r r' : Request}
  {k : UInt64}

/-! ### Keys -/

namespace VarDecl

theorem fingerprints_of_perm (h : (as.map hash).Perm (bs.map hash)) :
    fingerprints as = fingerprints bs := by
  have hsorted := sortBy_eq_iff.2 h
  unfold fingerprints fingerprintsBy
  dsimp only
  rw [show (fun d => Sip.digest (octets Sip.digest d)) = hash from rfl, hsorted]

end VarDecl

/-- Requests with one key that show some variables behind the same surroundings show the same
variables there, as far as hashes go. -/
theorem NoCollision.perm_of_key_eq (h : NoCollision requests) (hr : r ∈ requests)
    (hr' : r' ∈ requests) (hk : r.key = some k) (hk' : r'.key = some k)
    (hshared : r.site.shared = A ++ E) (hshared' : r'.site.shared = A ++ F) :
    r.content = r'.content ∧ r.site.input.fingerprint = r'.site.input.fingerprint ∧
      r.site.board.row.toUInt64 = r'.site.board.row.toUInt64 ∧
      (E.map VarDecl.hash).Perm (F.map VarDecl.hash) ∧
      ∀ x, x ∈ E.map (·.name) ↔ x ∈ F.map (·.name) := by
  obtain ⟨c, hc, hc', hwords⟩ :=
    Request.words_eq h (Request.streams_subset hr) (Request.streams_subset hr') hk hk'
  simp only [Site.keyWords, List.cons.injEq, and_true] at hwords
  obtain ⟨hinput, hfingerprints, hboard⟩ := hwords
  have hsub := List.Subset.trans (Request.shared_subset hc) (Request.streams_subset hr)
  have hsub' := List.Subset.trans (Request.shared_subset hc') (Request.streams_subset hr')
  have hperm : (E.map VarDecl.hash).Perm (F.map VarDecl.hash) := by
    have hall := VarDecl.perm_of_fingerprints h hsub hsub' hfingerprints
    rw [hshared, hshared', List.map_append, List.map_append] at hall
    exact (List.perm_append_left_iff _).1 hall
  -- A hash tells the name.
  have hname : ∀ {E F : List VarDecl} {r r' : Request},
      VarDecl.streams r.site.shared ⊆ requests.flatMap Request.streams →
      VarDecl.streams r'.site.shared ⊆ requests.flatMap Request.streams →
      r.site.shared = A ++ E → r'.site.shared = A ++ F →
      (E.map VarDecl.hash).Perm (F.map VarDecl.hash) →
        ∀ x, x ∈ E.map (·.name) → x ∈ F.map (·.name) := by
    rintro E F r r' hsub hsub' hE hF hperm x hx
    obtain ⟨d, hd, rfl⟩ := List.mem_map.1 hx
    obtain ⟨e, he, hhash⟩ := List.mem_map.1 (hperm.subset (List.mem_map.2 ⟨d, hd, rfl⟩))
    have hoctets := h _
      (hsub' (VarDecl.octets_mem_streams (hF ▸ List.mem_append_right A he))) _
      (hsub (VarDecl.octets_mem_streams (hE ▸ List.mem_append_right A hd))) hhash
    exact List.mem_map.2 ⟨e, he, (VarDecl.octets_inj hoctets).1⟩
  exact ⟨hc.trans hc'.symm, hinput, hboard, hperm, fun x =>
    ⟨hname hsub hsub' hshared hshared' hperm x, hname hsub' hsub hshared' hshared hperm.symm x⟩⟩

/-- Two requests with one key still have one key when other surroundings and other boards are put
in place of those that they share. -/
theorem NoCollision.key_eq_of_key_eq (h : NoCollision requests) {q q' : Request} (hr : r ∈ requests)
    (hq : q ∈ requests) (hk : r.key = some k) (hk' : q.key = some k) {B : List VarDecl}
    (hshared : r.site.shared = A ++ E) (hshared' : q.site.shared = A ++ F)
    (hr' : r'.site.shared = B ++ E) (hq' : q'.site.shared = B ++ F)
    (hinput : r'.site.input = r.site.input) (hinput' : q'.site.input = q.site.input)
    (hboard : r.site.board.row.toUInt64 = q.site.board.row.toUInt64 →
      r'.site.board.row.toUInt64 = q'.site.board.row.toUInt64) (hcontent : r'.content = r.content)
    (hcontent' : q'.content = q.content) :
    (∃ k', r'.key = some k' ∧ q'.key = some k') ∧ ∀ x, x ∈ E.map (·.name) ↔ x ∈ F.map (·.name) := by
  obtain ⟨c, hc, -⟩ := Option.map_eq_some_iff.1 hk
  obtain ⟨hsame, hfingerprint, hrow, hperm, hnames⟩ := h.perm_of_key_eq hr hq hk hk' hshared hshared'
  have hvariables : VarDecl.fingerprints r'.site.shared = VarDecl.fingerprints q'.site.shared := by
    rw [hr', hq']
    refine VarDecl.fingerprints_of_perm ?_
    rw [List.map_append, List.map_append]
    exact hperm.append_left _
  have hwords : r'.site.keyWords c = q'.site.keyWords c := by
    rw [Site.keyWords, Site.keyWords, hinput, hinput', hfingerprint, hvariables, hboard hrow]
  refine ⟨⟨combine Sip.digest (r'.site.keyWords c), ?_, ?_⟩, hnames⟩
  · rw [Request.key, hcontent, hc]
    rfl
  · rw [Request.key, hcontent', ← hsame, hc, hwords]
    rfl

/-! ### Memos -/

namespace Store

/-- What a memo answers to a request with a key. -/
def recallBy : Option UInt64 → Option Memo → Option Signature
  | some key, some ⟨some known, signature⟩ => if key = known then some signature else none
  | _, _ => none

theorem recallBy_eq_some_iff {key : Option UInt64} {m : Option Memo} {g : Signature} :
    recallBy key m = some g ↔ ∃ k, key = some k ∧ m = some ⟨some k, g⟩ := by
  unfold recallBy
  split
  · rename_i k known signature
    split_ifs with hk
    · subst hk
      simp
    · simp only [Option.some.injEq, Memo.mk.injEq, false_iff, not_exists, not_and]
      rintro _ rfl rfl
      exact absurd rfl hk
  · rename_i hne
    simp only [reduceCtorEq, false_iff, not_exists, not_and]
    rintro k rfl rfl
    exact hne _ _ _ rfl rfl

/-- The request of a wire comes first among those of its composition. -/
theorem own_mem_lockedRequests {s : Store H} {id : Id .wire} {wire : Wire H}
    (hw : s.wires.get? id = some wire) (nested : NestedCompose H) (requests : NestedRequests H)
    (locked : List (Id .wire)) (site : Site) :
    ⟨id, site, s.contentHash locked s.depthBound [] wire, (s.recalled? locked wire site).isSome⟩ ∈
      lockedRequests nested requests locked id site s := by
  unfold lockedRequests
  simp only [hw]
  cases s.recalled? locked wire site with
  | some signature => exact List.mem_cons_self
  | none => exact List.mem_cons_self

theorem recalled?_eq (s : Store H) (locked : List (Id .wire)) (id : Id .wire) (wire : Wire H)
    (site : Site) (recalled : Bool) : s.recalled? locked wire site =
      recallBy (Request.key ⟨id, site, s.contentHash locked s.depthBound [] wire, recalled⟩)
        wire.composed := by
  rw [recalled?, composeKey_eq]
  rfl

end Store

end Dataflow
