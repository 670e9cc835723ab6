import Dataflow.Proofs.Streams
import Dataflow.Value.Typing
/-!
# What fingerprints of types tell

The octets of a type are a tagged stream. Keys are closed by an octet that no text holds, lists are
announced by their length, tables and references are written in place. The element types of a
sequence go in by their own hashes, as a set. So the stream can be read from the front, type by
type, and what it does not tell is the order and the repetition of element types.

The type of a value is hashed without being built. The stream is the same: building the type drops
repeated element types and sorts them, and both are lost on a set of hashes.
-/

namespace Dataflow

variable {items : List UInt64} {r r' : List UInt8} {ts as bs : List Ty} {a b : UInt64}
  {S : List (List UInt8)}

/-! ### Sets of hashes -/

theorem mem_insertUnique : b ∈ insertUnique a items ↔ b = a ∨ b ∈ items := by
  induction items with
  | nil => simp [insertUnique]
  | cons c rest ih =>
    unfold insertUnique
    split
    · next h => simp [h]
    · split
      · simp
      · simp only [List.mem_cons, ih]
        grind

theorem pairwise_insertUnique (h : items.Pairwise (· < ·)) :
    (insertUnique a items).Pairwise (· < ·) := by
  induction items with
  | nil => simp [insertUnique]
  | cons c rest ih =>
    obtain ⟨hc, hrest⟩ := List.pairwise_cons.1 h
    unfold insertUnique
    split
    · exact h
    · next hne =>
      split
      · next hlt =>
        refine List.pairwise_cons.2 ⟨fun b hb => ?_, h⟩
        rcases List.mem_cons.1 hb with rfl | hb
        · exact hlt
        · exact UInt64.lt_trans hlt (hc b hb)
      · next hnlt =>
        refine List.pairwise_cons.2 ⟨fun b hb => ?_, ih hrest⟩
        rcases mem_insertUnique.1 hb with rfl | hb
        · exact UInt64.lt_of_le_of_ne (UInt64.not_lt.1 hnlt) (Ne.symm hne)
        · exact hc b hb

theorem mem_sortUnique : b ∈ sortUnique items ↔ b ∈ items := by
  have hfold : ∀ sorted, b ∈ items.foldl (fun sorted a => insertUnique a sorted) sorted ↔
      b ∈ sorted ∨ b ∈ items := by
    induction items with
    | nil => simp
    | cons a rest ih =>
      intro sorted
      rw [List.foldl_cons, ih, mem_insertUnique]
      grind
  simp [sortUnique, hfold]

theorem pairwise_sortUnique (items : List UInt64) : (sortUnique items).Pairwise (· < ·) := by
  have hfold : ∀ sorted : List UInt64, sorted.Pairwise (· < ·) →
      (items.foldl (fun sorted a => insertUnique a sorted) sorted).Pairwise (· < ·) := by
    induction items with
    | nil => simp
    | cons a rest ih =>
      intro sorted h
      exact ih _ (pairwise_insertUnique h)
  exact hfold [] .nil

theorem nodup_sortUnique (items : List UInt64) : (sortUnique items).Nodup :=
  (pairwise_sortUnique items).imp fun h => UInt64.ne_of_lt h

/-- Sorted without repetitions, lists are known by their elements. -/
theorem sortUnique_eq_iff {as bs : List UInt64} :
    sortUnique as = sortUnique bs ↔ ∀ h, h ∈ as ↔ h ∈ bs := by
  constructor
  · intro heq h
    rw [← mem_sortUnique, heq, mem_sortUnique]
  · intro hmem
    have hperm : (sortUnique as).Perm (sortUnique bs) := by
      refine (List.perm_ext_iff_of_nodup (nodup_sortUnique as) (nodup_sortUnique bs)).2 fun h => ?_
      rw [mem_sortUnique, mem_sortUnique, hmem]
    refine hperm.eq_of_pairwise ?_ (pairwise_sortUnique as) (pairwise_sortUnique bs)
    intro a b _ _ hab hba
    exact absurd (UInt64.lt_trans hab hba) (UInt64.lt_irrefl a)

theorem length_sortUnique_le (items : List UInt64) : (sortUnique items).length ≤ items.length :=
  (nodup_sortUnique items).length_le_of_subset fun _ h => mem_sortUnique.1 h

/-! ### Reading a stream from the front -/

theorem flatMap_octets64_append_inj {as bs : List UInt64} (hlen : as.length = bs.length)
    (h : as.flatMap octets64 ++ r = bs.flatMap octets64 ++ r') : as = bs ∧ r = r' := by
  have hlen' : (as.flatMap octets64).length = (bs.flatMap octets64).length := by
    simp only [List.length_flatMap, length_octets64, List.map_const', List.sum_replicate_nat, hlen]
  obtain ⟨hwords, hrest⟩ := List.append_inj h hlen'
  exact ⟨flatMap_octets64_injective hwords, hrest⟩

/-- A set of hashes can be told from what follows it. -/
theorem octetsHashSet_append_inj {as bs : List UInt64} (ha : as.length < UInt64.size)
    (hb : bs.length < UInt64.size) (h : octetsHashSet as ++ r = octetsHashSet bs ++ r') :
    (∀ x, x ∈ as ↔ x ∈ bs) ∧ r = r' := by
  simp only [octetsHashSet, List.append_assoc] at h
  obtain ⟨hlen, h⟩ := octetsLength_append_inj (Nat.lt_of_le_of_lt (length_sortUnique_le as) ha)
    (Nat.lt_of_le_of_lt (length_sortUnique_le bs) hb) h
  obtain ⟨hset, hrest⟩ := flatMap_octets64_append_inj hlen h
  exact ⟨sortUnique_eq_iff.1 hset, hrest⟩

theorem flatMap_octetsText_append_inj {ks ls : List String} (hlen : ks.length = ls.length)
    (h : ks.flatMap octetsText ++ r = ls.flatMap octetsText ++ r') : ks = ls ∧ r = r' := by
  induction ks generalizing ls with
  | nil =>
    obtain rfl := List.eq_nil_of_length_eq_zero hlen.symm
    exact ⟨rfl, h⟩
  | cons k ks ih =>
    cases ls with
    | nil => cases hlen
    | cons l ls =>
      simp only [List.flatMap_cons, List.append_assoc] at h
      obtain ⟨rfl, htail⟩ := octetsText_append_inj h
      obtain ⟨rfl, hrest⟩ := ih (Nat.succ.inj hlen) htail
      exact ⟨rfl, hrest⟩

namespace Ty

/-! ### Types up to order and repetition -/

mutual

/-- Whether two types are the same up to the order and repetition of the element types of
sequences. -/
def alike : Ty → Ty → Bool
  | nothing, nothing => true
  | any, any => true
  | bool, bool => true
  | int, int => true
  | float, float => true
  | string, string => true
  | bytes, bytes => true
  | seq as, seq bs => eachAlike as bs && bs.all fun b => someAlike as b
  | table ks as, table ls bs => ks == ls && alikeAll as bs
  | object v k, object w l => v == w && k == l
  | ref as, ref bs => alikeAll as bs
  | wire, wire => true
  | type, type => true
  | _, _ => false
termination_by structural a => a

/-- Whether each of the types is like one of the others. -/
def eachAlike : List Ty → List Ty → Bool
  | [], _ => true
  | a :: as, bs => (bs.any fun b => alike a b) && eachAlike as bs
termination_by structural as => as

/-- Whether one of the types is like the given one. -/
def someAlike : List Ty → Ty → Bool
  | [], _ => false
  | a :: as, b => alike a b || someAlike as b
termination_by structural as => as

/-- Whether lists of types are alike, place by place. -/
def alikeAll : List Ty → List Ty → Bool
  | [], [] => true
  | a :: as, b :: bs => alike a b && alikeAll as bs
  | _, _ => false
termination_by structural as => as

end

theorem eachAlike_iff : eachAlike as bs = true ↔ ∀ a ∈ as, ∃ b ∈ bs, alike a b = true := by
  induction as with
  | nil => simp [eachAlike]
  | cons a as ih => simp [eachAlike, ih]

theorem someAlike_iff {b : Ty} : someAlike as b = true ↔ ∃ a ∈ as, alike a b = true := by
  induction as with
  | nil => simp [someAlike]
  | cons a as ih => simp [someAlike, ih]

/-- Sequences are alike if each element type of one is like one of the other. -/
theorem alike_seq : alike (seq as) (seq bs) = true ↔
    (∀ a ∈ as, ∃ b ∈ bs, alike a b = true) ∧ ∀ b ∈ bs, ∃ a ∈ as, alike a b = true := by
  simp [alike, eachAlike_iff, someAlike_iff]

/-! ### Streams and sizes -/

mutual

/-- Whether every list in the type has a length that can be written as a 64-bit word. No list of a
program is longer. -/
def fits : Ty → Bool
  | seq elements => decide (elements.length < UInt64.size) && fitsAll elements
  | table keys types =>
    decide (keys.length < UInt64.size) && decide (types.length < UInt64.size) && fitsAll types
  | ref inner => decide (inner.length < UInt64.size) && fitsAll inner
  | _ => true

/-- Whether all the types fit. -/
def fitsAll : List Ty → Bool
  | [] => true
  | t :: ts => fits t && fitsAll ts

end

theorem fitsAll_iff : fitsAll ts = true ↔ ∀ t ∈ ts, t.fits = true := by
  induction ts with
  | nil => simp [fitsAll]
  | cons t ts ih => simp [fitsAll, ih]

variable (digest : Digest)

mutual

/-- The octets that are hashed before those of the type itself: the element types of all sequences
in it. -/
def hashed : Ty → List (List UInt8)
  | seq elements => octetsEach digest elements ++ hashedEach elements
  | table _ types => hashedEach types
  | ref inner => hashedEach inner
  | _ => []

/-- The octets that are hashed before those of several types. -/
def hashedEach : List Ty → List (List UInt8)
  | [] => []
  | t :: ts => hashed t ++ hashedEach ts

end

/-- All octets that are hashed for the fingerprint of a type. -/
def streams (t : Ty) : List (List UInt8) := t.octets digest :: t.hashed digest

variable {digest}

theorem octetsEach_eq_map (ts : List Ty) : octetsEach digest ts = ts.map (octets digest) := by
  induction ts with
  | nil => rfl
  | cons t ts ih => rw [octetsEach, ih, List.map_cons]

theorem hashed_subset_hashedEach {t : Ty} (h : t ∈ ts) :
    t.hashed digest ⊆ hashedEach digest ts := by
  induction ts with
  | nil => cases h
  | cons u us ih =>
    rw [hashedEach]
    rcases List.mem_cons.1 h with rfl | h
    · exact List.subset_append_left _ _
    · exact List.subset_append_of_subset_right _ (ih h)

/-- The hashes of the element types of a sequence. -/
theorem mem_map_octetsEach {h : UInt64} :
    h ∈ (octetsEach digest ts).map digest ↔ ∃ t ∈ ts, t.fingerprintBy digest = h := by
  simp [octetsEach_eq_map, fingerprintBy]

/-! ### Types with the same octets -/

theorem octetsEach_of_alikeAll
    (hsame : ∀ a ∈ as, ∀ b, alike a b = true → a.octets digest = b.octets digest)
    (h : alikeAll as bs = true) :
    as.length = bs.length ∧ octetsEach digest as = octetsEach digest bs := by
  induction as generalizing bs with
  | nil =>
    cases bs with
    | nil => exact ⟨rfl, rfl⟩
    | cons b bs => cases h
  | cons a as ih =>
    cases bs with
    | nil => cases h
    | cons b bs =>
      simp only [alikeAll, Bool.and_eq_true] at h
      obtain ⟨hlen, hrest⟩ := ih (fun c hc => hsame c (List.mem_cons_of_mem a hc)) h.2
      have hfirst := hsame a List.mem_cons_self b h.1
      exact ⟨congrArg (· + 1) hlen, by rw [octetsEach, octetsEach, hfirst, hrest]⟩

/-- Types that are alike have the same octets. -/
theorem octets_of_alike (a b : Ty) (h : alike a b = true) : a.octets digest = b.octets digest := by
  induction a using byParts generalizing b with
  | step a ih =>
    cases a with
    | seq as =>
      cases b with
      | seq bs =>
        obtain ⟨hleft, hright⟩ := alike_seq.1 h
        have hset : ∀ x, x ∈ (octetsEach digest as).map digest ↔
            x ∈ (octetsEach digest bs).map digest := by
          intro x
          rw [mem_map_octetsEach, mem_map_octetsEach]
          constructor
          · rintro ⟨a, ha, rfl⟩
            obtain ⟨b, hb, hab⟩ := hleft a ha
            exact ⟨b, hb, congrArg digest (ih a ha b hab).symm⟩
          · rintro ⟨b, hb, rfl⟩
            obtain ⟨a, ha, hab⟩ := hright b hb
            exact ⟨a, ha, congrArg digest (ih a ha b hab)⟩
        rw [octets, octets, octetsHashSet, octetsHashSet, sortUnique_eq_iff.2 hset]
      | _ => cases h
    | table ks as =>
      cases b with
      | table ls bs =>
        simp only [alike, Bool.and_eq_true, beq_iff_eq] at h
        obtain ⟨rfl, h⟩ := h
        dsimp only [parts] at ih
        obtain ⟨hlen, hsame⟩ := octetsEach_of_alikeAll ih h
        rw [octets, octets, hlen, hsame]
      | _ => cases h
    | ref as =>
      cases b with
      | ref bs =>
        dsimp only [parts] at ih
        obtain ⟨hlen, hsame⟩ := octetsEach_of_alikeAll ih h
        rw [octets, octets, hlen, hsame]
      | _ => cases h
    | _ => cases b <;> simp_all [alike, octets]

/-! ### Types read back from octets -/

/-- A type can be read back from a stream that begins with it, up to alikeness, if the digest tells
apart what is in `S`. -/
def ReadsBack (digest : Digest) (S : List (List UInt8)) (a : Ty) : Prop :=
  a.fits = true → a.hashed digest ⊆ S → ∀ b : Ty, b.fits = true → b.hashed digest ⊆ S →
    ∀ r r', a.octets digest ++ r = b.octets digest ++ r' → alike a b = true ∧ r = r'

section ReadBack

theorem alikeAll_of_octets (hback : ∀ a ∈ as, ReadsBack digest S a) (hlen : as.length = bs.length)
    (ha : fitsAll as = true) (hb : fitsAll bs = true) (hSa : hashedEach digest as ⊆ S)
    (hSb : hashedEach digest bs ⊆ S)
    (h : (octetsEach digest as).flatten ++ r = (octetsEach digest bs).flatten ++ r') :
    alikeAll as bs = true ∧ r = r' := by
  induction as generalizing bs with
  | nil =>
    obtain rfl := List.eq_nil_of_length_eq_zero hlen.symm
    exact ⟨rfl, h⟩
  | cons a as ih =>
    cases bs with
    | nil => cases hlen
    | cons b bs =>
      simp only [fitsAll, Bool.and_eq_true] at ha hb
      rw [hashedEach, List.append_subset] at hSa hSb
      simp only [octetsEach, List.flatten_cons, List.append_assoc] at h
      obtain ⟨hfirst, h⟩ := hback a List.mem_cons_self ha.1 hSa.1 b hb.1 hSb.1 _ _ h
      obtain ⟨hrest, hr⟩ := ih (fun c hc => hback c (List.mem_cons_of_mem a hc)) (Nat.succ.inj hlen)
        ha.2 hb.2 hSa.2 hSb.2 h
      exact ⟨by rw [alikeAll, hfirst, hrest, Bool.and_self], hr⟩

variable (hS : ∀ x ∈ S, ∀ y ∈ S, digest x = digest y → x = y)

include hS

/-- Element types with the same hash are alike. -/
theorem alike_of_fingerprintBy (hback : ∀ a ∈ as, ReadsBack digest S a) (ha : fitsAll as = true)
    (hb : fitsAll bs = true) (hSa : hashed digest (seq as) ⊆ S) (hSb : hashed digest (seq bs) ⊆ S)
    {a b : Ty} (hmem : a ∈ as) (hmem' : b ∈ bs)
    (h : a.fingerprintBy digest = b.fingerprintBy digest) : alike a b = true := by
  rw [hashed, octetsEach_eq_map, List.append_subset] at hSa hSb
  have heq := hS _ (hSa.1 (List.mem_map_of_mem hmem)) _ (hSb.1 (List.mem_map_of_mem hmem')) h
  refine (hback a hmem (fitsAll_iff.1 ha a hmem) ?_ b (fitsAll_iff.1 hb b hmem') ?_ [] [] ?_).1
  · exact List.Subset.trans (hashed_subset_hashedEach hmem) hSa.2
  · exact List.Subset.trans (hashed_subset_hashedEach hmem') hSb.2
  · rw [heq]

theorem readsBack_seq (hback : ∀ a ∈ as, ReadsBack digest S a) : ReadsBack digest S (seq as) := by
  intro ha hSa b hb hSb r r' h
  cases b with
  | seq bs =>
    simp only [fits, Bool.and_eq_true, decide_eq_true_eq] at ha hb
    rw [octets, octets, List.cons_append, List.cons_append, List.cons.injEq] at h
    have hlen : ∀ ts : List Ty, ((octetsEach digest ts).map digest).length = ts.length := by
      simp [octetsEach_eq_map]
    obtain ⟨hset, hr⟩ := octetsHashSet_append_inj (by rw [hlen]; exact ha.1)
      (by rw [hlen]; exact hb.1) h.2
    refine ⟨alike_seq.2 ⟨fun a hmem => ?_, fun b hmem => ?_⟩, hr⟩
    · obtain ⟨b, hmem', heq⟩ := mem_map_octetsEach.1
        ((hset _).1 (mem_map_octetsEach.2 ⟨a, hmem, rfl⟩))
      exact ⟨b, hmem', alike_of_fingerprintBy hS hback ha.2 hb.2 hSa hSb hmem hmem' heq.symm⟩
    · obtain ⟨a, hmem', heq⟩ := mem_map_octetsEach.1
        ((hset _).2 (mem_map_octetsEach.2 ⟨b, hmem, rfl⟩))
      exact ⟨a, hmem', alike_of_fingerprintBy hS hback ha.2 hb.2 hSa hSb hmem' hmem heq⟩
  | _ => simp [octets] at h

end ReadBack

/-- Every type can be read back. -/
theorem readsBack (hS : ∀ x ∈ S, ∀ y ∈ S, digest x = digest y → x = y) (a : Ty) :
    ReadsBack digest S a := by
  induction a using byParts with
  | step a ih =>
    cases a with
    | seq as => exact readsBack_seq hS ih
    | table ks as =>
      intro ha hSa b hb hSb r r' h
      cases b with
      | table ls bs =>
        simp only [fits, Bool.and_eq_true, decide_eq_true_eq] at ha hb
        simp only [octets, List.cons_append, List.append_assoc, List.cons.injEq, true_and] at h
        obtain ⟨hkeys, h⟩ := octetsLength_append_inj ha.1.1 hb.1.1 h
        obtain ⟨rfl, htypes⟩ := flatMap_octetsText_append_inj hkeys h
        obtain ⟨hlen, htypes⟩ := octetsLength_append_inj ha.1.2 hb.1.2 htypes
        dsimp only [parts] at ih
        obtain ⟨hall, hr⟩ := alikeAll_of_octets ih hlen ha.2 hb.2 hSa hSb htypes
        exact ⟨by simp [alike, hall], hr⟩
      | _ => simp [octets] at h
    | ref as =>
      intro ha hSa b hb hSb r r' h
      cases b with
      | ref bs =>
        simp only [fits, Bool.and_eq_true, decide_eq_true_eq] at ha hb
        simp only [octets, List.cons_append, List.append_assoc, List.cons.injEq, true_and] at h
        obtain ⟨hlen, h⟩ := octetsLength_append_inj ha.1 hb.1 h
        dsimp only [parts] at ih
        exact alikeAll_of_octets ih hlen ha.2 hb.2 hSa hSb h
      | _ => simp [octets] at h
    | object v k =>
      intro ha hSa b hb hSb r r' h
      cases b with
      | object w l =>
        simp only [octets, List.cons_append, List.append_assoc, List.cons.injEq, true_and] at h
        obtain ⟨hv, h⟩ := List.append_inj h rfl
        obtain ⟨hk, hr⟩ := List.append_inj h rfl
        exact ⟨by simp [alike, octets32_injective hv, octets32_injective hk], hr⟩
      | _ => simp [octets] at h
    | _ =>
      intro ha hSa b hb hSb r r' h
      cases b <;> simp_all [alike, octets]

/-- Two types have the same fingerprint if they are the same up to the order and repetition of
element types, whatever the digest. If the digest does not collide on what is hashed for them, they
have the same fingerprint only then. -/
theorem fingerprint_tells_alike (digest : Digest) (a b : Ty) :
    (alike a b = true → a.fingerprintBy digest = b.fingerprintBy digest) ∧
      (a.fits = true → b.fits = true →
        (∀ x ∈ a.streams digest ++ b.streams digest, ∀ y ∈ a.streams digest ++ b.streams digest,
          digest x = digest y → x = y) →
        (a.fingerprintBy digest = b.fingerprintBy digest ↔ alike a b = true)) := by
  have hif : alike a b = true → a.fingerprintBy digest = b.fingerprintBy digest :=
    fun h => congrArg digest (octets_of_alike a b h)
  refine ⟨hif, fun ha hb hS => ⟨fun h => ?_, hif⟩⟩
  have heq : a.octets digest = b.octets digest := hS _ (by simp [streams]) _ (by simp [streams]) h
  have hSa : a.hashed digest ⊆ a.streams digest ++ b.streams digest := by
    intro x hx
    simp [streams, hx]
  have hSb : b.hashed digest ⊆ a.streams digest ++ b.streams digest := by
    intro x hx
    simp [streams, hx]
  exact (readsBack hS a ha hSa b hb hSb [] [] (by rw [heq])).1

/-- Element types in another order, one of them twice, inside a table: the fingerprints are the same,
and hashing collides nowhere on the way. -/
theorem fields_tell_alike :
    let a := table ["id", "row"] [int, seq [int, seq [string, bytes]]]
    let b := table ["id", "row"] [int, seq [seq [bytes, string], int, int]]
    a.fits = true ∧ b.fits = true ∧ alike a b = true ∧
      (a.fingerprintBy Sip.digest = b.fingerprintBy Sip.digest ↔ alike a b = true) := by
  refine ⟨by decide, by decide, by decide,
    (fingerprint_tells_alike Sip.digest _ _).2 (by decide) (by decide) ?_⟩
  decide +kernel

end Ty

/-! ### Types of values -/

namespace Value

variable {digest : Digest}

theorem mem_canonical {types : List Ty} {t : Ty} : t ∈ Ty.canonical digest types ↔ t ∈ types := by
  rw [Ty.canonical, mem_sortBy, List.mem_eraseDups]

/-- Dropping repeated types and sorting them does not change the set of their hashes. -/
theorem octetsHashSet_canonical (types : List Ty) :
    octetsHashSet ((Ty.octetsEach digest (Ty.canonical digest types)).map digest) =
      octetsHashSet ((Ty.octetsEach digest types).map digest) := by
  rw [octetsHashSet, octetsHashSet, sortUnique_eq_iff.2 fun h => ?_]
  simp only [Ty.mem_map_octetsEach, mem_canonical]

mutual

theorem octets_tyBy : ∀ v : Value, (v.tyBy digest).octets digest = v.typeOctets digest := by
  intro v
  cases v with
  | seq items =>
    rw [tyBy, Ty.octets, octetsHashSet_canonical, octetsEach_tyItems items, typeOctets]
  | table entries =>
    obtain ⟨hlen, heach⟩ := octetsEach_tyEntries entries
    rw [tyBy, Ty.octets, heach, hlen, List.length_map, typeOctets]
  | _ => rfl

theorem octetsEach_tyItems : ∀ items : List Value,
    Ty.octetsEach digest (tyItems digest items) = typeOctetsItems digest items := by
  intro items
  cases items with
  | nil => rfl
  | cons v vs => rw [tyItems, Ty.octetsEach, octets_tyBy v, octetsEach_tyItems vs, typeOctetsItems]

theorem octetsEach_tyEntries : ∀ entries : List (String × Value),
    (tyEntries digest entries).length = entries.length ∧
      Ty.octetsEach digest (tyEntries digest entries) = typeOctetsEntries digest entries := by
  intro entries
  cases entries with
  | nil => exact ⟨rfl, rfl⟩
  | cons entry rest =>
    obtain ⟨k, v⟩ := entry
    obtain ⟨hlen, heach⟩ := octetsEach_tyEntries rest
    refine ⟨?_, ?_⟩
    · rw [tyEntries, List.length_cons, hlen, List.length_cons]
    · rw [tyEntries, Ty.octetsEach, octets_tyBy v, heach, typeOctetsEntries]

end

/-- The octets of a value's type, written straight from the value, are those of the type, whatever
the digest, and so are their hashes; with the digest in use this is the fingerprint of the type. -/
theorem type_octets_straight (v : Value) :
    (∀ digest : Digest, v.typeOctets digest = (v.tyBy digest).octets digest ∧
      v.typeFingerprintBy digest = (v.tyBy digest).fingerprintBy digest) ∧
      v.typeFingerprint = v.ty.fingerprint :=
  ⟨fun _ => ⟨(octets_tyBy v).symm, congrArg _ (octets_tyBy v).symm⟩,
    congrArg Sip.digest (octets_tyBy v).symm⟩

end Value

end Dataflow
