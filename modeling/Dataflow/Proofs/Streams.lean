import Dataflow.VarDecl
/-!
# What octet streams tell apart

Words, texts and lists of hashes are written as octets before they are hashed. Here is what can be
read back from the octets: each word, each text, and each word of a row.
-/

namespace Dataflow

variable {as bs : List UInt64} {s t : String} {r r' : List UInt8}

/-! ### Words -/

theorem octets64_injective {a b : UInt64} (h : octets64 a = octets64 b) : a = b := by
  simp only [octets64, List.cons.injEq, and_true, ← UInt8.toNat_inj, UInt64.toNat_toUInt8,
    UInt64.toNat_shiftRight] at h
  have ha := a.toNat_lt
  have hb := b.toNat_lt
  rw [← UInt64.toNat_inj]
  simp [Nat.shiftRight_eq_div_pow] at h
  omega

@[simp] theorem length_octets64 (n : UInt64) : (octets64 n).length = 8 := rfl

theorem flatMap_octets64_injective (h : as.flatMap octets64 = bs.flatMap octets64) : as = bs := by
  induction as generalizing bs with
  | nil =>
    cases bs with
    | nil => rfl
    | cons b bs => simp [octets64] at h
  | cons a as ih =>
    cases bs with
    | nil => simp [octets64] at h
    | cons b bs =>
      simp only [List.flatMap_cons] at h
      obtain ⟨hword, hrest⟩ := List.append_inj h rfl
      rw [octets64_injective hword, ih hrest]

/-! ### Texts -/

theorem toList_loop (b : ByteArray) (i : Nat) (r : List UInt8) :
    ByteArray.toList.loop b i r = r.reverse ++ b.data.toList.drop i := by
  fun_induction ByteArray.toList.loop b i r with
  | case1 i r hlt ih =>
    have hi : i < b.data.toList.length := hlt
    have hget : b.get! i = b.data.toList[i] := by
      simp only [ByteArray.get!]
      exact getElem!_pos b.data i hlt
    rw [ih, List.drop_eq_getElem_cons hi, hget]
    simp
  | case2 i r hge =>
    rw [List.drop_eq_nil_of_le (by simpa using hge), List.append_nil]

theorem utf8_injective (h : utf8 s = utf8 t) : s = t := by
  simp only [utf8, ByteArray.toList, toList_loop, List.reverse_nil, List.nil_append,
    List.drop_zero] at h
  exact String.toByteArray_inj.1 (ByteArray.ext (Array.toList_inj.1 h))

theorem octetsText_injective (h : octetsText s = octetsText t) : s = t :=
  utf8_injective (List.append_cancel_right h)

/-! ### Reading octets back -/

/-- No octet of a text is the one that closes it. -/
theorem ne_of_mem_utf8 {b : UInt8} (h : b ∈ utf8 s) : b ≠ 0xff := by
  have hchar : ∀ c : Char, b ∈ String.utf8EncodeChar c → b ≠ 0xff := by
    intro c hc
    unfold String.utf8EncodeChar at hc
    have hne : ∀ n : Nat, n < 255 → UInt8.ofNat n ≠ 0xff := by
      intro n hn heq
      have := congrArg UInt8.toNat heq
      simp at this
      omega
    dsimp only at hc
    split at hc
    · obtain rfl := List.mem_singleton.1 hc
      exact hne _ (by omega)
    · split at hc
      · simp only [List.mem_cons, List.not_mem_nil, or_false] at hc
        rcases hc with rfl | rfl <;> exact hne _ (by omega)
      · split at hc
        · simp only [List.mem_cons, List.not_mem_nil, or_false] at hc
          rcases hc with rfl | rfl | rfl <;> exact hne _ (by omega)
        · simp only [List.mem_cons, List.not_mem_nil, or_false] at hc
          rcases hc with rfl | rfl | rfl | rfl <;> exact hne _ (by omega)
  rw [utf8, ← String.utf8Encode_toList, List.utf8Encode, ByteArray.toList, toList_loop] at h
  simp only [List.reverse_nil, List.nil_append, List.drop_zero, List.data_toByteArray,
    List.mem_flatMap] at h
  obtain ⟨c, -, hc⟩ := h
  exact hchar c hc

theorem octetsText_append_inj (h : octetsText s ++ r = octetsText t ++ r') : s = t ∧ r = r' := by
  have hsplit : ∀ (xs ys : List UInt8), (∀ x ∈ xs, x ≠ 0xff) → (∀ y ∈ ys, y ≠ 0xff) →
      xs ++ 0xff :: r = ys ++ 0xff :: r' → xs = ys ∧ r = r' := by
    intro xs
    induction xs with
    | nil =>
      rintro (_ | ⟨y, ys⟩) - hys h
      · exact ⟨rfl, (List.cons.inj h).2⟩
      · exact absurd (List.cons.inj h).1.symm (hys y List.mem_cons_self)
    | cons x xs ih =>
      rintro (_ | ⟨y, ys⟩) hxs hys h
      · exact absurd (List.cons.inj h).1 (hxs x List.mem_cons_self)
      · obtain ⟨hhead, htail⟩ := List.cons.inj h
        obtain ⟨hrest, hr⟩ := ih ys (fun z hz => hxs z (List.mem_cons_of_mem _ hz))
          (fun z hz => hys z (List.mem_cons_of_mem _ hz)) htail
        exact ⟨by rw [hhead, hrest], hr⟩
  rw [octetsText, octetsText, List.append_assoc, List.append_assoc] at h
  obtain ⟨htext, hr⟩ := hsplit _ _ (fun _ => ne_of_mem_utf8) (fun _ => ne_of_mem_utf8) h
  exact ⟨utf8_injective htext, hr⟩

theorem octetsLength_append_inj {m n : Nat} (hm : m < UInt64.size) (hn : n < UInt64.size)
    (h : octetsLength m ++ r = octetsLength n ++ r') : m = n ∧ r = r' := by
  obtain ⟨hword, hr⟩ := List.append_inj h rfl
  have hnat := congrArg UInt64.toNat (octets64_injective hword)
  simp only [Nat.toUInt64_eq, UInt64.toNat_ofNat'] at hnat
  rw [Nat.mod_eq_of_lt hm, Nat.mod_eq_of_lt hn] at hnat
  exact ⟨hnat, hr⟩

theorem octets32_injective {a b : UInt32} (h : octets32 a = octets32 b) : a = b := by
  simp only [octets32, List.cons.injEq, and_true, ← UInt8.toNat_inj, UInt32.toNat_toUInt8,
    UInt32.toNat_shiftRight] at h
  have ha := a.toNat_lt
  have hb := b.toNat_lt
  rw [← UInt32.toNat_inj]
  simp [Nat.shiftRight_eq_div_pow] at h
  omega

/-! ### Descriptors -/

theorem flags_inj : ∀ m p g m' p' g' : Bool,
    octetBool m ||| (octetBool p <<< 1) ||| (octetBool g <<< 2) =
      octetBool m' ||| (octetBool p' <<< 1) ||| (octetBool g' <<< 2) →
    m = m' ∧ p = p' ∧ g = g' := by
  decide

theorem VarDecl.octets_inj {digest : Digest} {d e : VarDecl}
    (h : d.octets digest = e.octets digest) :
    d.name = e.name ∧ d.ty.fingerprintBy digest = e.ty.fingerprintBy digest ∧
      d.isMutable = e.isMutable ∧ d.isProtected = e.isProtected ∧ d.isGlobal = e.isGlobal := by
  obtain ⟨h, hflags⟩ := List.append_inj' h rfl
  obtain ⟨hname, hty⟩ := List.append_inj' h rfl
  exact ⟨octetsText_injective hname, octets64_injective hty,
    flags_inj _ _ _ _ _ _ (List.singleton_inj.1 hflags)⟩

/-! ### Sorting -/

section Sorting

variable {α : Type}

theorem perm_insertBy (le : α → α → Bool) (a : α) (items : List α) :
    (insertBy le a items).Perm (a :: items) := by
  induction items with
  | nil => exact .refl _
  | cons b rest ih =>
    unfold insertBy
    split
    · exact (ih.cons b).trans (.swap a b rest)
    · exact .refl _

theorem perm_sortBy (le : α → α → Bool) (items : List α) : (sortBy le items).Perm items := by
  have hfold : ∀ sorted, (items.foldl (fun sorted a => insertBy le a sorted) sorted).Perm
      (sorted ++ items) := by
    induction items with
    | nil => simp
    | cons a rest ih =>
      intro sorted
      rw [List.foldl_cons]
      refine (ih _).trans (((perm_insertBy le a sorted).append_right rest).trans ?_)
      exact List.perm_middle.symm
  exact hfold []

theorem mem_sortBy {le : α → α → Bool} {b : α} {items : List α} :
    b ∈ sortBy le items ↔ b ∈ items :=
  (perm_sortBy le items).mem_iff

variable (key : α → UInt64)

theorem pairwise_insertBy {a : α} {items : List α} (h : items.Pairwise fun a b => key a ≤ key b) :
    (insertBy (fun a b => key a ≤ key b) a items).Pairwise fun a b => key a ≤ key b := by
  induction items with
  | nil => simp [insertBy]
  | cons b rest ih =>
    obtain ⟨hb, hrest⟩ := List.pairwise_cons.1 h
    unfold insertBy
    split
    · rename_i hle
      refine List.pairwise_cons.2 ⟨fun c hc => ?_, ih hrest⟩
      rcases List.mem_cons.1 ((perm_insertBy _ a rest).mem_iff.1 hc) with rfl | hc
      · exact of_decide_eq_true hle
      · exact hb c hc
    · rename_i hlt
      have hab : key a ≤ key b :=
        UInt64.le_of_lt (UInt64.not_le.1 (of_decide_eq_false (by simpa using hlt)))
      refine List.pairwise_cons.2 ⟨fun c hc => ?_, h⟩
      rcases List.mem_cons.1 hc with rfl | hc
      · exact hab
      · exact UInt64.le_trans hab (hb c hc)

/-- Items that their keys tell apart have one order by their keys. -/
theorem sortBy_congr {as bs : List α} (h : as.Perm bs)
    (hkey : ∀ a ∈ as, ∀ b ∈ bs, key a = key b → a = b) :
    sortBy (fun a b => key a ≤ key b) as = sortBy (fun a b => key a ≤ key b) bs := by
  have hsorted : ∀ items : List α,
      (sortBy (fun a b => key a ≤ key b) items).Pairwise fun a b => key a ≤ key b := by
    intro items
    exact List.foldlRecOn items _ .nil fun _ h _ _ => pairwise_insertBy key h
  have hperm := ((perm_sortBy (fun a b => decide (key a ≤ key b)) as).trans h).trans
    (perm_sortBy (fun a b => decide (key a ≤ key b)) bs).symm
  refine hperm.eq_of_pairwise (fun a b ha hb hab hba => ?_) (hsorted as) (hsorted bs)
  exact hkey a (mem_sortBy.1 ha) b (mem_sortBy.1 hb) (UInt64.le_antisymm hab hba)

end Sorting

/-- Words that are sorted in ascending order are known by how often each occurs. -/
theorem sortBy_eq_iff :
    sortBy (fun a b => a ≤ b) as = sortBy (fun a b => a ≤ b) bs ↔ as.Perm bs := by
  constructor
  · intro h
    exact (perm_sortBy _ as).symm.trans (h ▸ perm_sortBy _ bs)
  · intro h
    exact sortBy_congr id h fun _ _ _ _ heq => heq

end Dataflow
