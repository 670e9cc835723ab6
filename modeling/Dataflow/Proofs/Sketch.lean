import Dataflow.Proofs.Composition
import Dataflow.Proofs.Streams
/-!
# What fingerprints know of values and stages

The content of a wire is hashed stage by stage: the name, then each parameter by the octets of its
value. What is hashed forgets which object a value refers to and which type a value is, and keeps
everything else. The sketch of a value or of a stage is what is left, and it can be read back from the
octets.
-/

namespace Dataflow

variable {H : Host}

namespace Value

mutual

/-- A value as its fingerprint knows it: which object it is, and which type, does not show. -/
def sketch : Value → Value
  | object o => object { o with id := .buffer 0 }
  | type _ => type .nothing
  | seq items => seq (sketchItems items)
  | table entries => table (sketchEntries entries)
  | other => other

/-- Items as their fingerprints know them. -/
def sketchItems : List Value → List Value
  | [] => []
  | v :: vs => sketch v :: sketchItems vs

/-- Entries as their fingerprints know them. -/
def sketchEntries : List (String × Value) → List (String × Value)
  | [] => []
  | (k, v) :: rest => (k, sketch v) :: sketchEntries rest

end

mutual

/-- Whether all lengths inside a value are machine words. -/
def fits : Value → Bool
  | bytes os => os.length < UInt64.size
  | wire id => id.row < UInt64.size
  | seq items => items.length < UInt64.size && fitsItems items
  | table entries => entries.length < UInt64.size && fitsEntries entries
  | _ => true

/-- Whether all lengths inside items are machine words. -/
def fitsItems : List Value → Bool
  | [] => true
  | v :: vs => fits v && fitsItems vs

/-- Whether all lengths inside entries are machine words. -/
def fitsEntries : List (String × Value) → Bool
  | [] => true
  | (_, v) :: rest => fits v && fitsEntries rest

end

mutual

/-- Nothing but the sketch of a value is read back from its octets, and where they end. -/
theorem octets_append_inj (digest : Digest) : ∀ (v w : Value) {r r' : List UInt8},
    v.fits = true → w.fits = true → v.octets digest ++ r = w.octets digest ++ r' →
      v.sketch = w.sketch ∧ r = r'
  | .nothing, w, r, r', _, _, h => by
    cases w <;> first
      | exact ⟨rfl, (List.cons.inj h).2⟩
      | exact absurd (List.cons.inj h).1 (by decide)
  | .bool a, w, r, r', _, _, h => by
    cases w <;> first
      | exact absurd (List.cons.inj h).1 (by decide)
      | obtain ⟨hbit, hr⟩ := List.cons.inj (List.cons.inj h).2
        refine ⟨congrArg bool ?_, hr⟩
        revert hbit
        simp only [octetBool]
        grind
  | .int a, w, r, r', _, _, h => by
    cases w <;> first
      | exact absurd (List.cons.inj h).1 (by decide)
      | obtain ⟨hword, hr⟩ := List.append_inj (List.cons.inj h).2 rfl
        exact ⟨congrArg (fun n => int (Int64.ofUInt64 n)) (octets64_injective hword), hr⟩
  | .float a, w, r, r', _, _, h => by
    cases w <;> first
      | exact absurd (List.cons.inj h).1 (by decide)
      | obtain ⟨hword, hr⟩ := List.append_inj (List.cons.inj h).2 rfl
        exact ⟨congrArg float (congrArg Binary64.mk (octets64_injective hword)), hr⟩
  | .string a, w, r, r', _, _, h => by
    cases w <;> first
      | exact absurd (List.cons.inj h).1 (by decide)
      | obtain ⟨htext, hr⟩ := octetsText_append_inj (List.cons.inj h).2
        exact ⟨congrArg string htext, hr⟩
  | .bytes a, w, r, r', hv, hw, h => by
    cases w <;> first
      | exact absurd (List.cons.inj h).1 (by decide)
      | rename_i b
        simp only [octets, List.cons_append, List.append_assoc, List.cons.injEq, true_and] at h
        obtain ⟨hlength, hrest⟩ := octetsLength_append_inj (of_decide_eq_true hv)
          (of_decide_eq_true hw) h
        obtain ⟨hoctets, hr⟩ := List.append_inj hrest hlength
        exact ⟨congrArg bytes hoctets, hr⟩
  | .seq vs, w, r, r', hv, hw, h => by
    cases w <;> first
      | exact absurd (List.cons.inj h).1 (by decide)
      | rename_i ws
        rw [fits, Bool.and_eq_true] at hv hw
        simp only [octets, List.cons_append, List.append_assoc, List.cons.injEq, true_and] at h
        obtain ⟨hlength, hrest⟩ := octetsLength_append_inj (of_decide_eq_true hv.1)
          (of_decide_eq_true hw.1) h
        obtain ⟨hitems, hr⟩ := octetsItems_append_inj digest vs ws hlength hv.2 hw.2 hrest
        exact ⟨congrArg seq hitems, hr⟩
  | .table es, w, r, r', hv, hw, h => by
    cases w <;> first
      | exact absurd (List.cons.inj h).1 (by decide)
      | rename_i fs
        rw [fits, Bool.and_eq_true] at hv hw
        simp only [octets, List.cons_append, List.append_assoc, List.cons.injEq, true_and] at h
        obtain ⟨hlength, hrest⟩ := octetsLength_append_inj (of_decide_eq_true hv.1)
          (of_decide_eq_true hw.1) h
        obtain ⟨hentries, hr⟩ := octetsEntries_append_inj digest es fs hlength hv.2 hw.2 hrest
        exact ⟨congrArg table hentries, hr⟩
  | .object o, w, r, r', _, _, h => by
    cases w <;> first
      | exact absurd (List.cons.inj h).1 (by decide)
      | simp only [octets, List.cons_append, List.append_assoc, List.cons.injEq, true_and] at h
        obtain ⟨hvendor, hrest⟩ := List.append_inj h rfl
        obtain ⟨hkind, hr⟩ := List.append_inj hrest rfl
        refine ⟨?_, hr⟩
        rw [sketch, sketch, octets32_injective hvendor, octets32_injective hkind]
  | .ref a, w, r, r', _, _, h => by
    cases w <;> first
      | exact absurd (List.cons.inj h).1 (by decide)
      | obtain ⟨htext, hr⟩ := octetsText_append_inj (List.cons.inj h).2
        exact ⟨congrArg ref htext, hr⟩
  | .wire a, w, r, r', hv, hw, h => by
    cases w <;> first
      | exact absurd (List.cons.inj h).1 (by decide)
      | obtain ⟨hrow, hr⟩ := octetsLength_append_inj (of_decide_eq_true hv) (of_decide_eq_true hw)
          (List.cons.inj h).2
        exact ⟨congrArg wire (congrArg Id.mk hrow), hr⟩
  | .type a, w, r, r', _, _, h => by
    cases w <;> first
      | exact absurd (List.cons.inj h).1 (by decide)
      | obtain ⟨-, hr⟩ := List.append_inj (List.cons.inj h).2 rfl
        exact ⟨rfl, hr⟩

theorem octetsItems_append_inj (digest : Digest) : ∀ (vs ws : List Value) {r r' : List UInt8},
    vs.length = ws.length → fitsItems vs = true → fitsItems ws = true →
      octetsItems digest vs ++ r = octetsItems digest ws ++ r' →
        sketchItems vs = sketchItems ws ∧ r = r'
  | [], [], _, _, _, _, _, h => ⟨rfl, h⟩
  | v :: vs, w :: ws, r, r', hlength, hv, hw, h => by
    rw [fitsItems, Bool.and_eq_true] at hv hw
    simp only [octetsItems, List.append_assoc] at h
    obtain ⟨hhead, hrest⟩ := octets_append_inj digest v w hv.1 hw.1 h
    obtain ⟨htail, hr⟩ := octetsItems_append_inj digest vs ws (Nat.succ.inj hlength) hv.2 hw.2 hrest
    exact ⟨by rw [sketchItems, sketchItems, hhead, htail], hr⟩

theorem octetsEntries_append_inj (digest : Digest) : ∀ (es fs : List (String × Value))
    {r r' : List UInt8}, es.length = fs.length → fitsEntries es = true → fitsEntries fs = true →
      octetsEntries digest es ++ r = octetsEntries digest fs ++ r' →
        sketchEntries es = sketchEntries fs ∧ r = r'
  | [], [], _, _, _, _, _, h => ⟨rfl, h⟩
  | (k, v) :: es, (l, w) :: fs, r, r', hlength, hv, hw, h => by
    rw [fitsEntries, Bool.and_eq_true] at hv hw
    simp only [octetsEntries, List.append_assoc] at h
    obtain ⟨hkey, hvalue⟩ := octetsText_append_inj h
    obtain ⟨hhead, hrest⟩ := octets_append_inj digest v w hv.1 hw.1 hvalue
    obtain ⟨htail, hr⟩ := octetsEntries_append_inj digest es fs (Nat.succ.inj hlength) hv.2 hw.2 hrest
    exact ⟨by rw [sketchEntries, sketchEntries, hkey, hhead, htail], hr⟩

end

mutual

/-- A value has the type of its sketch. -/
theorem tyBy_sketch (digest : Digest) : ∀ v : Value, v.sketch.tyBy digest = v.tyBy digest
  | .seq items => by rw [sketch, tyBy, tyBy, tyItems_sketchItems digest items]
  | .table entries => by
    obtain ⟨hkeys, htypes⟩ := tyEntries_sketchEntries digest entries
    rw [sketch, tyBy, tyBy, hkeys, htypes]
  | .nothing | .bool _ | .int _ | .float _ | .string _ | .bytes _ | .object _ | .ref _ | .wire _
  | .type _ => rfl

theorem tyItems_sketchItems (digest : Digest) : ∀ items : List Value,
    tyItems digest (sketchItems items) = tyItems digest items
  | [] => rfl
  | v :: vs => by
    rw [sketchItems, tyItems, tyItems, tyBy_sketch digest v, tyItems_sketchItems digest vs]

theorem tyEntries_sketchEntries (digest : Digest) : ∀ entries : List (String × Value),
    (sketchEntries entries).map (·.1) = entries.map (·.1) ∧
      tyEntries digest (sketchEntries entries) = tyEntries digest entries
  | [] => ⟨rfl, rfl⟩
  | (k, v) :: rest => by
    obtain ⟨hkeys, htypes⟩ := tyEntries_sketchEntries digest rest
    rw [sketchEntries, tyEntries, tyEntries, tyBy_sketch digest v, htypes, List.map_cons,
      List.map_cons, hkeys]
    exact ⟨rfl, rfl⟩

end

@[simp] theorem ty_sketch (v : Value) : v.sketch.ty = v.ty := tyBy_sketch Sip.digest v

end Value

/-! ### Stages -/

namespace Stage

/-- Whether composing a stage depends on nothing but its parameters, its site and the wire that it
runs. Only such a stage has a wire among its parameters. -/
def isPure : Stage H → Bool
  | const value | pause value _ =>
    match value with
    | .wire _ => false
    | _ => true
  | add operand =>
    match operand.value with
    | .wire _ => false
    | _ => true
  | produce .. | broadcast .. | consume .. | listen .. | unit _ => false
  | _ => true

/-- A stage as its fingerprint knows it. -/
def sketch : Stage H → Stage H
  | const value => const value.sketch
  | add operand => add { value := operand.value.sketch }
  | set name _ _ => set name .nothing none
  | get name _ => get name none
  | update name _ _ => update name .nothing none
  | pause time _ => pause time.sketch false
  | buffer _ => buffer {}
  | inline sub => inline { wire := sub.wire }
  | bound name sub _ => bound name { wire := sub.wire } none
  | other => other

/-- Whether all lengths inside the parameters of a stage are machine words. -/
def fits : Stage H → Bool
  | const value | pause value _ => value.fits
  | add operand => operand.value.fits
  | _ => true

section Sketch

variable (st : Stage H)

@[simp] theorem isPure_sketch : st.sketch.isPure = st.isPure := by
  cases st with
  | const value | pause value _ => cases value <;> rfl
  | add operand =>
    obtain ⟨value, slot⟩ := operand
    cases value <;> rfl
  | _ => rfl

@[simp] theorem name_sketch : st.sketch.name = st.name := by
  cases st <;> rfl

@[simp] theorem capabilities_sketch : st.sketch.capabilities = st.capabilities := by
  cases st <;> rfl

@[simp] theorem params_sketch : st.sketch.params = st.params := by
  cases st <;> rfl

@[simp] theorem inputs_sketch : st.sketch.inputs = st.inputs := by
  cases st <;> rfl

@[simp] theorem outputs_sketch : st.sketch.outputs = st.outputs := by
  cases st <;> rfl

@[simp] theorem nested?_sketch : st.sketch.nested? = st.nested? := by
  cases st <;> rfl

@[simp] theorem lent_sketch (input : Ty) : st.sketch.lent input = st.lent input := by
  cases st <;> rfl

end Sketch

end Stage

end Dataflow
