import Dataflow.Proofs.Nesting
import Dataflow.Proofs.Reference
/-!
# What the hash of a wire's content tells

The key of a composition holds a hash of the wire's content, which follows the wires that it runs.
Unless hashes collide, it can be undone: of two wires with one hash, where one does not run itself,
the stages have the same sketches, and so has everything below.
-/

namespace Dataflow

variable {H : Host}

/-- Pure stages of one name that run the same wire are known by the octets of their other
parameters. -/
theorem Stage.sketch_of_octets_eq {st st' : Stage H} (hpure : st.isPure = true)
    (hpure' : st'.isPure = true) (hfits : st.fits = true) (hfits' : st'.fits = true)
    (hname : st.name = st'.name) (hnested : st.nested? = st'.nested?)
    (h : ∀ n < st.width, (∀ k, st.getParam n ≠ .wire k) → (∀ k, st'.getParam n ≠ .wire k) →
      (st.getParam n).octets Sip.digest = (st'.getParam n).octets Sip.digest) :
    st.sketch = st'.sketch := by
  have hvalue : ∀ {n : Nat} (v w : Value), st.getParam n = v → st'.getParam n = w → n < st.width →
      (∀ k, v ≠ .wire k) → (∀ k, w ≠ .wire k) → v.fits = true → w.fits = true →
        v.sketch = w.sketch := by
    rintro n _ _ rfl rfl hn hv hw hvfits hwfits
    have hoctets : (st.getParam n).octets Sip.digest ++ [] = (st'.getParam n).octets Sip.digest ++ [] := by
      rw [h n hn hv hw]
    exact (Value.octets_append_inj Sip.digest _ _ hvfits hwfits hoctets).1
  have hwire : ∀ sub sub' : Nested, sub.wire = sub'.wire →
      ({ wire := sub.wire } : Nested) = { wire := sub'.wire } := fun _ _ h => by rw [h]
  -- The names tell the constructors apart.
  cases st <;> cases st' <;> first
    | (simp only [name, String.reduceEq] at hname; done)
    | (cases hpure; done)
    | (cases hpure'; done)
    | skip
  case pass.pass | input.input | stop.stop | finish.finish | buffer.buffer => rfl
  case const.const v w =>
    refine congrArg const (hvalue v w rfl rfl Nat.zero_lt_one ?_ ?_ hfits hfits') <;>
      (rintro k rfl; simp [isPure] at hpure hpure')
  case add.add o o' =>
    refine congrArg (fun v => add ⟨v, none⟩)
      (hvalue o.value o'.value rfl rfl Nat.zero_lt_one ?_ ?_ hfits hfits') <;>
      (intro k hk; simp [isPure, hk] at hpure hpure')
  case pause.pause v _ w _ =>
    refine congrArg (pause · false) (hvalue v w rfl rfl Nat.zero_lt_one ?_ ?_ hfits hfits') <;>
      (rintro k rfl; simp [isPure] at hpure hpure')
  case set.set x _ _ y _ _ | get.get x _ y _ | update.update x _ _ y _ _ | fail.fail x y |
      complete.complete x y | flush.flush x y =>
    obtain rfl : x = y := Value.string.inj (hvalue (.string x) (.string y) rfl rfl Nat.zero_lt_one
      (by simp) (by simp) rfl rfl)
    rfl
  case inline.inline sub sub' => exact congrArg inline (hwire sub sub' hnested)
  case bound.bound x sub _ y sub' _ =>
    obtain rfl : x = y := Value.string.inj (hvalue (.string x) (.string y) rfl rfl Nat.zero_lt_two
      (by simp) (by simp) rfl rfl)
    exact congrArg (bound x · none) (hwire sub sub' hnested)

namespace Code

/-- Unless hashes collide, the hash of a wire of pure stages tells the sketch of all code below. -/
theorem Comparable.sketch_of_hash_eq {code code' : Code H} {streams : List (List UInt8)} {n n' : Nat}
    {locked' : List (Id .wire)} {i l : Id .wire}
    (hcode : code.Comparable code' (fun st => st.isPure = true ∧ st.fits = true) streams n n')
    (h : code.OneHash code' streams n n' locked' i) (hl : code.Below i l) :
    code'.sketch l = code.sketch l := by
  obtain ⟨stages, stages', hstages, hstages', hmatch⟩ :=
    hcode.matches_of_hash_eq (hcode.below_of_hash_eq h (.inl hl))
  have hsketch : List.Forall₂ (fun st' st => Stage.sketch st' = Stage.sketch st) stages' stages := by
    refine hmatch.imp fun st' st hm => ?_
    obtain ⟨hst, hst'⟩ := hm.sorts
    exact (Stage.sketch_of_octets_eq hst.1 hst'.1 hst.2 hst'.2 hm.name hm.nested hm.octets).symm
  have hmap : stages'.map Stage.sketch = stages.map Stage.sketch := by
    rw [← List.forall₂_eq_eq_eq, List.forall₂_map_left_iff, List.forall₂_map_right_iff]
    exact hsketch
  rw [sketch, sketch, hstages, hstages', Option.map_some, Option.map_some, List.map_map,
    List.map_map]
  have hsome := congrArg (List.map some) hmap
  rw [List.map_map, List.map_map] at hsome
  exact congrArg some hsome

end Code

end Dataflow
