import Mathlib.Data.BitVec
import Mathlib.Tactic.Common

/-!
# Bits packed into words

Bit `i` of a list of words of width `w` is bit `i % w` of word `i / w`. The
lemmas say what setting or clearing a bit by a mask does to every bit.
-/

namespace Bits

variable {w i j k : Nat} {x y : BitVec w} {v : List (BitVec w)}

def bit (v : List (BitVec w)) (i : Nat) : Bool := (v.getD (i / w) 0#w).getLsbD (i % w)

theorem bit_of_getElem? (hx : v[i / w]? = some x) : bit v i = x.getLsbD (i % w) := by
  unfold bit
  rw [List.getD_eq_getElem?_getD, hx, Option.getD_some]

theorem bit_set (hi : i < v.length) : bit (v.set i y) j = if j / w = i then y.getLsbD (j % w) else bit v j := by
  unfold bit
  rw [List.getD_eq_getElem?_getD, List.getD_eq_getElem?_getD]
  by_cases hj : j / w = i
  · rw [if_pos hj, hj, List.getElem?_set_self hi, Option.getD_some]
  · rw [if_neg hj, List.getElem?_set_ne (fun he => hj he.symm)]

theorem getLsbD_mask (hk : k < w) : (1#w <<< k).getLsbD j = decide (j = k) := by
  rw [← BitVec.twoPow_eq, BitVec.getLsbD_twoPow]
  simp [hk, eq_comm]

theorem and_mask_eq_zero (hk : k < w) : x &&& 1#w <<< k = 0#w ↔ x.getLsbD k = false := by
  constructor
  · intro h
    have hbit := congrArg (·.getLsbD k) h
    simpa only [BitVec.getLsbD_and, getLsbD_mask hk, decide_true, Bool.and_true, BitVec.getLsbD_zero] using hbit
  · intro h
    refine BitVec.eq_of_getLsbD_eq fun j hj => ?_
    rw [BitVec.getLsbD_and, getLsbD_mask hk, BitVec.getLsbD_zero]
    by_cases hjk : j = k
    · rw [hjk, h, Bool.false_and]
    · rw [decide_eq_false hjk, Bool.and_false]

theorem eq_allOnes_iff : x = BitVec.allOnes w ↔ ∀ k < w, x.getLsbD k = true := by
  constructor
  · rintro rfl k hk
    simp [hk]
  · intro h
    refine BitVec.eq_of_getLsbD_eq fun k hk => ?_
    simp [h k hk, hk]

section

variable (hw : 0 < w) (hx : v[i / w]? = some x)
include hw hx

theorem bit_update {f : Bool → Bool} (hy : ∀ k < w, y.getLsbD k = if k = i % w then f (x.getLsbD k) else x.getLsbD k) :
    bit (v.set (i / w) y) j = if j = i then f (bit v j) else bit v j := by
  rw [bit_set (List.getElem?_eq_some_iff.mp hx).1]
  by_cases hword : j / w = i / w
  · rw [if_pos hword, hy _ (Nat.mod_lt j hw), bit_of_getElem? (i := j) (by rw [hword]; exact hx)]
    have hplace : j % w = i % w ↔ j = i := by
      refine ⟨fun he => ?_, fun he => by rw [he]⟩
      rw [← Nat.div_add_mod j w, ← Nat.div_add_mod i w, hword, he]
    simp only [hplace]
  · rw [if_neg hword, if_neg (fun he => hword (by rw [he]))]

theorem bit_set_mask : bit (v.set (i / w) (x ||| 1#w <<< (i % w))) j = (bit v j || decide (j = i)) := by
  rw [bit_update (f := fun _ => true) hw hx]
  · by_cases hj : j = i <;> simp [hj]
  · intro k hk
    rw [BitVec.getLsbD_or, getLsbD_mask (Nat.mod_lt i hw)]
    by_cases hki : k = i % w <;> simp [hki]

theorem bit_clear_mask : bit (v.set (i / w) (x &&& ~~~(1#w <<< (i % w)))) j = (bit v j && decide (j ≠ i)) := by
  rw [bit_update (f := fun _ => false) hw hx]
  · by_cases hj : j = i <;> simp [hj]
  · intro k hk
    rw [BitVec.getLsbD_and, BitVec.getLsbD_not, getLsbD_mask (Nat.mod_lt i hw)]
    by_cases hki : k = i % w <;> simp [hki, hk]

end

end Bits
