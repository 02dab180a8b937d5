import Mathlib.Algebra.BigOperators.Group.Finset.Basic
import Mathlib.Algebra.BigOperators.Group.Finset.Piecewise
import Mathlib.Algebra.Order.BigOperators.Group.Finset

/-!
# Sums over the parts of a system

`tally f c` adds up `f` over the states `c i` of finitely many parts. A step
of one part changes one summand.
-/

namespace Tally

variable {ι α : Type*} [Fintype ι] {f : α → Nat} {c : ι → α} {i : ι} {x : α}

def tally (f : α → Nat) (c : ι → α) : Nat := ∑ i, f (c i)

theorem tally_step {g : α → Nat} {d : ι → α} (i : ι) (h : ∀ j, j ≠ i → g (d j) = g (c j)) :
    tally g d + g (c i) = tally g c + g (d i) := by
  classical
  have hrest : ∑ j ∈ Finset.univ.erase i, g (d j) = ∑ j ∈ Finset.univ.erase i, g (c j) :=
    Finset.sum_congr rfl fun j hj => h j (Finset.ne_of_mem_erase hj)
  unfold tally
  rw [← Finset.add_sum_erase _ (fun j => g (d j)) (Finset.mem_univ i),
    ← Finset.add_sum_erase _ (fun j => g (c j)) (Finset.mem_univ i), hrest]
  omega

theorem tally_update [DecidableEq ι] (f : α → Nat) (c : ι → α) (i : ι) (x : α) :
    tally f (Function.update c i x) + f (c i) = tally f c + f x := by
  have h := tally_step (g := f) (c := c) (d := Function.update c i x) i
    (fun j hj => by rw [Function.update_of_ne hj])
  rwa [Function.update_self] at h

theorem le_tally (i : ι) : f (c i) ≤ tally f c :=
  Finset.single_le_sum (f := fun j => f (c j)) (fun _ _ => Nat.zero_le _) (Finset.mem_univ i)

theorem tally_eq_zero (h : ∀ i, f (c i) = 0) : tally f c = 0 :=
  Finset.sum_eq_zero fun i _ => h i

theorem tally_pos_iff : 0 < tally f c ↔ ∃ i, 0 < f (c i) := by
  constructor
  · intro h
    by_contra hne
    push Not at hne
    refine Nat.lt_irrefl 0 (h.trans_le ?_)
    exact Nat.le_of_eq (Finset.sum_eq_zero fun i _ => Nat.le_zero.mp (hne i))
  · rintro ⟨i, hi⟩
    exact hi.trans_le (le_tally i)

theorem card_le_tally {κ : Type*} [Fintype κ] {g : κ → ι} (hg : Function.Injective g) (h : ∀ k, 1 ≤ f (c (g k))) :
    Fintype.card κ ≤ tally f c := by
  have hsum : ∑ k, f (c (g k)) ≤ tally f c := by
    have hinj := Finset.sum_map Finset.univ ⟨g, hg⟩ (fun i => f (c i))
    simp only [Function.Embedding.coeFn_mk] at hinj
    rw [← hinj]
    exact Finset.sum_le_sum_of_subset (Finset.subset_univ _)
  calc Fintype.card κ = ∑ _k : κ, 1 := by simp
    _ ≤ ∑ k, f (c (g k)) := Finset.sum_le_sum fun k _ => h k
    _ ≤ tally f c := hsum

theorem tally_eq_length [DecidableEq ι] {p : α → Prop} [DecidablePred p] {l : List ι} (hd : l.Nodup)
    (h : ∀ i, i ∈ l ↔ p (c i)) : tally (fun x => (decide (p x)).toNat) c = l.length := by
  have hset : l.toFinset = Finset.univ.filter (fun i => p (c i)) := by
    ext i
    simp [h]
  rw [← List.toFinset_card_of_nodup hd, hset, Finset.card_filter, tally]
  refine Finset.sum_congr rfl fun i _ => ?_
  by_cases hp : p (c i) <;> simp [hp]

end Tally
