import Mathlib.Data.List.Induction
import Mathlib.Logic.Function.Basic
import Mathlib.Tactic.Common

/-!
# Entries stored round a ring of cells

`Stored n r d l`: the entries of `l` stand in the cells `r`, `r + 1`, … of a
ring of `n` cells whose contents are `d`.
-/

namespace Ring

variable {α : Type*} {n r k m : Nat} {d e : Nat → Option α} {x : α} {l : List α}

def Stored (n r : Nat) (d : Nat → Option α) (l : List α) : Prop := ∀ k < l.length, d ((r + k) % n) = l[k]?

theorem index_ne (hk : k < m) (hm : m < n) : (r + k) % n ≠ (r + m) % n := by
  intro he
  have hd : n ∣ (r + m) - (r + k) := Nat.dvd_of_mod_eq_zero (Nat.sub_mod_eq_zero_of_mod_eq he.symm)
  have hz : (r + m) - (r + k) = 0 := Nat.eq_zero_of_dvd_of_lt hd (by omega)
  omega

theorem Stored.nil : Stored n r d [] := by
  intro k hk
  cases hk

theorem Stored.push (h : Stored n r d l) (hl : l.length < n) (x : α) :
    Stored n r (Function.update d ((r + l.length) % n) (some x)) (l ++ [x]) := by
  intro k hk
  rw [List.length_append, List.length_singleton] at hk
  by_cases hkl : k = l.length
  · subst hkl
    rw [Function.update_self]
    simp
  · have hlt : k < l.length := by omega
    rw [Function.update_of_ne (index_ne hlt hl), h k hlt, List.getElem?_append_left hlt]

theorem Stored.head (h : Stored n r d (x :: l)) : d (r % n) = some x := by
  have h₀ := h 0 (by simp)
  simpa using h₀

theorem Stored.tail (h : Stored n r d (x :: l)) : Stored n ((r + 1) % n) d l := by
  intro k hk
  have hk' := h (k + 1) (by simpa using hk)
  rw [Nat.mod_add_mod, Nat.add_assoc, Nat.add_comm 1 k, hk', List.getElem?_cons_succ]

theorem filterMap_range {f : Nat → Option α} (h : ∀ k < l.length, f k = l[k]?) :
    (List.range l.length).filterMap f = l := by
  induction l using List.reverseRecOn with
  | nil => rfl
  | append_singleton l x ih =>
    have hlast := h l.length (by simp)
    have hinit : ∀ k < l.length, f k = l[k]? := by
      intro k hk
      rw [h k (by simp; omega), List.getElem?_append_left hk]
    rw [List.length_append, List.length_singleton, List.range_succ, List.filterMap_append, ih hinit]
    simp [hlast]

theorem Stored.toList (h : Stored n r d l) : (List.range l.length).filterMap (fun k => d ((r + k) % n)) = l :=
  filterMap_range h

end Ring
