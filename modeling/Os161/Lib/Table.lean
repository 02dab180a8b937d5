import Mathlib.Data.List.Nodup

/-!
# Tables of records with a key

A list of records looked up by a key, of which each has its own.
-/

namespace Table

variable {α : Type} (key : α → Nat)

def get (l : List α) (i : Nat) : Option α := l.find? fun x => key x == i

def modify (l : List α) (i : Nat) (f : α → α) : List α := l.map fun x => if key x = i then f x else x

def remove (l : List α) (i : Nat) : List α := l.eraseP fun x => key x == i

variable {key} {l : List α} {i j : Nat} {f : α → α} {x : α}

theorem get_mem (h : get key l i = some x) : x ∈ l := List.mem_of_find?_eq_some h

theorem get_key (h : get key l i = some x) : key x = i := by
  simpa using List.find?_some h

theorem get_eq_none : get key l i = none ↔ ∀ x ∈ l, key x ≠ i := by simp [get]

theorem get_of_mem (hn : (l.map key).Nodup) (hx : x ∈ l) : get key l (key x) = some x := by
  cases hg : get key l (key x) with
  | none => exact absurd rfl (get_eq_none.mp hg x hx)
  | some y => rw [List.inj_on_of_nodup_map hn (get_mem hg) hx (get_key hg)]

theorem get_modify_self (hf : ∀ x, key (f x) = key x) : get key (modify key l i f) i = (get key l i).map f := by
  induction l with
  | nil => rfl
  | cons a l ih =>
    by_cases ha : key a = i
    · simp [get, modify, ha, hf]
    · simpa [get, modify, ha] using ih

theorem get_modify_of_ne (hf : ∀ x, key (f x) = key x) (hj : j ≠ i) : get key (modify key l i f) j = get key l j := by
  induction l with
  | nil => rfl
  | cons a l ih =>
    by_cases ha : key a = i
    · have hne : key a ≠ j := fun e => hj (e.symm.trans ha)
      simpa [get, modify, ha, hf, hj.symm] using ih
    · by_cases haj : key a = j
      · simp [get, modify, haj, hj]
      · simpa [get, modify, ha, haj] using ih

theorem map_modify {β : Type} (g : α → β) (hg : ∀ x ∈ l, key x = i → g (f x) = g x) :
    (modify key l i f).map g = l.map g := by
  rw [modify, List.map_map]
  refine List.map_congr_left fun x hx => ?_
  by_cases h : key x = i
  · simp [h, hg x hx h]
  · simp [h]

theorem mem_modify (hn : (l.map key).Nodup) (hg : get key l i = some x) {y : α} :
    y ∈ modify key l i f ↔ y = f x ∨ (y ∈ l ∧ key y ≠ i) := by
  rw [modify, List.mem_map]
  constructor
  · rintro ⟨z, hz, rfl⟩
    by_cases hk : key z = i
    · have : z = x := List.inj_on_of_nodup_map hn hz (get_mem hg) (hk.trans (get_key hg).symm)
      rw [if_pos hk, this]
      exact Or.inl rfl
    · rw [if_neg hk]
      exact Or.inr ⟨hz, hk⟩
  · rintro (rfl | ⟨hy, hk⟩)
    · exact ⟨x, get_mem hg, if_pos (get_key hg)⟩
    · exact ⟨y, hy, if_neg hk⟩

theorem modify_congr {g : α → α} (hn : (l.map key).Nodup) (hx : get key l i = some x) (h : f x = g x) :
    modify key l i f = modify key l i g := by
  refine List.map_congr_left fun y hy => ?_
  split
  · rename_i hk
    have hget := get_of_mem hn hy
    rw [hk] at hget
    obtain rfl : y = x := Option.some_inj.mp (hget.symm.trans hx)
    exact h
  · rfl

theorem modify_id : modify key l i id = l := by
  unfold modify
  simp

theorem modify_modify {g : α → α} (hf : ∀ x, key (f x) = key x) :
    modify key (modify key l i f) i g = modify key l i (g ∘ f) := by
  unfold modify
  rw [List.map_map]
  refine List.map_congr_left fun x _ => ?_
  by_cases hx : key x = i
  · simp [hx, hf]
  · simp [hx]

theorem get_map {β : Type} {key' : β → Nat} {g : α → β} (hg : ∀ x, key' (g x) = key x) :
    get key' (l.map g) i = (get key l i).map g := by
  simp only [get, List.find?_map, Function.comp_def, hg]

theorem get_append_of_none (h : get key l (key x) = none) : get key (l ++ [x]) (key x) = some x := by
  simp only [get] at h ⊢
  rw [List.find?_append, h]
  simp

theorem get_append_of_ne (hj : j ≠ key x) : get key (l ++ [x]) j = get key l j := by
  simp [get, List.find?_append, hj.symm]

theorem nodup_append (hn : (l.map key).Nodup) (h : get key l (key x) = none) : ((l ++ [x]).map key).Nodup := by
  rw [List.map_append, List.nodup_append]
  refine ⟨hn, by simp, ?_⟩
  intro y hy z hz
  obtain ⟨x', hx', rfl⟩ := List.mem_map.mp hy
  obtain rfl : z = key x := by simpa using hz
  exact get_eq_none.mp h x' hx'

theorem mem_remove (hn : (l.map key).Nodup) : x ∈ remove key l i ↔ x ∈ l ∧ key x ≠ i := by
  induction l with
  | nil => simp [remove]
  | cons a l ih =>
    rw [List.map_cons, List.nodup_cons] at hn
    by_cases ha : key a = i
    · have hno : ∀ x ∈ l, key x ≠ i := fun x hx he => hn.1 (List.mem_map.mpr ⟨x, hx, he.trans ha.symm⟩)
      have hr : remove key (a :: l) i = l := by simp [remove, ha]
      rw [hr]
      refine ⟨fun hx => ⟨List.mem_cons_of_mem _ hx, hno x hx⟩, ?_⟩
      rintro ⟨hx, hk⟩
      rcases List.mem_cons.mp hx with rfl | hx
      · exact absurd ha hk
      · exact hx
    · have hr : remove key (a :: l) i = a :: remove key l i := by simp [remove, ha]
      rw [hr, List.mem_cons, ih hn.2, List.mem_cons]
      constructor
      · rintro (rfl | ⟨hx, hk⟩)
        · exact ⟨Or.inl rfl, ha⟩
        · exact ⟨Or.inr hx, hk⟩
      · rintro ⟨rfl | hx, hk⟩
        · exact Or.inl rfl
        · exact Or.inr ⟨hx, hk⟩

theorem map_remove {β : Type} {key' : β → Nat} {g : α → β} (hg : ∀ x, key' (g x) = key x) :
    (remove key l i).map g = remove key' (l.map g) i := by
  induction l with
  | nil => rfl
  | cons a l ih =>
    by_cases ha : key a = i
    · simp [remove, ha, hg]
    · simpa [remove, ha, hg] using ih

theorem modify_map {β : Type} {key' : β → Nat} {g : α → β} {f' : β → β} (hg : ∀ x, key' (g x) = key x)
    (hf : ∀ x ∈ l, key x = i → g (f x) = f' (g x)) : (modify key l i f).map g = modify key' (l.map g) i f' := by
  rw [modify, modify, List.map_map, List.map_map]
  refine List.map_congr_left fun x hx => ?_
  by_cases h : key x = i
  · simp [h, hg, hf x hx h]
  · simp [h, hg]

theorem remove_append (h : get key l (key x) = none) : remove key (l ++ [x]) (key x) = l := by
  have hno : ∀ y ∈ l, ¬ (key y == key x) = true := fun y hy he => get_eq_none.mp h y hy (beq_iff_eq.mp he)
  unfold remove
  rw [List.eraseP_append_right _ hno]
  simp

theorem nodup_remove (hn : (l.map key).Nodup) : ((remove key l i).map key).Nodup :=
  (List.eraseP_sublist.map key).nodup hn

theorem get_remove_self (hn : (l.map key).Nodup) : get key (remove key l i) i = none :=
  get_eq_none.mpr fun _ hx => ((mem_remove hn).mp hx).2

theorem get_remove_of_ne (hj : j ≠ i) : get key (remove key l i) j = get key l j := by
  induction l with
  | nil => rfl
  | cons a l ih =>
    by_cases ha : key a = i
    · simp [get, remove, ha, hj.symm]
    · by_cases haj : key a = j
      · simp [get, remove, haj, hj]
      · simpa [get, remove, ha, haj] using ih

end Table
