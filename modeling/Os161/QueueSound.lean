import Os161.Queue
import Os161.Lib.Outcome
import Os161.Lib.Ring

/-!
# Queues and arrays hold lists

`Holds l`: the structure stands for the list `l`. A queue of size `n` holds at
most `n - 1` entries; an array that is emptied gives its storage back when it
has more than 16 cells.
-/

namespace Os161

open Outcome Ring

variable {α : Type} {q q' : Queue α} {a b : PtrArray α} {l l' : List α} {x : α} {n : Nat} {mem : Bool}

/-! ## Queues -/

structure Queue.Holds (q : Queue α) (l : List α) : Prop where
  room : l.length < q.size
  read : q.nextread < q.size
  write : q.nextwrite = (q.nextread + l.length) % q.size
  stored : Stored q.size q.nextread q.data l

theorem Queue.Holds.create (hn : 0 < n) : (qCreate n : Queue α).Holds [] where
  room := hn
  read := hn
  write := (Nat.zero_mod _).symm
  stored := .nil

theorem qStore_size (q : Queue α) (x : α) : (qStore q x).size = q.size := rfl

section
variable (h : q.Holds l)
include h

theorem Queue.Holds.size_ne : q.size ≠ 0 := Nat.ne_of_gt (Nat.zero_lt_of_lt h.read)

theorem Queue.Holds.empty_iff : qEmpty q = true ↔ l = [] := by
  rw [qEmpty, beq_iff_eq, h.write]
  constructor
  · intro he
    by_contra hne
    have hpos : 0 < l.length := List.length_pos_iff.mpr hne
    refine index_ne (r := q.nextread) hpos h.room ?_
    rw [he, Nat.add_zero, Nat.mod_eq_of_lt h.read]
  · rintro rfl
    simp [Nat.mod_eq_of_lt h.read]

theorem Queue.Holds.full_iff : (q.nextwrite + 1) % q.size = q.nextread ↔ l.length + 1 = q.size := by
  have hroom := h.room
  rw [h.write, Nat.mod_add_mod, Nat.add_assoc]
  constructor
  · intro he
    by_contra hne
    refine index_ne (r := q.nextread) (Nat.succ_pos l.length) (show l.length + 1 < q.size by omega) ?_
    rw [he, Nat.add_zero, Nat.mod_eq_of_lt h.read]
  · intro he
    rw [he, Nat.add_mod_right, Nat.mod_eq_of_lt h.read]

theorem Queue.Holds.store (hl : l.length + 1 < q.size) (x : α) : (qStore q x).Holds (l ++ [x]) where
  room := by simpa [qStore] using hl
  read := h.read
  write := by
    simp only [qStore, List.length_append, List.length_singleton]
    rw [h.write, Nat.mod_add_mod, Nat.add_assoc]
  stored := by
    have hstored := h.stored.push h.room x
    rw [← h.write] at hstored
    exact hstored

theorem Queue.Holds.addtail (hl : l.length + 1 < q.size) (x : α) (mem : Bool) :
    qAddtail q x mem = .ok (qStore q x) := by
  unfold qAddtail
  rw [if_neg h.size_ne, if_neg]
  rw [h.full_iff]
  omega

end

theorem Queue.Holds.remhead (h : q.Holds (x :: l)) :
    ∃ q', qRemhead q = .ok (x, q') ∧ q'.Holds l ∧ q'.size = q.size := by
  have hroom := h.room
  have hhead := h.stored.head
  rw [Nat.mod_eq_of_lt h.read] at hhead
  have hne : ¬ (q.size = 0 ∨ qEmpty q = true) := by
    rw [h.empty_iff]
    exact not_or.mpr ⟨h.size_ne, List.cons_ne_nil x l⟩
  refine ⟨{ q with nextread := (q.nextread + 1) % q.size }, ?_, ?_, rfl⟩
  · unfold qRemhead
    rw [if_neg hne, hhead]
  · constructor
    case room => exact Nat.lt_of_succ_lt hroom
    case read => exact Nat.mod_lt _ (Nat.pos_of_ne_zero h.size_ne)
    case write =>
      rw [h.write, List.length_cons, Nat.mod_add_mod, Nat.add_assoc, Nat.add_comm 1]
    case stored => exact h.stored.tail

theorem Queue.Holds.toList (h : q.Holds l) : q.toList = l := by
  have hlen : (q.nextwrite + q.size - q.nextread) % q.size = l.length := by
    have hread := h.read
    have hroom := h.room
    rw [h.write]
    by_cases hlt : q.nextread + l.length < q.size
    · rw [Nat.mod_eq_of_lt hlt, show q.nextread + l.length + q.size - q.nextread = l.length + q.size by omega,
        Nat.add_mod_right, Nat.mod_eq_of_lt hroom]
    · have hmod : (q.nextread + l.length) % q.size = q.nextread + l.length - q.size := by
        rw [Nat.mod_eq_sub_mod (by omega), Nat.mod_eq_of_lt (by omega)]
      rw [hmod, show q.nextread + l.length - q.size + q.size - q.nextread = l.length by omega, Nat.mod_eq_of_lt hroom]
  unfold Queue.toList
  rw [hlen]
  exact h.stored.toList

/-! ### A larger queue -/

theorem qGrowSize_ge {m k n : Nat} (hn : 0 < k) (hr : n ≤ k + m) : n ≤ qGrowSize m k n := by
  induction m generalizing k with
  | zero => exact hr
  | succ m ih =>
    unfold qGrowSize
    split
    · exact ih (by omega) (by omega)
    · omega

theorem qGrowLoop_eq {old : Queue α} {m i : Nat} (hs : Stored old.size i old.data l') (hi : i < old.size)
    (hw : old.nextwrite = (i + l'.length) % old.size) (hr : l'.length ≤ m) (hlen : l'.length < old.size)
    (h : q.Holds l) (hroom : l.length + l'.length < q.size) :
    ∃ q', qGrowLoop old m i q = .ok q' ∧ q'.Holds (l ++ l') ∧ q'.size = q.size := by
  induction m generalizing l l' i q with
  | zero =>
    obtain rfl := List.length_eq_zero_iff.mp (Nat.le_zero.mp hr)
    exact ⟨q, rfl, by rwa [List.append_nil], rfl⟩
  | succ m ih =>
    unfold qGrowLoop
    cases l' with
    | nil =>
      rw [if_pos (by rw [hw, List.length_nil, Nat.add_zero, Nat.mod_eq_of_lt hi])]
      exact ⟨q, rfl, by rwa [List.append_nil], rfl⟩
    | cons x l' =>
      have hne : i ≠ old.nextwrite := by
        have hidx := index_ne (r := i) (show 0 < (x :: l').length from Nat.succ_pos _) hlen
        rwa [Nat.add_zero, Nat.mod_eq_of_lt hi, ← hw] at hidx
      have hhead := hs.head
      rw [Nat.mod_eq_of_lt hi] at hhead
      rw [List.length_cons] at hlen hr hroom
      have hput : ¬ (q.nextwrite + 1) % q.size = q.nextread := by
        rw [h.full_iff]
        omega
      rw [if_neg hne, hhead]
      dsimp only
      rw [if_neg hput]
      obtain ⟨q', heq, hholds, hsize⟩ := ih hs.tail (Nat.mod_lt _ (Nat.zero_lt_of_lt hi))
        (by rw [hw, List.length_cons, Nat.mod_add_mod, Nat.add_assoc, Nat.add_comm 1]) (by omega) (by omega)
        (h.store (by omega) x) (by rw [qStore_size, List.length_append, List.length_singleton]; omega)
      refine ⟨q', heq, ?_, by rw [hsize, qStore_size]⟩
      rwa [List.append_assoc, List.singleton_append] at hholds

section
variable (h : q.Holds l)
include h

theorem Queue.Holds.grow (hn : q.size ≤ n) : ∃ q', qGrow q n true = .ok q' ∧ q'.Holds l ∧ n ≤ q'.size := by
  have hsize : n ≤ qGrowSize n q.size n := qGrowSize_ge (Nat.zero_lt_of_lt h.read) (Nat.le_add_left _ _)
  have hroom := h.room
  obtain ⟨q', heq, hholds, hsize'⟩ := qGrowLoop_eq (m := q.size) h.stored h.read h.write (Nat.le_of_lt hroom) hroom
    (Queue.Holds.create (n := qGrowSize n q.size n) (by omega)) (by simp only [List.length_nil, qCreate]; omega)
  refine ⟨q', heq, by rwa [List.nil_append] at hholds, ?_⟩
  rw [hsize']
  exact hsize

theorem Queue.Holds.addtail_mem (x : α) :
    ∃ q', qAddtail q x true = .ok q' ∧ q'.Holds (l ++ [x]) ∧ q.size ≤ q'.size := by
  have hroom := h.room
  by_cases hl : l.length + 1 < q.size
  · exact ⟨qStore q x, h.addtail hl x true, h.store hl x, Nat.le_refl _⟩
  · obtain ⟨q', heq, hholds, hsize⟩ := h.grow (Nat.le_succ q.size)
    refine ⟨qStore q' x, ?_, hholds.store (by omega) x, by rw [qStore_size]; omega⟩
    unfold qAddtail
    rw [if_neg h.size_ne, if_pos (h.full_iff.mpr (by omega)), heq, ok_bind]

theorem Queue.Holds.addtail_enomem (hl : l.length + 1 = q.size) (x : α) : qAddtail q x false = .error .enomem := by
  unfold qAddtail
  rw [if_neg h.size_ne, if_pos (h.full_iff.mpr hl)]
  rfl

theorem Queue.Holds.addtail_cases (x : α) (mem : Bool) :
    (∃ q', qAddtail q x mem = .ok q' ∧ q'.Holds (l ++ [x]) ∧ q.size ≤ q'.size) ∨
      (qAddtail q x mem = .error .enomem ∧ mem = false ∧ l.length + 1 = q.size) := by
  have hroom := h.room
  by_cases hl : l.length + 1 < q.size
  · exact Or.inl ⟨qStore q x, h.addtail hl x mem, h.store hl x, Nat.le_refl _⟩
  · cases mem with
    | true => exact Or.inl (h.addtail_mem x)
    | false =>
      have heq : l.length + 1 = q.size := by omega
      exact Or.inr ⟨h.addtail_enomem heq x, rfl, heq⟩

theorem Queue.Holds.preallocate (n : Nat) (mem : Bool) :
    (∃ q', qPreallocate q n mem = .ok q' ∧ q'.Holds l ∧ q.size ≤ q'.size ∧ n ≤ q'.size) ∨
      qPreallocate q n mem = .error .enomem := by
  unfold qPreallocate
  rw [if_neg h.size_ne]
  by_cases hn : n > q.size
  · rw [if_pos hn]
    cases mem with
    | false => exact Or.inr rfl
    | true =>
      obtain ⟨q', heq, hholds, hsize⟩ := h.grow (Nat.le_of_lt hn)
      exact Or.inl ⟨q', heq, hholds, by omega, hsize⟩
  · rw [if_neg hn]
    exact Or.inl ⟨q, rfl, h, Nat.le_refl _, by omega⟩

end

/-! ## Arrays -/

structure PtrArray.Holds (a : PtrArray α) (l : List α) : Prop where
  num : a.num = l.length
  le : a.num ≤ a.max
  cell : ∀ v, a.v = some v → ∀ k < l.length, v k = l[k]?
  null : a.v = none → a.max = 0

theorem PtrArray.Holds.create : (arrayCreate : PtrArray α).Holds [] where
  num := rfl
  le := Nat.le_refl _
  cell := nofun
  null _ := rfl

theorem arrayNewmax_ge {m k n : Nat} (hr : n ≤ k + m) : n ≤ arrayNewmax m k n ∧ k ≤ arrayNewmax m k n := by
  induction m generalizing k with
  | zero => exact ⟨hr, Nat.le_refl _⟩
  | succ m ih =>
    unfold arrayNewmax
    split
    · obtain ⟨h₁, h₂⟩ := ih (k := (k + 1) * 2) (by omega)
      exact ⟨h₁, by omega⟩
    · exact ⟨by omega, Nat.le_refl _⟩

section
variable (h : a.Holds l)
include h

theorem PtrArray.Holds.storage (hl : l ≠ []) : ∃ v, a.v = some v := by
  have hpos := List.length_pos_iff.mpr hl
  have hnum := h.num
  have hle := h.le
  cases hv : a.v with
  | none =>
    have hnull := h.null hv
    omega
  | some v => exact ⟨v, rfl⟩

theorem PtrArray.Holds.getguy {k : Nat} (hk : l[k]? = some x) : arrayGetguy a k = .ok x := by
  have hlt : k < l.length := (List.getElem?_eq_some_iff.mp hk).1
  obtain ⟨v, hv⟩ := h.storage (List.ne_nil_of_length_pos (Nat.zero_lt_of_lt hlt))
  unfold arrayGetguy
  rw [if_pos ⟨h.le, by rw [h.num]; exact hlt⟩, hv]
  simp only [h.cell v hv k hlt, hk]

theorem PtrArray.Holds.toList : a.toList = l := by
  unfold PtrArray.toList
  rw [h.num]
  refine filterMap_range fun k hk => ?_
  obtain ⟨v, hv⟩ := h.storage (List.ne_nil_of_length_pos (Nat.zero_lt_of_lt hk))
  rw [hv, Option.bind_some, h.cell v hv k hk]

theorem PtrArray.Holds.copy : ∃ v, arrayCopy a.num a.v = .ok v ∧ ∀ k < l.length, v k = l[k]? := by
  cases hv : a.v with
  | none =>
    have hzero : a.num = 0 := by
      have hnull := h.null hv
      have hle := h.le
      omega
    refine ⟨fun _ => none, if_pos hzero, fun k hk => ?_⟩
    rw [← h.num, hzero] at hk
    cases hk
  | some v =>
    refine ⟨_, rfl, fun k hk => ?_⟩
    rw [if_pos (by rw [h.num]; exact hk), h.cell v hv k hk]

theorem PtrArray.Holds.preallocate (n : Nat) :
    ∃ b, arrayPreallocate a n true = .ok b ∧ b.Holds l ∧ n ≤ b.max ∧ a.max ≤ b.max ∧ b.v ≠ none := by
  obtain ⟨v, heq, hv⟩ := h.copy
  obtain ⟨hn, hmax⟩ := arrayNewmax_ge (n := n) (k := a.max) (m := n) (Nat.le_add_left _ _)
  refine ⟨{ num := a.num, max := arrayNewmax n a.max n, v := some v }, ?_, ?_, hn, hmax, nofun⟩
  · unfold arrayPreallocate
    rw [if_neg (Nat.not_lt.mpr h.le), if_pos rfl, heq, ok_bind]
  · refine ⟨h.num, Nat.le_trans h.le hmax, ?_, nofun⟩
    intro w hw
    obtain rfl := Option.some.inj hw
    exact hv

theorem PtrArray.Holds.preallocate_enomem (n : Nat) : arrayPreallocate a n false = .error .enomem := by
  unfold arrayPreallocate
  rw [if_neg (Nat.not_lt.mpr h.le)]
  rfl

theorem PtrArray.Holds.preallocate_cases (n : Nat) (mem : Bool) :
    (∃ b, arrayPreallocate a n mem = .ok b ∧ b.Holds l ∧ n ≤ b.max ∧ a.max ≤ b.max) ∨
      arrayPreallocate a n mem = .error .enomem := by
  cases mem with
  | false => exact Or.inr (h.preallocate_enomem n)
  | true =>
    obtain ⟨b, heq, hb, hn, hle, -⟩ := h.preallocate n
    exact Or.inl ⟨b, heq, hb, hn, hle⟩

end

theorem PtrArray.Holds.put {v : Nat → Option α} (h : a.Holds l) (hv : a.v = some v) (hmax : a.num < a.max) (x : α) :
    ({ a with num := a.num + 1, v := some (Function.update v a.num (some x)) } : PtrArray α).Holds (l ++ [x]) := by
  have hnum := h.num
  refine ⟨by simp [hnum], hmax, ?_, nofun⟩
  intro w hw k hk
  obtain rfl := Option.some.inj hw
  rw [List.length_append, List.length_singleton] at hk
  by_cases hkl : k = l.length
  · rw [hkl, ← hnum, Function.update_self, hnum]
    simp
  · have hlt : k < l.length := by omega
    rw [Function.update_of_ne (by omega), h.cell v hv k hlt, List.getElem?_append_left hlt]

section
variable (h : a.Holds l)
include h

theorem PtrArray.Holds.add (hmax : a.num < a.max) (x : α) (mem : Bool) :
    ∃ b, arrayAdd a x mem = .ok b ∧ b.Holds (l ++ [x]) ∧ b.max = a.max := by
  cases hv : a.v with
  | none =>
    have hnull := h.null hv
    omega
  | some v =>
    have hset : arraySetsize a (a.num + 1) mem = .ok { a with num := a.num + 1 } := by
      unfold arraySetsize
      rw [if_neg (Nat.not_lt.mpr h.le), if_neg (by omega), if_neg (by omega)]
    refine ⟨_, ?_, h.put hv hmax x, rfl⟩
    unfold arrayAdd
    rw [hset, ok_bind]
    simp only [hv]

theorem PtrArray.Holds.add_mem (x : α) : ∃ b, arrayAdd a x true = .ok b ∧ b.Holds (l ++ [x]) ∧ a.max ≤ b.max := by
  by_cases hmax : a.num < a.max
  · obtain ⟨b, heq, hb, he⟩ := h.add hmax x true
    exact ⟨b, heq, hb, Nat.le_of_eq he.symm⟩
  · obtain ⟨b, heq, hb, hn, hle, hne⟩ := h.preallocate (a.num + 1)
    obtain ⟨v, hv⟩ := Option.ne_none_iff_exists'.mp hne
    have hnum : b.num = a.num := by rw [hb.num, h.num]
    have hset : arraySetsize a (a.num + 1) true = .ok { b with num := a.num + 1 } := by
      unfold arraySetsize
      rw [if_neg (Nat.not_lt.mpr h.le), if_pos (by omega), heq, ok_bind]
    have hput := hb.put hv (by omega) x
    rw [hnum] at hput
    refine ⟨_, ?_, hput, hle⟩
    unfold arrayAdd
    rw [hset, ok_bind]
    simp only [hv]

theorem PtrArray.Holds.add_enomem (hmax : a.num = a.max) (x : α) : arrayAdd a x false = .error .enomem := by
  unfold arrayAdd arraySetsize
  rw [if_neg (Nat.not_lt.mpr h.le), if_pos (by omega), h.preallocate_enomem]
  rfl

theorem PtrArray.Holds.add_cases (x : α) (mem : Bool) :
    (∃ b, arrayAdd a x mem = .ok b ∧ b.Holds (l ++ [x]) ∧ a.max ≤ b.max) ∨
      (arrayAdd a x mem = .error .enomem ∧ mem = false ∧ a.num = a.max) := by
  by_cases hmax : a.num < a.max
  · obtain ⟨b, heq, hb, he⟩ := h.add hmax x mem
    exact Or.inl ⟨b, heq, hb, Nat.le_of_eq he.symm⟩
  · cases mem with
    | true => exact Or.inl (h.add_mem x)
    | false =>
      have heq : a.num = a.max := Nat.le_antisymm h.le (Nat.not_lt.mp hmax)
      exact Or.inr ⟨h.add_enomem heq x, rfl, heq⟩

theorem PtrArray.Holds.remove {i : Nat} (hi : i < l.length) :
    ∃ b, arrayRemove a i = .ok b ∧ b.Holds (l.eraseIdx i) ∧ b.max = a.max := by
  have hnum := h.num
  have hle := h.le
  obtain ⟨v, hv⟩ := h.storage (List.ne_nil_of_length_pos (Nat.zero_lt_of_lt hi))
  refine ⟨{ a with v := some fun k => if i ≤ k ∧ k < a.num - 1 then v (k + 1) else v k, num := a.num - 1 }, ?_, ?_, rfl⟩
  · unfold arrayRemove
    rw [if_pos ⟨hle, by omega⟩, hv]
  · refine ⟨by simp [List.length_eraseIdx, hi, hnum], by simp only; omega, ?_, nofun⟩
    intro w hw k hk
    obtain rfl := Option.some.inj hw
    rw [List.length_eraseIdx, if_pos hi] at hk
    rw [List.getElem?_eraseIdx]
    dsimp only
    by_cases hik : i ≤ k
    · rw [if_pos ⟨hik, by omega⟩, if_neg (by omega), h.cell v hv (k + 1) (by omega)]
    · rw [if_neg (fun hc => hik hc.1), if_pos (by omega), h.cell v hv k (by omega)]

theorem PtrArray.Holds.clear (mem : Bool) :
    ∃ b, arraySetsize a 0 mem = .ok b ∧ b.Holds [] ∧ b.max = if a.max > 16 then 0 else a.max := by
  unfold arraySetsize
  rw [if_neg (Nat.not_lt.mpr h.le), if_neg (Nat.not_lt_zero _)]
  by_cases hmax : a.max > 16
  · rw [if_pos ⟨rfl, hmax⟩, if_pos hmax]
    cases hv : a.v with
    | none =>
      have hnull := h.null hv
      omega
    | some v => exact ⟨_, rfl, ⟨rfl, Nat.le_refl _, nofun, fun _ => rfl⟩, rfl⟩
  · rw [if_neg (fun hc => hmax hc.2), if_neg hmax]
    exact ⟨_, rfl, ⟨rfl, Nat.zero_le _, fun _ _ k hk => absurd hk (Nat.not_lt_zero k), h.null⟩, rfl⟩

end

end Os161
