import Os161.UioSound
import Os161.Usercopy

/-!
# The range check is exact

A block is copied if all of it is below `USERTOP`, and a string up to its
terminator if that comes before the limit and before `USERTOP`. Nothing at or
above `USERTOP` is accessed.
-/

namespace Os161

open Bytes

variable {dir : CopyDir} {p len n i j k a : Nat} {st st' : CopyState}

structure CopyState.Copied (dir : CopyDir) (p m : Nat) (st st' : CopyState) : Prop where
  accessed : ∀ a, a ∈ st'.accessed ↔ a ∈ st.accessed ∨ p ≤ a ∧ a < p + m
  user : st'.user = match dir with
    | .in => st.user
    | .out => copyBytes st.user p st.kern 0 m
  kern : st'.kern = match dir with
    | .in => copyBytes st.kern 0 st.user p m
    | .out => st.kern

def Terminated (src : Nat → UInt8) (room k : Nat) : Prop := k < room ∧ src k = 0 ∧ ∀ j < k, src j ≠ 0

/-! ## `memcpy` -/

theorem update_eq_copyBytes {dst src : Mem} : Function.update dst k (src j) = copyBytes dst k src j 1 := by
  funext a
  unfold copyBytes
  by_cases ha : a = k
  · rw [ha, Function.update_self, if_pos (by omega), Nat.sub_self, Nat.add_zero]
  · rw [Function.update_of_ne ha, if_neg (by omega)]

theorem source_move : (st.move dir p i).source dir p j = st.source dir p j := by
  cases dir <;> rfl

theorem mem_accessed_memcpy :
    a ∈ (CopyState.memcpy dir p n i st).accessed ↔ a ∈ st.accessed ∨ p + i ≤ a ∧ a < p + i + n := by
  induction n generalizing i st with
  | zero =>
    unfold CopyState.memcpy
    constructor
    · exact Or.inl
    · rintro (h | h)
      · exact h
      · omega
  | succ n ih =>
    have hmove : a ∈ (st.move dir p i).accessed ↔ a = p + i ∨ a ∈ st.accessed := by
      cases dir <;> exact List.mem_cons
    unfold CopyState.memcpy
    rw [ih, hmove]
    constructor
    · rintro ((h | h) | h)
      · exact Or.inr (by omega)
      · exact Or.inl h
      · exact Or.inr (by omega)
    · rintro (h | h)
      · exact Or.inl (Or.inr h)
      · by_cases ha : a = p + i
        · exact Or.inl (Or.inl ha)
        · exact Or.inr (by omega)

theorem memcpy_in : (CopyState.memcpy .in p n i st).user = st.user ∧
    (CopyState.memcpy .in p n i st).kern = copyBytes st.kern i st.user (p + i) n := by
  induction n generalizing i st with
  | zero => exact ⟨rfl, copyBytes_zero.symm⟩
  | succ n ih =>
    unfold CopyState.memcpy
    obtain ⟨huser, hkern⟩ := @ih (i + 1) (st.move .in p i)
    refine ⟨huser, hkern.trans ?_⟩
    show copyBytes (Function.update st.kern i (st.user (p + i))) (i + 1) st.user (p + (i + 1)) n = _
    rw [update_eq_copyBytes, ← Nat.add_assoc, copyBytes_adjacent, Nat.add_comm 1 n]

theorem memcpy_out : (CopyState.memcpy .out p n i st).kern = st.kern ∧
    (CopyState.memcpy .out p n i st).user = copyBytes st.user (p + i) st.kern i n := by
  induction n generalizing i st with
  | zero => exact ⟨rfl, copyBytes_zero.symm⟩
  | succ n ih =>
    unfold CopyState.memcpy
    obtain ⟨hkern, huser⟩ := @ih (i + 1) (st.move .out p i)
    refine ⟨hkern, huser.trans ?_⟩
    show copyBytes (Function.update st.user (p + i) (st.kern i)) (p + (i + 1)) st.kern (i + 1) n = _
    rw [update_eq_copyBytes, ← Nat.add_assoc, copyBytes_adjacent, Nat.add_comm 1 n]

theorem memcpy_copied : st.Copied dir p n (CopyState.memcpy dir p n 0 st) where
  accessed a := mem_accessed_memcpy
  user := by
    cases dir with
    | «in» => exact memcpy_in.1
    | out => exact memcpy_out.2
  kern := by
    cases dir with
    | «in» =>
      have h := (@memcpy_in p n 0 st).2
      rwa [Nat.add_zero] at h
    | out => exact memcpy_out.1

/-! ## `copycheck` -/

theorem copycheckStop_below (hl : 0 < len) (hl32 : len < 2 ^ 32) (hp : p < 2 ^ 32) (h : p + len ≤ 2 ^ 32) :
    copycheckStop p len = if userTop ≤ p then .error .efault else .ok (min len (userTop - p)) := by
  have htop : u32 (p + len - 1) = p + len - 1 := Nat.mod_eq_of_lt (by omega)
  unfold copycheckStop
  simp only [if_neg (show ¬ p + len = 0 by omega), htop]
  rw [if_neg (by omega)]
  by_cases hu : userTop ≤ p
  · rw [if_pos hu, if_pos hu]
  · rw [if_neg hu, if_neg hu]
    by_cases ht : userTop ≤ p + len - 1
    · rw [if_pos ht, Nat.min_eq_right (by omega)]
    · rw [if_neg ht, Nat.min_eq_left (by omega)]

theorem copycheckStop_wraps (hl32 : len < 2 ^ 32) (hp : p < 2 ^ 32) (h : 2 ^ 32 < p + len) :
    copycheckStop p len = .error .efault := by
  have htop : u32 (p + len - 1) = p + len - 1 - 2 ^ 32 := by
    unfold u32
    omega
  unfold copycheckStop
  simp only [if_neg (show ¬ p + len = 0 by omega), htop]
  rw [if_pos (by omega)]

theorem copyBlock_below (hl : 0 < len) (hl32 : len < 2 ^ 32) (hp : p < 2 ^ 32) (h : p + len ≤ userTop) :
    copyBlock dir p len st = (none, CopyState.memcpy dir p len 0 st) := by
  have htop : userTop ≤ 2 ^ 32 := by decide
  unfold copyBlock
  rw [copycheckStop_below hl hl32 hp (by omega), if_neg (by omega), Nat.min_eq_left (by omega)]
  exact if_neg (not_not_intro rfl)

theorem copyBlock_above (hl : 0 < len) (hl32 : len < 2 ^ 32) (hp : p < 2 ^ 32) (h : userTop < p + len) :
    copyBlock dir p len st = (some .efault, st) := by
  unfold copyBlock
  rcases Nat.lt_or_ge (2 ^ 32) (p + len) with hw | hw
  · rw [copycheckStop_wraps hl32 hp hw]
  · rw [copycheckStop_below hl hl32 hp hw]
    by_cases hu : userTop ≤ p
    · rw [if_pos hu]
    · rw [if_neg hu]
      exact if_pos (by omega)

/-! ## Strings -/

theorem copystrRounds_found (hk : Terminated (fun j => st.source dir p (i + j)) n k) :
    copystrRounds dir p n i st = (some (i + k + 1), CopyState.memcpy dir p (k + 1) i st) := by
  obtain ⟨hlt, hz, hne⟩ := hk
  induction n generalizing i k st with
  | zero => exact absurd hlt (Nat.not_lt_zero k)
  | succ n ih =>
    unfold copystrRounds CopyState.memcpy
    dsimp only
    rw [source_move]
    cases k with
    | zero =>
      have h0 : st.source dir p i = 0 := hz
      rw [if_pos h0]
      rfl
    | succ k =>
      have h0 : st.source dir p i ≠ 0 := hne 0 (Nat.succ_pos k)
      rw [if_neg h0]
      have hnext := @ih (i + 1) k (st.move dir p i) (by omega)
        (by dsimp only; rw [source_move, Nat.add_assoc, Nat.add_comm 1]; exact hz)
        fun j hj => by
          dsimp only
          rw [source_move, Nat.add_assoc, Nat.add_comm 1]
          exact hne (j + 1) (by omega)
      rw [hnext, Nat.add_assoc i 1 k, Nat.add_comm 1 k]

theorem copystrRounds_none (h : ∀ j < n, st.source dir p (i + j) ≠ 0) :
    copystrRounds dir p n i st = (none, CopyState.memcpy dir p n i st) := by
  induction n generalizing i st with
  | zero => rfl
  | succ n ih =>
    unfold copystrRounds CopyState.memcpy
    dsimp only
    have h0 : st.source dir p i ≠ 0 := h 0 (Nat.succ_pos n)
    rw [source_move, if_neg h0]
    refine ih fun j hj => ?_
    rw [source_move, Nat.add_assoc, Nat.add_comm 1]
    exact h (j + 1) (by omega)

section
variable (hl : 0 < len) (hl32 : len < 2 ^ 32) (hp : p < 2 ^ 32) (hw : p + len ≤ 2 ^ 32)
include hl hl32 hp hw

theorem copyString_found (hk : Terminated (st.source dir p) (min len (userTop - p)) k) :
    copyString dir p len st = (.ok (k + 1), CopyState.memcpy dir p (k + 1) 0 st) := by
  have hroom := hk.1
  have hrounds : Terminated (fun j => st.source dir p (0 + j)) (min len (min len (userTop - p))) k := by
    rw [← Nat.min_assoc, Nat.min_self]
    simpa only [Nat.zero_add] using hk
  unfold copyString
  rw [copycheckStop_below hl hl32 hp hw, if_neg (by omega)]
  dsimp only
  rw [copystrRounds_found hrounds, Nat.zero_add]

theorem copyString_none (hk : ∀ k, ¬ Terminated (st.source dir p) (min len (userTop - p)) k) :
    ∃ m ≤ userTop - p, copyString dir p len st =
      (.error (if userTop - p < len then .efault else .enametoolong), CopyState.memcpy dir p m 0 st) := by
  have hne : ∀ j < min len (userTop - p), st.source dir p j ≠ 0 := by
    intro j
    induction j using Nat.strongRecOn with
    | _ j ih => exact fun hj hz => hk j ⟨hj, hz, fun l hl => ih l hl (by omega)⟩
  unfold copyString
  rw [copycheckStop_below hl hl32 hp hw]
  by_cases hu : userTop ≤ p
  · refine ⟨0, Nat.zero_le _, ?_⟩
    rw [if_pos hu, if_pos (by omega)]
    rfl
  · refine ⟨min len (userTop - p), Nat.min_le_right _ _, ?_⟩
    rw [if_neg hu]
    dsimp only
    rw [← Nat.min_assoc, Nat.min_self, copystrRounds_none fun j hj => by rw [Nat.zero_add]; exact hne j hj]
    dsimp only
    by_cases hs : userTop - p < len
    · rw [if_pos hs, if_pos (by omega)]
    · rw [if_neg hs, if_neg (by omega)]

end

/-! ## The four copies -/

def BlockExact (dir : CopyDir) (copy : Nat → Nat → CopyState → Option Errno × CopyState) : Prop :=
  ∀ p len st, p < 2 ^ 32 → 0 < len → len < 2 ^ 32 →
    ((∀ a, p ≤ a → a < p + len → a < userTop) → ∃ st', copy p len st = (none, st') ∧ st.Copied dir p len st') ∧
    (¬ (∀ a, p ≤ a → a < p + len → a < userTop) → copy p len st = (some .efault, st))

def StringExact (dir : CopyDir) (copy : Nat → Nat → CopyState → Except Errno Nat × CopyState) : Prop :=
  ∀ p len st, p < 2 ^ 32 → 0 < len → len < 2 ^ 32 → p + len ≤ 2 ^ 32 →
    (∀ k, Terminated (st.source dir p) (min len (userTop - p)) k →
      ∃ st', copy p len st = (.ok (k + 1), st') ∧ st.Copied dir p (k + 1) st' ∧ p + (k + 1) ≤ userTop) ∧
    ((∀ k, ¬ Terminated (st.source dir p) (min len (userTop - p)) k) →
      ∃ st', copy p len st = (.error (if userTop - p < len then .efault else .enametoolong), st') ∧
        ∀ a ∈ st'.accessed, a ∈ st.accessed ∨ p ≤ a ∧ a < userTop)

theorem copyBlock_exact (dir : CopyDir) : BlockExact dir (copyBlock dir) := by
  intro p len st hp hl hl32
  have hrange : (∀ a, p ≤ a → a < p + len → a < userTop) ↔ p + len ≤ userTop := by
    constructor
    · intro h
      have htop := h (p + len - 1) (by omega) (by omega)
      omega
    · intro h a _ ha
      omega
  rw [hrange]
  refine ⟨fun h => ⟨_, copyBlock_below hl hl32 hp h, memcpy_copied⟩, fun h => ?_⟩
  exact copyBlock_above hl hl32 hp (Nat.lt_of_not_le h)

theorem copyString_exact (dir : CopyDir) : StringExact dir (copyString dir) := by
  intro p len st hp hl hl32 hw
  refine ⟨fun k hk => ⟨_, copyString_found hl hl32 hp hw hk, memcpy_copied, ?_⟩, fun hk => ?_⟩
  · have hroom := hk.1
    omega
  · obtain ⟨m, hm, hcopy⟩ := copyString_none hl hl32 hp hw hk
    refine ⟨_, hcopy, fun a ha => ?_⟩
    rcases mem_accessed_memcpy.mp ha with ha | ha
    · exact Or.inl ha
    · exact Or.inr (by omega)

theorem usercopy_exact : BlockExact .in copyinUser ∧ BlockExact .out copyoutUser ∧
    StringExact .in copyinstrUser ∧ StringExact .out copyoutstrUser :=
  ⟨copyBlock_exact .in, copyBlock_exact .out, copyString_exact .in, copyString_exact .out⟩

end Os161
