import Os161.Lib.Outcome
import Os161.Lifetime
import Mathlib.Data.List.Basic

/-!
# How many references an executable has

The open count of a vnode follows the address spaces that use it. The
reference that `vfs_open` takes in `load_elf` is not dropped by `as_destroy`.
-/

namespace Os161

open Outcome

def users (l : List ExecSpace) (v : Nat) : Nat := l.countP fun x => x.file == some v

def heldRefs (l : List ExecSpace) (v : Nat) : Nat := l.countP fun x => x.file == some v && x.opened

structure VnodeCounts.Ok (c : VnodeCounts) : Prop where
  refcount : 0 ≤ c.vnRefcount
  opencount : 0 ≤ c.vnOpencount
  unloaded : c.vnRefcount = 0 → c.vnOpencount = 0

structure Balanced (c₀ c : VnodeCounts) (users refs gone : Nat) : Prop where
  opencount : c.vnOpencount = c₀.vnOpencount + users
  refcount : c.vnRefcount = c₀.vnRefcount + refs + gone
  loaded : users ≠ 0 → 1 ≤ refs + gone

def LifeOk (c : Nat → VnodeCounts) (s : Lifetime) : Prop :=
  ∀ v, Balanced (c v) (s.vnodes v) (users s.spaces v) (heldRefs s.spaces v) (s.gone.count v)

variable {c₀ c : VnodeCounts} {m n k : Nat}

theorem Balanced.ok (h : Balanced c₀ c m n k) (h₀ : c₀.Ok) : c.Ok := by
  obtain ⟨hopen, href, hload⟩ := h
  obtain ⟨hr, ho, hu⟩ := h₀
  refine ⟨by omega, by omega, fun hz => ?_⟩
  have := hu (by omega)
  by_contra hne
  have := hload (by omega)
  omega

/-! ## The calls of `vnode.c` -/

theorem openRdonly_eq (h : c.Ok) (opened : Option Errno) :
    openRdonly c opened = .ok (opened, match opened with
      | some _ => c
      | none => { vnRefcount := c.vnRefcount + 1, vnOpencount := c.vnOpencount + 1 }) := by
  obtain ⟨r, o⟩ := c
  obtain ⟨hr, ho, hu⟩ := h
  simp only at hr ho hu
  by_cases hz : r = 0
  · obtain rfl := hz
    obtain rfl := hu rfl
    cases opened <;> rfl
  · have hcheck : vnodeCheck { vnRefcount := r + 1, vnOpencount := o } .open = .ok () := by
      unfold vnodeCheck
      rw [if_neg (by simp only; omega), if_neg (by simp only; omega), if_neg (by simp only; omega)]
    simp only [openRdonly, lookupRef, hz, if_false, vnodeIncref, hcheck, ok_bind]
    cases opened with
    | none => rfl
    | some e =>
      have hdecref : vnodeDecref { vnRefcount := r + 1, vnOpencount := o } = .ok (⟨r, o⟩, false) := by
        unfold vnodeDecref
        rw [if_neg (by simp only; omega), if_pos (by simp only; omega)]
        simp
      simp only [vopDecref, hdecref, ok_bind]
      rfl

theorem vnodeCheck_open (hr : 0 < c.vnRefcount) (ho : 0 ≤ c.vnOpencount) (op : Vop) : vnodeCheck c op = .ok () := by
  unfold vnodeCheck
  rw [if_neg (by omega), if_neg (by omega), if_neg (by omega)]

theorem vopDecopen_eq (hr : 0 < c.vnRefcount) (ho : 0 < c.vnOpencount) :
    vopDecopen c = .ok { c with vnOpencount := c.vnOpencount - 1 } := by
  have hcheck := vnodeCheck_open (c := { c with vnOpencount := c.vnOpencount - 1 }) hr (by simp only; omega) .close
  simp only [vopDecopen, vnodeDecopen, if_neg (show ¬ c.vnOpencount ≤ 0 by omega), ok_bind, hcheck]
  split <;> rfl

/-! ## One call -/

section
variable {s s' : Lifetime} {init : Nat → VnodeCounts} {x : ExecSpace} {l : List ExecSpace} {v w : Nat}

theorem users_cons : users (x :: l) w = users l w + if x.file = some w then 1 else 0 := by
  simp [users, List.countP_cons]

theorem heldRefs_cons : heldRefs (x :: l) w = heldRefs l w + if x.file = some w ∧ x.opened = true then 1 else 0 := by
  simp [heldRefs, List.countP_cons]

theorem users_erase (hx : x ∈ l) : users l w = users (l.erase x) w + if x.file = some w then 1 else 0 := by
  rw [← users_cons]
  exact (List.perm_cons_erase hx).countP_eq _

theorem heldRefs_erase (hx : x ∈ l) :
    heldRefs l w = heldRefs (l.erase x) w + if x.file = some w ∧ x.opened = true then 1 else 0 := by
  rw [← heldRefs_cons]
  exact (List.perm_cons_erase hx).countP_eq _

theorem users_ne_zero (hx : x ∈ l) (hv : x.file = some v) : users l v ≠ 0 :=
  Nat.ne_of_gt (List.countP_pos_iff.mpr ⟨x, hx, by simp [hv]⟩)

theorem LifeOk.change (h : LifeOk init s) (v : Nat)
    (hv : Balanced (init v) (s'.vnodes v) (users s'.spaces v) (heldRefs s'.spaces v) (s'.gone.count v))
    (hw : ∀ w, w ≠ v → s'.vnodes w = s.vnodes w ∧ users s'.spaces w = users s.spaces w ∧
      heldRefs s'.spaces w = heldRefs s.spaces w ∧ s'.gone.count w = s.gone.count w) : LifeOk init s' := by
  intro w
  by_cases hwv : w = v
  · rw [hwv]
    exact hv
  · obtain ⟨hc, hu, hr, hg⟩ := hw w hwv
    rw [hc, hu, hr, hg]
    exact h w

theorem LifeOk.idle (h : LifeOk init s) (hx : x.file = none) : LifeOk init { s with spaces := x :: s.spaces } := by
  intro v
  simp only [users_cons, heldRefs_cons, hx]
  exact h v

variable (hi : ∀ v, (init v).Ok)
include hi

theorem LifeOk.loadElf (h : LifeOk init s) (a : Nat) (lookup : Except Errno Nat) (opened : Option Errno) :
    ∃ s', loadElfFile s a lookup opened = .ok s' ∧ LifeOk init s' := by
  cases lookup with
  | error e => exact ⟨_, rfl, h.idle rfl⟩
  | ok v =>
    have ho := openRdonly_eq ((h v).ok (hi v)) opened
    cases opened with
    | some e =>
      simp only [loadElfFile, ho, ok_bind, Function.update_eq_self]
      exact ⟨_, rfl, h.idle rfl⟩
    | none =>
      simp only [loadElfFile, ho, ok_bind]
      refine ⟨_, rfl, h.change v ?_ fun w hw => ?_⟩
      · obtain ⟨hopen, href, hload⟩ := h v
        simp only [users_cons, heldRefs_cons, Function.update_self, and_self, if_true]
        exact ⟨by simp only; omega, by simp only; omega, fun _ => by omega⟩
      · simp [users_cons, heldRefs_cons, hw, hw.symm]

theorem LifeOk.used (h : LifeOk init s) (hx : x ∈ s.spaces) (hv : x.file = some v) :
    0 < (s.vnodes v).vnRefcount ∧ 0 < (s.vnodes v).vnOpencount := by
  obtain ⟨hopen, href, hload⟩ := h v
  have := users_ne_zero hx hv
  have := hload this
  have := (hi v).refcount
  have := (hi v).opencount
  omega

theorem LifeOk.asCopy (h : LifeOk init s) (hx : x ∈ s.spaces) (child : Nat) :
    Post (asCopyFile s x child) (LifeOk init) fun e => x.file = none ∧ e = .nullVnode .open := by
  unfold asCopyFile
  cases hv : x.file with
  | none => exact ⟨rfl, rfl⟩
  | some v =>
    obtain ⟨hr, ho⟩ := h.used hi hx hv
    simp only [vnodeCheck_open hr (Int.le_of_lt ho) .open, ok_bind, post_ok]
    refine h.change v ?_ fun w hw => ?_
    · obtain ⟨hopen, href, hload⟩ := h v
      have := hload (users_ne_zero hx hv)
      simp only [users_cons, heldRefs_cons, Function.update_self, vnodeIncopen, if_true, Bool.false_eq_true, and_false,
        if_false]
      exact ⟨by simp only; omega, by simp only; omega, fun _ => by omega⟩
    · simp [users_cons, heldRefs_cons, hw, hw.symm]

theorem LifeOk.asDestroy (h : LifeOk init s) (hx : x ∈ s.spaces) :
    ∃ s', asDestroyFile s x = .ok s' ∧ LifeOk init s' := by
  have hu := fun w => users_erase (w := w) hx
  have hr := fun w => heldRefs_erase (w := w) hx
  unfold asDestroyFile
  cases hv : x.file with
  | none =>
    simp only [hv, reduceCtorEq, false_and, if_false, Nat.add_zero] at hu hr
    refine ⟨_, rfl, fun v => ?_⟩
    rw [← hu, ← hr]
    exact h v
  | some v =>
    obtain ⟨hpos, ho⟩ := h.used hi hx hv
    simp only [vopDecopen_eq hpos ho, ok_bind]
    refine ⟨_, rfl, h.change v ?_ fun w hw => ?_⟩
    · obtain ⟨hopen, href, hload⟩ := h v
      have hload := hload (users_ne_zero hx hv)
      have hu := hu v
      have hr := hr v
      simp only [hv, if_true, true_and] at hu hr
      simp only [Function.update_self]
      cases hop : x.opened
      · simp only [hop, Bool.false_eq_true, if_false] at hr ⊢
        exact ⟨by simp only; omega, by simp only; omega, fun _ => by omega⟩
      · simp only [hop, if_true, List.count_cons_self] at hr ⊢
        exact ⟨by simp only; omega, by simp only; omega, fun _ => by omega⟩
    · have hu := hu w
      have hr := hr w
      simp only [hv, Option.some.injEq, hw.symm, false_and, if_false, Nat.add_zero] at hu hr
      refine ⟨Function.update_of_ne hw _ _, hu.symm, hr.symm, ?_⟩
      split
      · exact List.count_cons_of_ne hw.symm
      · rfl

theorem LifeOk.step (h : LifeOk init s) (op : LifeOp) (he : lifeStep s op = .ok s') : LifeOk init s' := by
  cases op with
  | loadElf a lookup opened =>
    obtain ⟨s₁, he₁, h₁⟩ := h.loadElf hi a lookup opened
    simp only [lifeStep] at he
    split at he
    · obtain rfl := Except.ok.inj (he₁.symm.trans he)
      exact h₁
    · obtain rfl := Except.ok.inj he
      exact h
  | asCopy a child =>
    simp only [lifeStep] at he
    split at he
    · rename_i old hold hchild
      exact (h.asCopy hi (List.mem_of_find?_eq_some hold) child).ok_of he
    · obtain rfl := Except.ok.inj he
      exact h
  | asDestroy a =>
    simp only [lifeStep] at he
    split at he
    · obtain rfl := Except.ok.inj he
      exact h
    · rename_i as has
      obtain ⟨s₁, he₁, h₁⟩ := h.asDestroy hi (List.mem_of_find?_eq_some has)
      obtain rfl := Except.ok.inj (he₁.symm.trans he)
      exact h₁

end

/-! ## Whole lifetimes -/

def Lifetime.start (init : Nat → VnodeCounts) : Lifetime := { vnodes := init, spaces := [], gone := [] }

/-- The references agree with the spaces that hold them as long as no space
that `load_elf` opened the file for has been destroyed. -/
theorem executables_are_balanced {init : Nat → VnodeCounts} {s : Lifetime} (hi : ∀ v, (init v).Ok)
    (h : Reach lifeStep (fun _ _ => True) (Lifetime.start init) s) (v : Nat) :
    (s.vnodes v).vnOpencount = (init v).vnOpencount + users s.spaces v ∧
      ((s.vnodes v).vnRefcount = (init v).vnRefcount + heldRefs s.spaces v ↔ v ∉ s.gone) ∧
      (users s.spaces v = 0 → (s.vnodes v = init v ↔ v ∉ s.gone)) := by
  have hok : LifeOk init s :=
    h.invariant (I := LifeOk init) (fun v => ⟨by simp [Lifetime.start, users], by simp [Lifetime.start, heldRefs],
      fun hne => absurd rfl hne⟩) fun s op s' hs _ he => hs.step hi op he
  obtain ⟨hopen, href, hload⟩ := hok v
  have hgone : (s.vnodes v).vnRefcount = (init v).vnRefcount + heldRefs s.spaces v ↔ v ∉ s.gone := by
    rw [← List.count_eq_zero, href]
    omega
  refine ⟨hopen, hgone, fun hz => ?_⟩
  have hz' : heldRefs s.spaces v = 0 := by
    have : heldRefs s.spaces v ≤ users s.spaces v := List.countP_mono_left fun x _ hx => (Bool.and_eq_true_iff.mp hx).1
    omega
  rw [← hgone, hz', VnodeCounts.ext_iff, hopen, hz]
  simp

theorem executables_are_balanced_fork :
    ∃ s, Reach lifeStep (fun _ _ => True) (Lifetime.start fun _ => { vnRefcount := 0, vnOpencount := 0 }) s ∧
      s.spaces.length = 1 ∧ s.vnodes 7 = { vnRefcount := 1, vnOpencount := 1 } := by
  have h : Reach lifeStep (fun _ _ => True) (Lifetime.start fun _ => { vnRefcount := 0, vnOpencount := 0 }) _ :=
    Reach.of_foldlM (l := [.loadElf 0 (.ok 7) none, .asCopy 0 1, .asDestroy 1]) (fun _ _ _ => trivial) rfl
  obtain ⟨hopen, href, -⟩ := executables_are_balanced (fun _ => ⟨by decide, by decide, fun _ => rfl⟩) h 7
  exact ⟨_, h, rfl, VnodeCounts.ext (href.mpr (by decide)) hopen⟩

theorem destroyed_space_leaves_reference :
    ∃ s, Reach lifeStep (fun _ _ => True) (Lifetime.start fun _ => { vnRefcount := 0, vnOpencount := 0 }) s ∧
      s.spaces = [] ∧ s.vnodes 7 = { vnRefcount := 1, vnOpencount := 0 } :=
  ⟨_, Reach.of_foldlM (l := [.loadElf 0 (.ok 7) none, .asDestroy 0]) (fun _ _ _ => trivial) rfl, rfl, rfl⟩

end Os161
