import Os161.Execv
import Os161.OwnershipSound

/-!
# A failing exec

Errors found in the first three checks leave everything as it was, if what
they read of user memory is in the TLB. All later ones leave the buffers of
`sys_execv` behind, and those after `as_destroy` find the caller without its
space.
-/

namespace Os161

open Outcome

/-- The caller is as it was, and what was allocated in between has been freed. -/
structure Intact (s s' : ExecvSys) : Prop where
  vmspace : s'.sys.curAs = s.sys.curAs
  segments : s'.sys.cur = s.sys.cur
  entries : ∀ as p, s.sys.cur = some as → p ∈ as.pages → s'.sys.vm.pds p = s.sys.vm.pds p
  frames : ∀ as p, s.sys.cur = some as → p ∈ as.pages → (s.sys.vm.pds p).valid = true →
    s'.sys.vm.mem (s.sys.vm.pds p).pfn.toNat = s.sys.vm.mem (s.sys.vm.pds p).pfn.toNat
  slots : ∀ as p, s.sys.cur = some as → p ∈ as.pages → (s.sys.vm.pds p).sfn ≠ -1 →
    s'.sys.vm.swap.data (s.sys.vm.pds p).sfn.toNat = s.sys.vm.swap.data (s.sys.vm.pds p).sfn.toNat
  freed : ∀ b ∈ s'.heap, b ∈ s.heap

theorem Intact.refl (s : ExecvSys) : Intact s s :=
  ⟨rfl, rfl, fun _ _ _ _ => rfl, fun _ _ _ _ _ => rfl, fun _ _ _ _ _ => rfl, fun _ hb => hb⟩

def UserArgs.Admitted (u : UserArgs) (as : AddrSpace) : Prop :=
  asValidReadAddr as u.progname = true ∧ asValidReadAddr as u.args = true ∧ 1 ≤ strlen (u.str u.progname) ∧
    u.argv.length ≤ 16

/-- What is read before the third check decides. -/
def UserArgs.reads (u : UserArgs) (as : AddrSpace) : List Nat :=
  if asValidReadAddr as u.progname = false ∨ asValidReadAddr as u.args = false then []
  else u.stringReads u.progname ++ if strlen (u.str u.progname) < 1 then [] else u.argvReads

def UserArgs.Mapped (u : UserArgs) (as : AddrSpace) (t : Tlb) : Prop :=
  ∀ x ∈ u.reads as, tlbLookup t (x &&& pageFrame) ≠ none

def UserArgs.checked (u : UserArgs) (as : AddrSpace) : List (Bool × CString) :=
  u.argv.map fun p => (asValidReadAddr as p, u.str p)

variable {s s' : ExecvSys} {u : UserArgs} {k : ExecvMem} {vfsOpen : CString → Except Errno (Nat × ExecFile)}
  {as : AddrSpace} {a : Nat} {e : Errno}

theorem readUser_mapped {resid : Nat → Nat} {l : List Nat} {sys : Sys}
    (h : ∀ x ∈ l, tlbLookup sys.vm.tlb (x &&& pageFrame) ≠ none) : readUser as resid l sys = .ok sys := by
  induction l with
  | nil => rfl
  | cons x l ih =>
    obtain ⟨e, he⟩ := Option.ne_none_iff_exists'.mp (h x (List.mem_cons_self ..))
    rw [readUser, he]
    exact ih fun y hy => h y (List.mem_cons_of_mem _ hy)

/-- Reading user memory changes the machine only. -/
theorem readUser_keeps {resid : Nat → Nat} {l : List Nat} {sys sys' : Sys} (h : readUser as resid l sys = .ok sys') :
    ∃ vm, sys' = { sys with vm := vm } := by
  induction l generalizing sys with
  | nil => exact ⟨sys.vm, (Except.ok.inj h).symm⟩
  | cons x l ih =>
    unfold readUser at h
    split at h
    · exact ih h
    · split at h
      · cases h
      · obtain ⟨vm, rfl⟩ := ih h
        exact ⟨vm, rfl⟩
      · cases h

theorem copyinArgs_spec {argv : List Nat} {i : Nat} {r : Option Errno} (h : copyinArgs as u k argv i s = .ok (r, s')) :
    checkArgs (argv.map fun p => (asValidReadAddr as p, u.str p)) = r.elim (.ok ()) .error ∧
      (∀ b ∈ s.heap, b ∈ s'.heap) ∧ ∃ vm, s'.sys = { s.sys with vm := vm } := by
  induction argv generalizing i s with
  | nil =>
    simp only [copyinArgs, Except.ok.injEq, Prod.mk.injEq] at h
    obtain ⟨rfl, rfl⟩ := h
    exact ⟨rfl, fun _ hb => hb, s.sys.vm, rfl⟩
  | cons p argv ih =>
    unfold copyinArgs at h
    simp only [List.map_cons, checkArgs]
    by_cases hv : asValidReadAddr as p = false
    · rw [if_pos hv] at h ⊢
      simp only [Except.ok.injEq, Prod.mk.injEq] at h
      obtain ⟨rfl, rfl⟩ := h
      exact ⟨rfl, fun _ hb => hb, s.sys.vm, rfl⟩
    · rw [if_neg hv] at h ⊢
      obtain ⟨sys₁, h₁, h⟩ := bind_eq_ok.mp h
      obtain ⟨vm₁, rfl⟩ := readUser_keeps h₁
      by_cases hl : strlen (u.str p) < 1
      · rw [if_pos hl] at h ⊢
        simp only [Except.ok.injEq, Prod.mk.injEq] at h
        obtain ⟨rfl, rfl⟩ := h
        exact ⟨rfl, fun _ hb => hb, vm₁, rfl⟩
      · rw [if_neg hl] at h ⊢
        split at h
        · obtain ⟨sys₂, h₂, h⟩ := bind_eq_ok.mp h
          obtain ⟨vm₂, rfl⟩ := readUser_keeps h₂
          obtain ⟨hc, hsub, hvm⟩ := ih h
          exact ⟨hc, fun b hb => hsub b (List.mem_cons_of_mem _ hb), hvm⟩
        · cases h

theorem execvReplace_returns {file : Except Errno (Nat × ExecFile)} (h : execvReplace s k a as file = .returns e s') :
    (∃ s₁, asDestroy s.sys a as = .ok s₁ ∧ s'.sys.vm.cm = s₁.vm.cm ∧ s'.sys.vm.swap = s₁.vm.swap) ∧
      ∀ b, HeapBlock.buffer b ∈ s.heap → HeapBlock.buffer b ∈ s'.heap := by
  unfold execvReplace at h
  cases hd : asDestroy s.sys a as with
  | error c =>
    rw [hd] at h
    cases h
  | ok s₁ =>
    rw [hd] at h
    -- `as_destroy` frees a space and its page tables, no buffer
    have hkeep : ∀ b, HeapBlock.buffer b ∈ s.heap →
        HeapBlock.buffer b ∈ s.heap.filter fun b => !(spaceBlocks a as).contains b := by
      intro b hb
      rw [List.mem_filter]
      refine ⟨hb, ?_⟩
      simp [spaceBlocks]
    cases hs : k.space with
    | none =>
      simp only [hs, ExecvOutcome.returns.injEq] at h
      obtain ⟨-, rfl⟩ := h
      exact ⟨⟨s₁, rfl, rfl, rfl⟩, hkeep⟩
    | some x =>
      simp only [hs] at h
      split at h
      · cases h
      · cases h
      · simp only [ExecvOutcome.returns.injEq] at h
        obtain ⟨-, rfl⟩ := h
        refine ⟨⟨s₁, rfl, rfl, rfl⟩, fun b hb => ?_⟩
        exact List.mem_append_right _ (List.mem_cons_of_mem _ (hkeep b hb))

section
variable (hcur : s.sys.curAs = some a) (has : s.sys.cur = some as) (h : sysExecv s u k vfsOpen = .returns e s')
include hcur has h

theorem sysExecv_refused (hno : ¬ u.Admitted as) (hm : u.Mapped as s.sys.vm.tlb) : s' = s := by
  unfold sysExecv at h
  unfold UserArgs.Mapped UserArgs.reads at hm
  simp only [hcur, has] at h
  split at h
  · exact (ExecvOutcome.returns.inj h).2.symm
  · rename_i hp
    rw [if_neg hp] at hm
    rw [readUser_mapped fun x hx => hm x (List.mem_append_left _ hx)] at h
    dsimp only at h
    split at h
    · exact (ExecvOutcome.returns.inj h).2.symm
    · rename_i hl
      rw [if_neg hl] at hm
      rw [readUser_mapped fun x hx => hm x (List.mem_append_right _ hx)] at h
      dsimp only at h
      split at h
      · exact (ExecvOutcome.returns.inj h).2.symm
      · rename_i hn
        simp only [not_or, Bool.not_eq_false] at hp
        exact absurd ⟨hp.1, hp.2, Nat.le_of_not_lt hl, Nat.le_of_not_lt hn⟩ hno

theorem sysExecv_admitted (hadm : u.Admitted as) :
    ∃ name vm s₁, k.progname = some name ∧ HeapBlock.buffer name ∈ s₁.heap ∧ s₁.sys = { s.sys with vm := vm } ∧
    ((checkArgs (u.checked as) = .error e ∧ s' = s₁) ∨
      (checkArgs (u.checked as) = .ok () ∧ execvReplace s₁ k a as (vfsOpen (u.str u.progname)) = .returns e s')) := by
  obtain ⟨hp, ha, hl, hn⟩ := hadm
  unfold sysExecv at h
  simp only [hcur, has, hp, ha, Bool.true_eq_false, or_self, if_false, Nat.not_lt.mpr hl, Nat.not_lt.mpr hn] at h
  split at h
  · cases h
  rename_i sys₁ h₁
  obtain ⟨vm₁, rfl⟩ := readUser_keeps h₁
  split at h
  · cases h
  rename_i sys₂ h₂
  obtain ⟨vm₂, rfl⟩ := readUser_keeps h₂
  unfold execvCopy at h
  cases hk : k.progname with
  | none =>
    rw [hk] at h
    cases h
  | some name =>
    simp only [hk] at h
    split at h
    · cases h
    rename_i sys₃ h₃
    obtain ⟨vm₃, rfl⟩ := readUser_keeps h₃
    split at h
    · cases h
    · rename_i r s₁ hin
      obtain ⟨rfl, rfl⟩ := ExecvOutcome.returns.inj h
      obtain ⟨hc, hsub, vm, hvm⟩ := copyinArgs_spec hin
      exact ⟨name, vm, s₁, rfl, hsub _ (List.mem_append_right _ (List.mem_cons_self ..)), hvm, Or.inl ⟨hc, rfl⟩⟩
    · rename_i s₁ hin
      obtain ⟨hc, hsub, vm, hvm⟩ := copyinArgs_spec hin
      exact ⟨name, vm, s₁, rfl, hsub _ (List.mem_append_right _ (List.mem_cons_self ..)), hvm, Or.inr ⟨hc, h⟩⟩

end

def ExecvOutcome.failure : ExecvOutcome → Option (Errno × ExecvSys)
  | .returns e s => some (e, s)
  | _ => none

theorem ExecvOutcome.returns_of_failure {o : ExecvOutcome} {α : Type} {f : ExecvSys → α} {x : α}
    (h : o.failure.map (fun r => (r.1, f r.2)) = some (e, x)) : ∃ s', o = .returns e s' ∧ f s' = x := by
  cases o with
  | returns e' s' =>
    simp only [failure, Option.map_some, Option.some.injEq, Prod.mk.injEq] at h
    exact ⟨s', by rw [h.1], h.2⟩
  | stops why => cases h
  | usermodeReturned => cases h

def execCaller : ExecvSys where
  sys := twoPages
  heap := [.space 0, .table 0]

def stackArgs (argv : List Nat) : UserArgs where
  progname := 0x7fff4000
  args := 0x7fff5000
  argv := argv
  str _ := { chars := [0x78], noNul := by decide }

def execRoom : ExecvMem where
  progname := some 8
  pointers := some 16
  arg i := some (24 + 8 * i)
  space := some (1, emptySegment)
  tables := [2, 3]
  resid _ := 0

end Os161
