import Os161.AddrspaceSound
import Os161.ChanceSound
import Os161.Lib.Outcome
import Os161.Spl

/-!
# The interrupt level is given back

A function is balanced if it leaves the interrupt level as it found it. The
parts between `splhigh` and `splx` are not; they restore the level they are
given. All functions of the VM code are balanced, but for the way out of
`vm_fault` that is taken without an address space.
-/

namespace Os161.Spl

open Proc Outcome

variable {α β : Type} {others : Nat → Vm → Vm} {p : SplM α} {q : α → SplM β} {c : Cpu} {spl : Int} {n : Nat}

/-! ## Balanced, and restoring a level -/

def Balanced (p : SplM α) : Prop :=
  ∀ c, wp p (fun _ c' => c'.curspl = c.curspl) (fun _ _ => False) (fun _ => True) c

def Restores (p : SplM α) (spl : Int) : Prop :=
  ∀ c, wp p (fun _ c' => c'.curspl = spl) (fun _ _ => False) (fun _ => True) c

theorem Balanced.pure (a : α) : Balanced (pure a : SplM α) := fun _ => rfl

theorem Balanced.crash (k : Crash) : Balanced (Proc.crash k : SplM α) := fun _ => trivial

theorem Balanced.bind (hp : Balanced p) (hq : ∀ a, Balanced (q a)) : Balanced (p >>= q) := by
  intro c
  refine wp.bind (hp c) (fun a c' hc => ?_) fun _ _ h => h
  rw [← hc]
  exact hq a c'

theorem Restores.crash (k : Crash) : Restores (Proc.crash k : SplM α) spl := fun _ => trivial

theorem Restores.splx (spl : Int) : Restores (splx spl) spl := fun _ => rfl

theorem Restores.bind (hp : Restores p spl) (hq : ∀ a, Balanced (q a)) : Restores (p >>= q) spl := by
  intro c
  refine wp.bind (hp c) (fun a c' hc => ?_) fun _ _ h => h
  rw [← hc]
  exact hq a c'

theorem wp_returns (p : SplM α) (c : Cpu) : wp p (fun _ _ => True) (fun _ _ => False) (fun _ => True) c := by
  unfold wp
  cases p c with
  | error k => trivial
  | ok r =>
    obtain ⟨r, c'⟩ := r
    cases r with
    | error e => exact e.elim
    | ok a => trivial

theorem Restores.after (p : SplM α) (hq : ∀ a, Restores (q a) spl) : Restores (p >>= q) spl := fun c =>
  wp.bind (wp_returns p c) (fun a c' _ => hq a c') fun _ _ h => h

theorem balanced_splhigh {q : Int → SplM β} (hq : ∀ spl, Restores (q spl) spl) : Balanced (splhigh >>= q) :=
  fun c => wp_bind.mpr (hq c.curspl { c with curspl := splHigh })

theorem balanced_getVm : Balanced getVm := fun _ => rfl

theorem balanced_onVm (f : Vm → Except Crash (α × Vm)) : Balanced (onVm f) := by
  intro c
  unfold wp onVm
  cases f c.vm with
  | error k => trivial
  | ok r => rfl

theorem balanced_runVm (f : Vm → Except Crash Vm) : Balanced (runVm f) := balanced_onVm _

theorem balanced_transfer (f : Vm → Except Crash Vm) : Balanced (transfer others f) :=
  .bind (fun _ => rfl) fun _ => .bind (balanced_runVm f) fun _ _ => rfl

theorem restores_splx {q : Int → SplM β} (hq : ∀ a, Balanced (q a)) : Restores (splx spl >>= q) spl :=
  (Restores.splx spl).bind hq

/-! ## The functions -/

theorem balanced_tlbAddEntry (v p : Nat) (dirty : Bool) : Balanced (tlbAddEntry v p dirty) :=
  balanced_splhigh fun _ => .after _ fun _ => restores_splx fun _ => .pure ()

theorem balanced_tlbContextSwitch : Balanced tlbContextSwitch :=
  balanced_splhigh fun _ => .after _ fun _ => restores_splx fun _ => .pure ()

theorem balanced_swapWrite (frame : Nat) : Balanced (swapWrite others frame) :=
  balanced_splhigh fun _ => .after _ fun pagenum => restores_splx fun _ =>
    .bind (balanced_transfer _) fun _ => .pure pagenum

theorem balanced_swapRead (frame : Nat) (n : Int) : Balanced (swapRead others frame n) :=
  .bind (balanced_transfer _) fun _ => .bind (balanced_runVm _) fun _ =>
    balanced_splhigh fun _ => restores_splx fun _ => .pure ()

theorem restores_cmFreeCore (i : Nat) (spl : Int) : Restores (cmFreeCore others i spl) spl := by
  refine .after _ fun _ => restores_splx fun _ => .bind balanced_getVm fun s => ?_
  cases (s.cm.coreDetails i).pd with
  | none => exact .crash _
  | some p =>
    dsimp only
    split
    · exact .bind (balanced_swapWrite _) fun n => balanced_runVm _
    · exact balanced_runVm _

theorem restores_takeFrame (i : Nat) (spl : Int) : Restores (takeFrame others i spl) spl :=
  (restores_cmFreeCore i spl).bind fun _ => .bind balanced_getVm fun _ => .pure _

def RestoresIfFound (p : SplM (Option Nat)) (spl : Int) : Prop :=
  ∀ c, wp p (fun r c' => r.isSome = true → c'.curspl = spl) (fun _ _ => False) (fun _ => True) c

theorem Restores.ifFound {p : SplM (Option Nat)} (hp : Restores p spl) : RestoresIfFound p spl := fun c =>
  (hp c).imp fun _ _ h _ => h

theorem RestoresIfFound.after (p : SplM α) {q : α → SplM (Option Nat)} (hq : ∀ a, RestoresIfFound (q a) spl) :
    RestoresIfFound (p >>= q) spl := fun c =>
  wp.bind (wp_returns p c) (fun a c' _ => hq a c') fun _ _ h => h

theorem pushUnused_restores (spl : Int) (n : Nat) : RestoresIfFound (pushUnused others spl n) spl := by
  induction n with
  | zero => exact fun _ => nofun
  | succ n ih =>
    refine .after _ fun s => ?_
    dsimp only
    split
    · cases (s.cm.coreDetails (clockToIndex s.cm s.cm.clockPointer)).pd with
      | none => exact (Restores.crash _).ifFound
      | some p =>
        dsimp only
        split
        · exact .after _ fun _ => ih
        · exact (restores_takeFrame _ spl).ifFound
    · exact .after _ fun _ => ih

theorem pushAny_restores (spl : Int) (n : Nat) : RestoresIfFound (pushAny others spl n) spl := by
  induction n with
  | zero => exact fun _ => nofun
  | succ n ih =>
    refine .after _ fun s => ?_
    dsimp only
    split
    · cases (s.cm.coreDetails (clockToIndex s.cm s.cm.clockPointer)).pd with
      | none => exact (Restores.crash _).ifFound
      | some p => exact (restores_takeFrame _ spl).ifFound
    · exact .after _ fun _ => ih

theorem RestoresIfFound.orElse {p : SplM (Option Nat)} {q : Option Nat → SplM Nat} (hp : RestoresIfFound p spl)
    (hsome : ∀ frame, Balanced (q (some frame))) (hnone : Restores (q none) spl) : Restores (p >>= q) spl := by
  intro c
  refine wp.bind (hp c) (fun r c' hc => ?_) fun _ _ h => h
  cases r with
  | some frame =>
    rw [← hc rfl]
    exact hsome frame c'
  | none => exact hnone c'

theorem balanced_cmPushToSwap : Balanced (cmPushToSwap others) := by
  refine balanced_splhigh fun spl => .after _ fun s => (pushUnused_restores spl _).orElse (fun frame => .pure frame) ?_
  refine .after _ fun s => (pushAny_restores spl _).orElse (fun frame => .pure frame) ?_
  exact restores_splx fun _ => .bind balanced_getVm fun s => .crash _

theorem balanced_cmGetppage : Balanced (cmGetppage others) := by
  refine balanced_splhigh fun spl => .after _ fun r => ?_
  cases r with
  | none => exact restores_splx fun _ => balanced_cmPushToSwap
  | some frame => exact restores_splx fun _ => .bind balanced_getVm fun _ => .pure _

theorem claimKframes_spl (l : List Nat) (spl : Int) (c : Cpu) :
    wp (claimKframes others l spl) (fun r _ => r = spl) (fun _ _ => False) (fun _ => True) c := by
  induction l generalizing c with
  | nil => rfl
  | cons i l ih =>
    unfold claimKframes
    refine wp.bind (wp_returns getVm c) (fun s c _ => ?_) fun _ _ h => h
    split
    · exact wp.bind (wp_returns _ c) (fun _ c _ => ih c) fun _ _ h => h
    · refine wp.bind (restores_cmFreeCore i spl c) (fun _ c hc => ?_) fun _ _ h => h
      -- `splhigh` returns the level that `cm_free_core` has restored
      rw [wp_bind]
      show wp (claimKframes others l c.curspl) _ _ _ _
      rw [hc]
      exact ih _

theorem balanced_cmRequestKframes (num : Nat) : Balanced (cmRequestKframes others num) := by
  refine .bind balanced_getVm fun s => ?_
  split
  · exact .crash _
  · refine balanced_splhigh fun spl => ?_
    cases findKframes s.cm num with
    | none => exact .crash _
    | some frame =>
      refine .after _ fun _ c => wp.bind (claimKframes_spl _ spl c) (fun r c hr => ?_) fun _ _ h => h
      rw [hr]
      exact restores_splx (fun _ => .pure _) c

theorem balanced_pageInFrame (p : PdPtr) : Balanced (pageInFrame others p) :=
  .bind (balanced_runVm _) fun _ => .bind balanced_cmGetppage fun _ => balanced_runVm _

theorem balanced_pageInMap (p : PdPtr) (vaddr : Nat) (seg : Segment) : Balanced (pageInMap p vaddr seg) :=
  .bind (balanced_onVm _) fun _ => .bind (balanced_tlbAddEntry _ _ _) fun _ => balanced_runVm _

theorem balanced_ptPageIn (file : List UInt8) (vaddr : Nat) (seg : Segment) (resid : Nat) :
    Balanced (ptPageIn others file vaddr seg resid) := by
  refine balanced_splhigh fun spl => .after _ fun s => ?_
  cases seg.pt with
  | none => exact .crash _
  | some pt =>
    dsimp only
    split
    · split
      · exact .after _ fun _ => .after _ fun _ => .after _ fun _ => restores_splx fun _ => .pure ()
      · split
        · exact restores_splx fun _ => .bind (balanced_pageInFrame _) fun _ => .bind (balanced_onVm _) fun _ =>
            .bind balanced_getVm fun _ => .bind (balanced_swapRead _ _) fun _ => .bind (balanced_runVm _) fun _ =>
              balanced_pageInMap _ _ _
        · exact restores_splx fun _ => .bind (balanced_pageInFrame _) fun _ => .bind (balanced_transfer _) fun _ =>
            balanced_pageInMap _ _ _
    · exact .crash _

theorem balanced_vmFault (as : AddrSpace) (file : List UInt8) (faulttype : FaultType) (faultaddress resid : Nat) :
    Balanced (vmFault others (some as) file faulttype faultaddress resid) := by
  refine balanced_splhigh fun spl => .after _ fun s => ?_
  cases faultSegment as faulttype (faultaddress &&& pageFrame) with
  | error why => exact .crash _
  | ok r =>
    cases r with
    | inl i => exact restores_splx fun _ => .bind (balanced_ptPageIn _ _ _ _) fun _ => .pure _
    | inr r =>
      cases r with
      | handled => exact .crash _
      | exit => exact .crash _
      | failed e => exact restores_splx fun _ => .pure _

def VmCall.NoSpace : VmCall → Prop
  | .vmFault none _ _ _ _ => True
  | _ => False

theorem VmCall.balanced (call : VmCall) (h : ¬ call.NoSpace) : Balanced (call.run others) := by
  cases call with
  | vmFault as file faulttype faultaddress resid =>
    cases as with
    | none => exact absurd trivial h
    | some as => exact .bind (balanced_vmFault _ _ _ _ _) fun _ => .pure ()
  | ptPageIn file vaddr seg resid => exact balanced_ptPageIn _ _ _ _
  | cmGetppage => exact .bind balanced_cmGetppage fun _ => .pure ()
  | cmPushToSwap => exact .bind balanced_cmPushToSwap fun _ => .pure ()
  | cmRequestKframes num => exact .bind (balanced_cmRequestKframes num) fun _ => .pure ()
  | swapWrite frame => exact .bind (balanced_swapWrite frame) fun _ => .pure ()
  | swapRead frame n => exact balanced_swapRead frame n
  | tlbAddEntry v p dirty => exact balanced_tlbAddEntry v p dirty
  | tlbContextSwitch => exact balanced_tlbContextSwitch

/-- Whatever the other threads do in between, from every interrupt level and
in every state, a call that returns has given the level back exactly if it is
not a `vm_fault` without an address space, or interrupts were off before. -/
theorem interrupt_level_balanced_iff (others : Nat → Vm → Vm) (call : VmCall) (c : Cpu) :
    (∀ r c', call.run others c = .ok (r, c') → c'.curspl = c.curspl) ↔ (call.NoSpace → c.curspl = splHigh) := by
  constructor
  · intro h hno
    cases call with
    | vmFault as file faulttype faultaddress resid =>
      cases as with
      | none => exact (h (.ok ()) { c with curspl := splHigh } rfl).symm
      | some as => exact hno.elim
    | _ => exact hno.elim
  · intro h r c' he
    by_cases hno : call.NoSpace
    · cases call with
      | vmFault as file faulttype faultaddress resid =>
        cases as with
        | none =>
          have hc : c' = { c with curspl := splHigh } := by
            have hrun : VmCall.run others (.vmFault none file faulttype faultaddress resid) c =
              .ok (.ok (), { c with curspl := splHigh }) := rfl
            rw [hrun] at he
            exact (Prod.mk.inj (Except.ok.inj he)).2.symm
          rw [hc]
          exact (h hno).symm
        | some as => exact hno.elim
      | _ => exact hno.elim
    · have hbal : Balanced (call.run others) := call.balanced hno
      have hb := hbal c
      unfold wp at hb
      rw [he] at hb
      cases r with
      | error e => exact e.elim
      | ok u => exact hb

theorem fault_without_space_leaves_interrupts_off :
    vmFault (fun _ s => s) none [] .read 0x400000 0 { vm := threeFrames none, curspl := 0, waits := 0 } =
      .ok (.ok (.failed .efault), { vm := threeFrames none, curspl := splHigh, waits := 0 }) ∧ splHigh ≠ 0 :=
  ⟨rfl, by decide⟩

end Os161.Spl
