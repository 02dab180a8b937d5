import Os161.Vmsys

/-!
# Calls of the core map

Any sequence of the calls of `coremap.c` that hand out frames and take them
back. Beside the state, the frames `cm_getppage` has handed out and
`cm_finish_paging` has not been given are tracked, and the runs that
`cm_request_kframes` has granted.
-/

namespace Os161

inductive CmOp
  | getppage
  | finishPaging (frame : Nat) (p : PdPtr)
  | requestKframes (num : Nat)
  | releaseFrame (frame : Nat)
  | releaseKframes (frame : Nat)
  | other (pds : PdPtr → PageDetail) (mem : Nat → Page) (swap : Swap) (tlb : Tlb)

/-- The frames in flight came off the free list or were taken from a page;
a run is its first frame and its length. -/
structure CmRun where
  vm : Vm
  popped : List Nat
  taken : List Nat
  runs : List (Nat × Nat)

def cmStep (t : CmRun) : CmOp → Except Crash CmRun
  | .getppage => do
    let (frame, vm) ← cmGetppage t.vm
    if t.vm.cm.freeFrameList = none then .ok { t with vm := vm, taken := frame :: t.taken }
    else .ok { t with vm := vm, popped := frame :: t.popped }
  | .finishPaging frame p =>
    .ok { t with
      vm := cmFinishPaging t.vm frame p
      popped := t.popped.filter (· ≠ frame)
      taken := t.taken.filter (· ≠ frame) }
  | .requestKframes num => do
    let (kvaddr, vm) ← cmRequestKframes t.vm num
    .ok { t with vm := vm, runs := t.runs ++ [(kframe kvaddr, num)] }
  | .releaseFrame frame => do
    let c ← raise t.vm (cmReleaseFrame t.vm.cm frame)
    .ok { t with vm := { t.vm with cm := c } }
  | .releaseKframes frame => do
    let c ← raise t.vm (cmReleaseKframes t.vm.cm frame)
    .ok { t with vm := { t.vm with cm := c }, runs := t.runs.filter fun r => r.1 != frame }
  | .other pds mem swap tlb => .ok { t with vm := { t.vm with pds := pds, mem := mem, swap := swap, tlb := tlb } }

def Cm.paged (c : Cm) (frame : Nat) : Prop :=
  (c.lowestFrame ≤ frame ∧ frame < c.size) ∧ (c.coreDetails frame).free = false ∧ (c.coreDetails frame).kern = 0 ∧
    (c.coreDetails frame).pd ≠ none

/-- `cm_finish_paging` is for frames in flight, `cm_release_frame` for frames
with a page, and `cm_release_kframes` for runs that were granted. -/
def CmOp.callable (t : CmRun) : CmOp → Prop
  | .getppage => True
  | .finishPaging frame _ => frame ∈ t.popped ∨ frame ∈ t.taken
  | .requestKframes num => 1 ≤ num
  | .releaseFrame frame => t.vm.cm.paged frame
  | .releaseKframes frame => ∃ r ∈ t.runs, r.1 = frame
  | .other .. => True

instance CmOp.decidableCallable (t : CmRun) (op : CmOp) : Decidable (op.callable t) :=
  match op with
  | .getppage => inferInstanceAs (Decidable True)
  | .finishPaging frame _ => inferInstanceAs (Decidable (frame ∈ t.popped ∨ frame ∈ t.taken))
  | .requestKframes num => inferInstanceAs (Decidable (1 ≤ num))
  | .releaseFrame frame => inferInstanceAs (Decidable ((_ ∧ _) ∧ _ ∧ _ ∧ (t.vm.cm.coreDetails frame).pd ≠ none))
  | .releaseKframes frame => inferInstanceAs (Decidable (∃ r ∈ t.runs, r.1 = frame))
  | .other .. => inferInstanceAs (Decidable True)

end Os161
