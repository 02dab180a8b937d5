import Os161.Swapfile
import Os161.Tlb

/-!
# The state of the virtual memory system

The core map (`coremap.h`), the page details of all page tables (`pt.h`),
the physical frames, the swap file and the TLB. A `struct cm_detail *` is
the index of its frame; a `struct page_detail *` is a block of page details
and an index in it.
-/

namespace Os161

structure PdPtr where
  block : Nat
  idx : Nat
  deriving DecidableEq, Repr

/-- `pfn` is -1 for no frame. `sfn` is -1 for no slot and -2 while the page
is being written out. -/
structure PageDetail where
  vaddr : Nat
  pfn : Int
  sfn : Int
  valid : Bool
  dirty : Bool
  use : Bool
  deriving DecidableEq, Repr

structure CmDetail where
  id : Nat
  kern : Nat
  pd : Option PdPtr
  nextFree : Option Nat
  prevFree : Option Nat
  free : Bool
  deriving DecidableEq, Repr

structure Cm where
  init : Bool
  size : Nat
  clockPointer : Nat
  lowestFrame : Nat
  coreDetails : Nat → CmDetail
  freeFrameList : Option Nat
  lastFree : Option Nat

def Cm.modify (c : Cm) (i : Nat) (g : CmDetail → CmDetail) : Cm :=
  { c with coreDetails := Function.update c.coreDetails i (g (c.coreDetails i)) }

structure Vm where
  cm : Cm
  pds : PdPtr → PageDetail
  mem : Nat → Page
  swap : Swap
  tlb : Tlb

def Vm.modifyPd (s : Vm) (p : PdPtr) (g : PageDetail → PageDetail) : Vm :=
  { s with pds := Function.update s.pds p (g (s.pds p)) }

structure Crash where
  why : Panic
  vm : Vm

def raise {α : Type} (s : Vm) : Except Panic α → Except Crash α
  | .ok a => .ok a
  | .error why => .error { why, vm := s }

/-! ## Reading an updated state -/

section
variable (c : Cm) (i j : Nat) (g : CmDetail → CmDetail)

theorem Cm.modify_coreDetails :
    (c.modify i g).coreDetails j = if j = i then g (c.coreDetails i) else c.coreDetails j := by
  simp only [Cm.modify, Function.update_apply]

@[simp] theorem Cm.modify_self : (c.modify i g).coreDetails i = g (c.coreDetails i) := by
  simp [Cm.modify]

theorem Cm.modify_of_ne {c : Cm} {i j : Nat} {g : CmDetail → CmDetail} (h : j ≠ i) :
    (c.modify i g).coreDetails j = c.coreDetails j := by
  simp [Cm.modify, h]

@[simp] theorem Cm.modify_init : (c.modify i g).init = c.init := rfl

@[simp] theorem Cm.modify_size : (c.modify i g).size = c.size := rfl

@[simp] theorem Cm.modify_clockPointer : (c.modify i g).clockPointer = c.clockPointer := rfl

@[simp] theorem Cm.modify_lowestFrame : (c.modify i g).lowestFrame = c.lowestFrame := rfl

@[simp] theorem Cm.modify_freeFrameList : (c.modify i g).freeFrameList = c.freeFrameList := rfl

@[simp] theorem Cm.modify_lastFree : (c.modify i g).lastFree = c.lastFree := rfl

end

section
variable (s : Vm) (p q : PdPtr) (g : PageDetail → PageDetail)

theorem Vm.modifyPd_pds : (s.modifyPd p g).pds q = if q = p then g (s.pds p) else s.pds q := by
  simp only [Vm.modifyPd, Function.update_apply]

@[simp] theorem Vm.modifyPd_self : (s.modifyPd p g).pds p = g (s.pds p) := by
  simp [Vm.modifyPd]

theorem Vm.modifyPd_of_ne {s : Vm} {p q : PdPtr} {g : PageDetail → PageDetail} (h : q ≠ p) :
    (s.modifyPd p g).pds q = s.pds q := by
  simp [Vm.modifyPd, h]

@[simp] theorem Vm.modifyPd_cm : (s.modifyPd p g).cm = s.cm := rfl

@[simp] theorem Vm.modifyPd_mem : (s.modifyPd p g).mem = s.mem := rfl

@[simp] theorem Vm.modifyPd_swap : (s.modifyPd p g).swap = s.swap := rfl

@[simp] theorem Vm.modifyPd_tlb : (s.modifyPd p g).tlb = s.tlb := rfl

end

@[simp] theorem raise_ok {α : Type} (s : Vm) (a : α) : raise s (.ok a) = .ok a := rfl

@[simp] theorem raise_error {α : Type} (s : Vm) (why : Panic) :
    raise s (.error why : Except Panic α) = .error { why, vm := s } := rfl

end Os161
