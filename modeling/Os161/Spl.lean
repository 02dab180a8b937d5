import Os161.Lib.Proc
import Os161.Pt

/-!
# The virtual memory code with its interrupt level

The same functions with their calls of `splhigh` and `splx` (`spl.c`). A
thread that waits for a device gives way to others: `others k` is what they do
to the VM state during its `k`-th wait. Each thread gets its own `curspl` back.
-/

namespace Os161.Spl

structure Cpu where
  vm : Vm
  curspl : Int
  waits : Nat

abbrev SplM := Proc Cpu Empty Crash

def splHigh : Int := 15

def splx (newspl : Int) : SplM Int := do
  let c ← Proc.get
  Proc.modify fun c => { c with curspl := newspl }
  pure c.curspl

def splhigh : SplM Int := splx splHigh

def getVm : SplM Vm := do
  let c ← Proc.get
  pure c.vm

def onVm {α : Type} (f : Vm → Except Crash (α × Vm)) : SplM α := fun c =>
  match f c.vm with
  | .ok (a, vm) => .ok (.ok a, { c with vm := vm })
  | .error k => .error k

def runVm (f : Vm → Except Crash Vm) : SplM Unit := onVm fun s => do
  let s ← f s
  .ok ((), s)

/-! ## The TLB -/

def tlbAddEntry (v p : Nat) (dirty : Bool) : SplM Unit := do
  let spl ← splhigh
  runVm fun s => do
    let tlb ← raise s (Os161.tlbAddEntry s.tlb v p dirty)
    .ok { s with tlb := tlb }
  let _ ← splx spl

def tlbContextSwitch : SplM Unit := do
  let spl ← splhigh
  runVm fun s => .ok { s with tlb := Os161.tlbContextSwitch s.tlb }
  let _ ← splx spl

/-! ## The free list -/

def freeFrameListPop : SplM (Option Nat) := do
  let spl ← splhigh
  let frame ← onVm fun s =>
    let (frame, c) := Os161.freeFrameListPop s.cm
    .ok (frame, { s with cm := c })
  let _ ← splx spl
  pure frame

def freeFrameListRemove (i : Nat) : SplM Unit := do
  let spl ← splhigh
  runVm fun s => do
    let c ← raise s (Os161.freeFrameListRemove s.cm i)
    .ok { s with cm := c }
  let _ ← splx spl

section
variable (others : Nat → Vm → Vm)

def wait : SplM Unit := Proc.modify fun c => { c with vm := others c.waits c.vm, waits := c.waits + 1 }

def transfer (f : Vm → Except Crash Vm) : SplM Unit := do
  wait others
  runVm f
  wait others

/-! ## The swap file -/

def swapWrite (physFrameNum : Nat) : SplM Nat := do
  let spl ← splhigh
  let pagenum ← onVm fun s => do
    let (pagenum, swap) ← raise s (swapTake s.swap)
    .ok (pagenum, { s with swap := swap })
  let _ ← splx spl
  transfer others fun s => .ok { s with swap := swapWritePage s.swap (s.mem physFrameNum) pagenum }
  pure pagenum

def swapRead (physFrameNum : Nat) (n : Int) : SplM Unit := do
  transfer others fun s => do
    let data ← raise s (swapReadPage s.swap n)
    .ok { s with mem := Function.update s.mem physFrameNum data }
  runVm fun s => do
    let swap ← raise s (swapPush s.swap n)
    .ok { s with swap := swap }
  let spl ← splhigh
  let _ ← splx spl

/-! ## The core map -/

/-- Restores the interrupt level on behalf of its caller. -/
def cmFreeCore (i : Nat) (spl : Int) : SplM Unit := do
  runVm fun s => freeCoreBegin s i
  let _ ← splx spl
  let s ← getVm
  match (s.cm.coreDetails i).pd with
  | none => Proc.crash { why := .nullPointer, vm := s }
  | some p =>
    if (s.pds p).dirty then
      let n ← swapWrite others (s.cm.coreDetails i).id
      runVm fun s => freeCoreEnd s i n
    else runVm fun s => freeCoreEnd s i (-1)

def takeFrame (i : Nat) (spl : Int) : SplM (Option Nat) := do
  cmFreeCore others i spl
  let s ← getVm
  pure (some (s.cm.coreDetails i).id)

def pushUnused (spl : Int) : Nat → SplM (Option Nat)
  | 0 => pure none
  | n + 1 => do
    let s ← getVm
    let i := clockToIndex s.cm s.cm.clockPointer
    let cd := s.cm.coreDetails i
    if cd.kern = 0 then
      match cd.pd with
      | none => Proc.crash { why := .freeFramesNotInFreeList, vm := s }
      | some p =>
        if (s.pds p).use then
          runVm fun s => do
            let s := s.modifyPd p fun d => { d with use := false }
            let tlb ← raise s (tlbInvalidateVaddr s.tlb (s.pds p).vaddr)
            .ok { s with tlb := tlb, cm := advanceClock s.cm }
          pushUnused spl n
        else takeFrame others i spl
    else
      runVm fun s => .ok { s with cm := advanceClock s.cm }
      pushUnused spl n

def pushAny (spl : Int) : Nat → SplM (Option Nat)
  | 0 => pure none
  | n + 1 => do
    let s ← getVm
    let i := clockToIndex s.cm s.cm.clockPointer
    let cd := s.cm.coreDetails i
    if cd.kern = 0 then
      match cd.pd with
      | none => Proc.crash { why := .freeFramesNotInFreeList, vm := s }
      | some _ => takeFrame others i spl
    else
      runVm fun s => .ok { s with cm := advanceClock s.cm }
      pushAny spl n

def cmPushToSwap : SplM Nat := do
  let spl ← splhigh
  let s ← getVm
  match ← pushUnused others spl (s.cm.size - s.cm.lowestFrame) with
  | some frame => pure frame
  | none =>
    let s ← getVm
    match ← pushAny others spl (s.cm.size - s.cm.lowestFrame) with
    | some frame => pure frame
    | none =>
      let _ ← splx spl
      let s ← getVm
      Proc.crash { why := .tooManyKernelPages, vm := s }

def cmGetppage : SplM Nat := do
  let spl ← splhigh
  match ← freeFrameListPop with
  | none =>
    let _ ← splx spl
    cmPushToSwap others
  | some frame =>
    let _ ← splx spl
    let s ← getVm
    pure (s.cm.coreDetails frame).id

def claimKframes : List Nat → Int → SplM Int
  | [], spl => pure spl
  | i :: l, spl => do
    let s ← getVm
    if (s.cm.coreDetails i).free then
      freeFrameListRemove i
      claimKframes l spl
    else
      cmFreeCore others i spl
      let spl ← splhigh
      claimKframes l spl

def cmRequestKframes (num : Nat) : SplM Nat := do
  let s ← getVm
  if s.cm.init = false then Proc.crash { why := .assertionFailed .coreMapIsInit, vm := s }
  else
    let spl ← splhigh
    match findKframes s.cm num with
    | none => Proc.crash { why := .noSpaceForKernelPages num, vm := s }
    | some frame =>
      runVm fun s => .ok { s with cm := markKframes s.cm frame num }
      let spl ← claimKframes others (List.range' frame num) spl
      let _ ← splx spl
      pure (paddrToKvaddr (frame * pageSize))

/-! ## Faults -/

def pageInFrame (p : PdPtr) : SplM Unit := do
  runVm fun s => .ok (s.modifyPd p fun d => { d with use := true })
  let frame ← cmGetppage others
  runVm fun s => .ok (s.modifyPd p fun d => { d with pfn := frame })

def pdFrame (p : PdPtr) : SplM Nat := onVm fun s => do
  let frame ← Os161.pdFrame s p
  .ok (frame, s)

def pageInMap (p : PdPtr) (vaddr : Nat) (seg : Segment) : SplM Unit := do
  let frame ← pdFrame p
  tlbAddEntry vaddr (frame * pageSize) (seg.writeable != 0)
  runVm fun s => .ok (cmFinishPaging s frame p)

def ptPageIn (file : List UInt8) (vaddr : Nat) (seg : Segment) (resid : Nat) : SplM Unit := do
  let spl ← splhigh
  let s ← getVm
  match seg.pt with
  | none => Proc.crash { why := .nullPointer, vm := s }
  | some pt =>
    let i := u32 (vaddr + 2 ^ 32 - seg.vbase) / pageSize
    if i < pt.size then
      let p : PdPtr := { block := pt.block, idx := i }
      if (s.pds p).valid = true ∧ (s.pds p).pfn ≠ -1 then
        runVm fun s => .ok (s.modifyPd p fun d => { d with use := true })
        let frame ← pdFrame p
        tlbAddEntry vaddr (frame * pageSize) (seg.writeable != 0)
        let _ ← splx spl
      else if (s.pds p).sfn ≠ -1 then
        let _ ← splx spl
        pageInFrame others p
        let frame ← pdFrame p
        let s ← getVm
        swapRead others frame (s.pds p).sfn
        runVm fun s => .ok (s.modifyPd p fun d => { d with sfn := -1 })
        pageInMap p vaddr seg
      else
        let _ ← splx spl
        pageInFrame others p
        transfer others fun s => pageInLoad s p file vaddr seg resid
        pageInMap p vaddr seg
    else Proc.crash { why := .outOfBounds, vm := s }

/-- `thread_exit` does not return. -/
def vmFault (as : Option AddrSpace) (file : List UInt8) (faulttype : FaultType) (faultaddress resid : Nat) :
    SplM FaultResult := do
  let spl ← splhigh
  let faultaddress := faultaddress &&& pageFrame
  match as with
  | none => pure (.failed .efault)
  | some as =>
    let s ← getVm
    match faultSegment as faulttype faultaddress with
    | .error why => Proc.crash { why, vm := s }
    | .ok (.inr (.failed e)) =>
      let _ ← splx spl
      pure (.failed e)
    | .ok (.inr _) => Proc.crash { why := .threadExit, vm := s }
    | .ok (.inl i) =>
      let _ ← splx spl
      ptPageIn others file faultaddress (as.segments i) resid
      pure .handled

end

inductive VmCall
  | vmFault (as : Option AddrSpace) (file : List UInt8) (faulttype : FaultType) (faultaddress resid : Nat)
  | ptPageIn (file : List UInt8) (vaddr : Nat) (seg : Segment) (resid : Nat)
  | cmGetppage
  | cmPushToSwap
  | cmRequestKframes (num : Nat)
  | swapWrite (physFrameNum : Nat)
  | swapRead (physFrameNum : Nat) (n : Int)
  | tlbAddEntry (v p : Nat) (dirty : Bool)
  | tlbContextSwitch

def VmCall.run (others : Nat → Vm → Vm) : VmCall → SplM Unit
  | .vmFault as file faulttype faultaddress resid => do
    let _ ← Spl.vmFault others as file faulttype faultaddress resid
  | .ptPageIn file vaddr seg resid => Spl.ptPageIn others file vaddr seg resid
  | .cmGetppage => do
    let _ ← Spl.cmGetppage others
  | .cmPushToSwap => do
    let _ ← Spl.cmPushToSwap others
  | .cmRequestKframes num => do
    let _ ← Spl.cmRequestKframes others num
  | .swapWrite physFrameNum => do
    let _ ← Spl.swapWrite others physFrameNum
  | .swapRead physFrameNum n => Spl.swapRead others physFrameNum n
  | .tlbAddEntry v p dirty => Spl.tlbAddEntry v p dirty
  | .tlbContextSwitch => Spl.tlbContextSwitch

end Os161.Spl
