import Os161.Pt

/-!
# Page-in with a device that fails

`pt_page_in` and `vm_fault` once more, with the result of the one `VOP_READ`
that a page-in makes, from the swap file or from the executable.
-/

namespace Os161

structure ReadFault where
  errno : Errno
  left : Page

def loadSegmentPageDev (dev : Option ReadFault) (file : List UInt8) (vaddr : Nat) (seg : Segment) (frame : Page)
    (resid : Nat) : Except Panic (Option Errno × Page) :=
  match dev with
  | none => loadSegmentPage file vaddr seg frame resid
  | some fault =>
    if u32 (vaddr + 2 ^ 32 - seg.vbase) < seg.pFilesz then .ok (some fault.errno, fault.left)
    else loadSegmentPage file vaddr seg frame resid

/-- `swap_read` drops the result of `VOP_READ`. -/
def pageInReadDev (dev : Option ReadFault) (s : Vm) (p : PdPtr) : Except Crash Vm :=
  match dev with
  | none => pageInRead s p
  | some fault => do
    let frame ← pdFrame s p
    .ok { s with mem := Function.update s.mem frame fault.left }

/-- `pt_page_in` drops the result of `load_segment_page`. -/
def pageInLoadDev (dev : Option ReadFault) (s : Vm) (p : PdPtr) (file : List UInt8) (vaddr : Nat) (seg : Segment)
    (resid : Nat) : Except Crash Vm := do
  let frame ← pdFrame s p
  let (_, data) ← raise s (loadSegmentPageDev dev file vaddr seg (s.mem frame) resid)
  .ok { s with mem := Function.update s.mem frame data }

def ptPageInDev (dev : Option ReadFault) (s : Vm) (file : List UInt8) (vaddr : Nat) (seg : Segment) (resid : Nat) :
    Except Crash Vm :=
  match seg.pt with
  | none => .error { why := .nullPointer, vm := s }
  | some pt =>
    let i := u32 (vaddr + 2 ^ 32 - seg.vbase) / pageSize
    if i < pt.size then
      let p : PdPtr := { block := pt.block, idx := i }
      if (s.pds p).valid = true ∧ (s.pds p).pfn ≠ -1 then pageInHit s p vaddr seg
      else if (s.pds p).sfn ≠ -1 then do
        let s ← pageInFrame s p
        let s ← pageInReadDev dev s p
        let s ← pageInRelease s p
        pageInMap s p vaddr seg
      else do
        let s ← pageInFrame s p
        let s ← pageInLoadDev dev s p file vaddr seg resid
        pageInMap s p vaddr seg
    else .error { why := .outOfBounds, vm := s }

def vmFaultDev (dev : Option ReadFault) (s : Vm) (as : Option AddrSpace) (file : List UInt8) (faulttype : FaultType)
    (faultaddress resid : Nat) : Except Crash (FaultResult × Vm) :=
  let faultaddress := faultaddress &&& pageFrame
  match as with
  | none => .ok (.failed .efault, s)
  | some as => do
    match ← raise s (faultSegment as faulttype faultaddress) with
    | .inr r => .ok (r, s)
    | .inl i =>
      let s ← ptPageInDev dev s file faultaddress (as.segments i) resid
      .ok (.handled, s)

theorem vmFaultDev_none (s : Vm) (as : Option AddrSpace) (file : List UInt8) (faulttype : FaultType)
    (faultaddress resid : Nat) : vmFaultDev none s as file faulttype faultaddress resid =
      vmFault s as file faulttype faultaddress resid := rfl

end Os161
