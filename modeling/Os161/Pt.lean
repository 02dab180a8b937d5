import Os161.Coremap
import Os161.Loadelf

/-!
# Faults and page-in

`pt_page_in` of `pt.c`, cut where other threads can run, and `vm_fault`. The
code reads `pd->pfn` again at each use, and so does the model (`pdFrame`).
-/

namespace Os161

def pdFrame (s : Vm) (p : PdPtr) : Except Crash Nat :=
  if 0 ≤ (s.pds p).pfn then .ok (s.pds p).pfn.toNat else .error { why := .outOfBounds, vm := s }

def pageInFrame (s : Vm) (p : PdPtr) : Except Crash Vm := do
  let s := s.modifyPd p fun d => { d with use := true }
  let (frame, s) ← cmGetppage s
  .ok (s.modifyPd p fun d => { d with pfn := frame })

def pageInRead (s : Vm) (p : PdPtr) : Except Crash Vm := do
  let frame ← pdFrame s p
  let data ← raise s (swapReadPage s.swap (s.pds p).sfn)
  .ok { s with mem := Function.update s.mem frame data }

def pageInRelease (s : Vm) (p : PdPtr) : Except Crash Vm := do
  let swap ← raise s (swapPush s.swap (s.pds p).sfn)
  .ok (({ s with swap := swap } : Vm).modifyPd p fun d => { d with sfn := -1 })

def pageInLoad (s : Vm) (p : PdPtr) (file : List UInt8) (vaddr : Nat) (seg : Segment) (resid : Nat) :
    Except Crash Vm := do
  let frame ← pdFrame s p
  -- the error code is dropped
  let (_, data) ← raise s (loadSegmentPage file vaddr seg (s.mem frame) resid)
  .ok { s with mem := Function.update s.mem frame data }

def pageInMap (s : Vm) (p : PdPtr) (vaddr : Nat) (seg : Segment) : Except Crash Vm := do
  let frame ← pdFrame s p
  let tlb ← raise s (tlbAddEntry s.tlb vaddr (frame * pageSize) (seg.writeable != 0))
  .ok (cmFinishPaging { s with tlb := tlb } frame p)

def pageInHit (s : Vm) (p : PdPtr) (vaddr : Nat) (seg : Segment) : Except Crash Vm := do
  let s := s.modifyPd p fun d => { d with use := true }
  let frame ← pdFrame s p
  let tlb ← raise s (tlbAddEntry s.tlb vaddr (frame * pageSize) (seg.writeable != 0))
  .ok { s with tlb := tlb }

def ptPageIn (s : Vm) (file : List UInt8) (vaddr : Nat) (seg : Segment) (resid : Nat) : Except Crash Vm :=
  match seg.pt with
  | none => .error { why := .nullPointer, vm := s }
  | some pt =>
    let i := u32 (vaddr + 2 ^ 32 - seg.vbase) / pageSize
    if i < pt.size then
      let p : PdPtr := { block := pt.block, idx := i }
      if (s.pds p).valid = true ∧ (s.pds p).pfn ≠ -1 then pageInHit s p vaddr seg
      else if (s.pds p).sfn ≠ -1 then do
        let s ← pageInFrame s p
        let s ← pageInRead s p
        let s ← pageInRelease s p
        pageInMap s p vaddr seg
      else do
        let s ← pageInFrame s p
        let s ← pageInLoad s p file vaddr seg resid
        pageInMap s p vaddr seg
    else .error { why := .outOfBounds, vm := s }

/-! ## Faults -/

inductive FaultType
  | read
  | write
  | readonly
  | other
  deriving DecidableEq, Repr

inductive FaultResult
  | handled
  | exit
  | failed (e : Errno)
  deriving DecidableEq, Repr

/-- What `vm_fault` decides before it pages anything in: the segment to use,
or how it returns without one. -/
def faultSegment (as : AddrSpace) (faulttype : FaultType) (faultaddress : Nat) :
    Except Panic (Nat ⊕ FaultResult) :=
  let lookup : Except Panic (Nat ⊕ FaultResult) :=
    match asGetSegment as faultaddress with
    | none => .error (.assertionFailed .faultHasSegment)
    | some i => .ok (.inl i)
  match faulttype with
  | .readonly => .ok (.inr .exit)
  | .write => if asValidWriteAddr as faultaddress then lookup else .ok (.inr .exit)
  | .read => if asValidReadAddr as faultaddress then lookup else .ok (.inr .exit)
  | .other => .ok (.inr (.failed .einval))

def vmFault (s : Vm) (as : Option AddrSpace) (file : List UInt8) (faulttype : FaultType) (faultaddress : Nat)
    (resid : Nat) : Except Crash (FaultResult × Vm) :=
  let faultaddress := faultaddress &&& pageFrame
  match as with
  | none => .ok (.failed .efault, s)
  | some as => do
    match ← raise s (faultSegment as faulttype faultaddress) with
    | .inr r => .ok (r, s)
    | .inl i =>
      let s ← ptPageIn s file faultaddress (as.segments i) resid
      .ok (.handled, s)

end Os161
