import Os161.Vmstate

/-!
# The core map

`coremap.c`. Frames below `lowestFrame` belong to the kernel image and are
never looked at. The functions that only touch the free list act on `Cm`,
those that also move pages act on `Vm`.
-/

namespace Os161

/-! ## Start-up -/

/-- `size` and `lowest` come from `mips_ramsize` and `ram_getsize`; `core` is
what the memory for `core_details` held before. -/
def cmBootstrap (size lowest : Nat) (core : Nat → CmDetail) : Cm :=
  { init := true
    size := size
    clockPointer := 0
    lowestFrame := lowest
    coreDetails := fun i =>
      if lowest ≤ i ∧ i < size then
        { id := i
          kern := 0
          pd := none
          nextFree := if i = lowest then none else some (i - 1)
          prevFree := if i = size - 1 then none else some (i + 1)
          free := true }
      else core i
    freeFrameList := some (size - 1)
    lastFree := some lowest }

/-! ## The free list -/

def freeFrameListAdd (c : Cm) (new : Nat) : Cm :=
  let c :=
    match c.freeFrameList with
    | none =>
      let c := { c with freeFrameList := some new, lastFree := some new }
      c.modify new fun d => { d with nextFree := none, prevFree := none }
    | some head =>
      let c := c.modify new fun d => { d with nextFree := some head, prevFree := none }
      let c := c.modify head fun d => { d with prevFree := some new }
      { c with freeFrameList := some new }
  c.modify new fun d => { d with free := true, kern := 0 }

def freeFrameListAddBack (c : Cm) (new : Nat) : Cm :=
  let c :=
    match c.lastFree with
    | none =>
      let c := { c with freeFrameList := some new, lastFree := some new }
      c.modify new fun d => { d with nextFree := none, prevFree := none }
    | some last =>
      let c := c.modify new fun d => { d with prevFree := some last, nextFree := none }
      let c := c.modify last fun d => { d with nextFree := some new }
      { c with lastFree := some new }
  c.modify new fun d => { d with free := true, kern := 0 }

def freeFrameListPop (c : Cm) : Option Nat × Cm :=
  match c.freeFrameList with
  | none => (none, c)
  | some retval =>
    let c := { c with freeFrameList := (c.coreDetails retval).nextFree }
    let c :=
      match c.freeFrameList with
      | none => { c with lastFree := none }
      | some head => c.modify head fun d => { d with prevFree := none }
    (some retval, c.modify retval fun d => { d with kern := 1, free := false })

def unlinkFrame (c : Cm) (i : Nat) : Except Panic Cm :=
  match c.freeFrameList, c.lastFree with
  | some head, some last =>
    if head = last then
      if head = i then .ok { c with freeFrameList := none, lastFree := none }
      else .error (.assertionFailed .onlyFrameIsTheOneRemoved)
    else if head = i then
      match (c.coreDetails head).nextFree with
      | none => .error .nullPointer
      | some next => .ok (({ c with freeFrameList := some next } : Cm).modify next fun d => { d with prevFree := none })
    else if last = i then
      match (c.coreDetails last).prevFree with
      | none => .error .nullPointer
      | some prev => .ok (({ c with lastFree := some prev } : Cm).modify prev fun d => { d with nextFree := none })
    else
      match (c.coreDetails i).prevFree, (c.coreDetails i).nextFree with
      | some prev, some next =>
        let c := c.modify prev fun d => { d with nextFree := some next }
        .ok (c.modify next fun d => { d with prevFree := (c.coreDetails i).prevFree })
      | _, _ => .error .nullPointer
  | _, _ => .error (.assertionFailed .freeListNotEmpty)

def freeFrameListRemove (c : Cm) (i : Nat) : Except Panic Cm := do
  let c ← unlinkFrame c i
  .ok (c.modify i fun d => { d with free := false, kern := 1 })

/-! ## Eviction -/

def freeCoreBegin (s : Vm) (i : Nat) : Except Crash Vm :=
  match (s.cm.coreDetails i).pd with
  | none => .error { why := .nullPointer, vm := s }
  | some p => do
    let tlb ← raise s (tlbInvalidateVaddr s.tlb (s.pds p).vaddr)
    .ok (({ s with tlb := tlb } : Vm).modifyPd p fun d => { d with valid := false, use := false, sfn := -2 })

def freeCoreEnd (s : Vm) (i : Nat) (sfn : Int) : Except Crash Vm :=
  match (s.cm.coreDetails i).pd with
  | none => .error { why := .nullPointer, vm := s }
  | some p =>
    let s := s.modifyPd p fun d => { d with sfn := sfn, pfn := -1 }
    .ok { s with cm := s.cm.modify i fun d => { d with pd := none, nextFree := none } }

def cmFreeCore (s : Vm) (i : Nat) : Except Crash Vm := do
  let s ← freeCoreBegin s i
  match (s.cm.coreDetails i).pd with
  | none => .error { why := .nullPointer, vm := s }
  | some p =>
    if (s.pds p).dirty then
      let (n, swap) ← raise s (swapWrite s.swap (s.mem (s.cm.coreDetails i).id))
      freeCoreEnd { s with swap := swap } i n
    else freeCoreEnd s i (-1)

def clockToIndex (c : Cm) (clock : Nat) : Nat := clock + c.lowestFrame

def advanceClock (c : Cm) : Cm :=
  { c with clockPointer := (c.clockPointer + 1) % (c.size - c.lowestFrame) }

def pushUnused : Nat → Vm → Except Crash (Option Nat × Vm)
  | 0, s => .ok (none, s)
  | n + 1, s =>
    let i := clockToIndex s.cm s.cm.clockPointer
    let cd := s.cm.coreDetails i
    if cd.kern = 0 then
      match cd.pd with
      | none => .error { why := .freeFramesNotInFreeList, vm := s }
      | some p =>
        if (s.pds p).use then do
          let s := s.modifyPd p fun d => { d with use := false }
          let tlb ← raise s (tlbInvalidateVaddr s.tlb (s.pds p).vaddr)
          pushUnused n { s with tlb := tlb, cm := advanceClock s.cm }
        else do
          let s ← cmFreeCore s i
          .ok (some (s.cm.coreDetails i).id, s)
    else pushUnused n { s with cm := advanceClock s.cm }

def pushAny : Nat → Vm → Except Crash (Option Nat × Vm)
  | 0, s => .ok (none, s)
  | n + 1, s =>
    let i := clockToIndex s.cm s.cm.clockPointer
    let cd := s.cm.coreDetails i
    if cd.kern = 0 then
      match cd.pd with
      | none => .error { why := .freeFramesNotInFreeList, vm := s }
      | some _ => do
        let s ← cmFreeCore s i
        .ok (some (s.cm.coreDetails i).id, s)
    else pushAny n { s with cm := advanceClock s.cm }

def cmPushToSwap (s : Vm) : Except Crash (Nat × Vm) := do
  match ← pushUnused (s.cm.size - s.cm.lowestFrame) s with
  | (some frame, s) => .ok (frame, s)
  | (none, s) =>
    match ← pushAny (s.cm.size - s.cm.lowestFrame) s with
    | (some frame, s) => .ok (frame, s)
    | (none, s) => .error { why := .tooManyKernelPages, vm := s }

def cmGetppage (s : Vm) : Except Crash (Nat × Vm) :=
  match freeFrameListPop s.cm with
  | (some frame, c) => .ok ((c.coreDetails frame).id, { s with cm := c })
  | (none, _) => cmPushToSwap s

def cmFinishPaging (s : Vm) (frame : Nat) (p : PdPtr) : Vm :=
  let s := s.modifyPd p fun d => { d with pfn := frame, valid := true }
  { s with cm := s.cm.modify frame fun d => { d with pd := some p, free := false, kern := 0 } }

/-! ## Kernel frames -/

def findKframes (c : Cm) (num : Nat) : Option Nat :=
  (List.range' c.lowestFrame (c.size + 1 - num - c.lowestFrame)).find? fun i =>
    (List.range num).all fun j => (c.coreDetails (i + j)).kern == 0

def markKframes (c : Cm) (frame num : Nat) : Cm :=
  let c := (List.range' frame num).foldl (fun c i => c.modify i fun d => { d with kern := 1 }) c
  c.modify frame fun d => { d with kern := num }

def claimKframes : List Nat → Vm → Except Crash Vm
  | [], s => .ok s
  | i :: l, s => do
    let s ←
      if (s.cm.coreDetails i).free then do
        let c ← raise s (freeFrameListRemove s.cm i)
        .ok { s with cm := c }
      else cmFreeCore s i
    claimKframes l s

def cmRequestKframes (s : Vm) (num : Nat) : Except Crash (Nat × Vm) :=
  if s.cm.init = false then .error { why := .assertionFailed .coreMapIsInit, vm := s }
  else
    match findKframes s.cm num with
    | none => .error { why := .noSpaceForKernelPages num, vm := s }
    | some frame => do
      let s := { s with cm := markKframes s.cm frame num }
      let s ← claimKframes (List.range' frame num) s
      .ok (paddrToKvaddr (frame * pageSize), s)

def cmReleaseFrame (c : Cm) (frame : Nat) : Except Panic Cm :=
  if c.lowestFrame ≤ frame then .ok (freeFrameListAdd c frame)
  else .error (.assertionFailed .frameNotBelowLowest)

def releaseKframes (frame : Nat) : List Nat → Cm → Except Panic Cm
  | [], c => .ok c
  | i :: l, c =>
    if (c.coreDetails i).kern = 0 then .error (.assertionFailed .frameIsKernelOwned)
    else if frame < c.lowestFrame then .error (.assertionFailed .frameNotBelowLowest)
    else releaseKframes frame l (freeFrameListAddBack c i)

def cmReleaseKframes (c : Cm) (frame : Nat) : Except Panic Cm :=
  let num := (c.coreDetails frame).kern
  if num = 0 then .error (.assertionFailed .frameIsKernelOwned)
  else releaseKframes frame (List.range' frame num) c

end Os161
