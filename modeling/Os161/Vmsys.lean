import Os161.Pt

/-!
# The virtual memory system as a whole

Address spaces over the machine state: creation, activation, faults, fork,
teardown, and kernel pages. `step` runs one operation to completion.
-/

namespace Os161

structure Vnode where
  data : List UInt8
  opencount : Nat

/-- `spaces` maps the address of a `struct addrspace` to its contents,
`curAs` is `curthread->t_vmspace`. The last two fields are history: the
kernel runs granted and not yet released, and whether the space recorded in
`last_addrspace` has been destroyed since. -/
structure Sys where
  vm : Vm
  vnodes : Nat → Vnode
  spaces : Nat → Option AddrSpace
  curAs : Option Nat
  lastAddrspace : Option Nat
  granted : List (Nat × Nat)
  lastGone : Bool

/-- The size of physical memory and its first frame past the kernel image, as
`ram_bootstrap` finds them, and what memory held before. -/
structure Boot where
  size : Nat
  lowest : Nat
  core : Nat → CmDetail
  pds : PdPtr → PageDetail
  mem : Nat → Page
  swap : Swap
  nodeId : Nat → Nat
  nodeNext : Nat → Option Nat
  vnodes : Nat → Vnode
  room : lowest < size
  ram : size ≤ 2 ^ 20

/-- The state after `boot`. The kernel pages taken in the meantime are taken
from here on: with no user page there is nothing they could move. -/
def boot (m : Boot) : Sys where
  vm := {
    cm := cmBootstrap m.size m.lowest m.core
    pds := m.pds
    mem := m.mem
    swap := swapBootstrap m.swap
    tlb := tlbBootstrap m.nodeId m.nodeNext }
  vnodes := m.vnodes
  spaces _ := none
  curAs := none
  lastAddrspace := none
  granted := []
  lastGone := false

/-- The bytes of a space's executable. Only `load_elf` defines regions that
are read from the file, after it has set it. -/
def fileData (vnodes : Nat → Vnode) (as : AddrSpace) : List UInt8 :=
  match as.file with
  | none => []
  | some v => (vnodes v).data

/-! ## Kernel pages -/

def allocKpages (s : Vm) (npages : Nat) : Except Crash (Nat × Vm) := cmRequestKframes s npages

def freeKpages (s : Vm) (addr : Nat) : Except Crash Vm := do
  let paddr := addr - mipsKseg0
  if paddr % pageSize ≠ 0 then .error { why := .assertionFailed .paddrIsPageAligned, vm := s }
  else
    let c ← raise s (cmReleaseKframes s.cm (paddr / pageSize))
    .ok { s with cm := c }

def kframe (addr : Nat) : Nat := (addr - mipsKseg0) / pageSize

/-- The calls of `alloc_kpages` that the kernel heap makes for one
allocation, with the runs it is given. -/
def kmallocPages : List Nat → Vm → Except Crash (List (Nat × Nat) × Vm)
  | [], s => .ok ([], s)
  | n :: l, s => do
    let (addr, s) ← allocKpages s n
    let (runs, s) ← kmallocPages l s
    .ok ((kframe addr, n) :: runs, s)

/-! ## Creation, activation, teardown -/

/-- `as_create`, `load_elf` and `as_define_stack`, as `runprogram` and
`sys_execv` call them; `kmalloc` returns `blocks` and `stack`. -/
def asLoad (pds : PdPtr → PageDetail) (last : Segment) (vnode : Nat) (phdrs : List Phdr) (blocks : List Nat)
    (stack : Nat) : Except Panic (Option Errno × AddrSpace × (PdPtr → PageDetail)) := do
  let as := { asCreate last with file := some vnode }
  let (result, as, pds) ← loadElfSegments as pds phdrs blocks
  match result with
  | some e => .ok (some e, as, pds)
  | none =>
    let (_, as, pds) := asDefineStack as pds stack
    .ok (none, as, pds)

def asActivate (s : Sys) (a : Nat) : Sys :=
  let tlb :=
    match s.lastAddrspace with
    | none => s.vm.tlb
    | some last => if last = a then s.vm.tlb else tlbContextSwitch s.vm.tlb
  { s with vm := { s.vm with tlb := tlb }, lastAddrspace := some a, lastGone := false }

def freePage (s : Vm) (p : PdPtr) : Except Crash Vm := do
  let s ←
    if (s.pds p).pfn ≠ -1 then do
      let c ← raise s (cmReleaseFrame s.cm (s.pds p).pfn.toNat)
      .ok { s with cm := c }
    else .ok s
  if (s.pds p).sfn ≠ -1 then do
    let swap ← raise s (swapFreePage s.swap (s.pds p).sfn)
    .ok { s with swap := swap }
  else .ok s

def freePages : List PdPtr → Vm → Except Crash Vm
  | [], s => .ok s
  | p :: l, s => do
    let s ← freePage s p
    freePages l s

def asFreeSegments (s : Vm) (as : AddrSpace) : Except Crash Vm := freePages as.pages s

def asDestroy (s : Sys) (a : Nat) (as : AddrSpace) : Except Crash Sys := do
  let vm ← asFreeSegments s.vm as
  let vnodes ←
    match as.file with
    | none => .ok s.vnodes
    | some v =>
      if (s.vnodes v).opencount = 0 then .error { why := .assertionFailed .vnodeIsOpen, vm := vm }
      else .ok (Function.update s.vnodes v { s.vnodes v with opencount := (s.vnodes v).opencount - 1 })
  .ok { s with
    vm := vm
    vnodes := vnodes
    spaces := Function.update s.spaces a none
    curAs := if s.curAs = some a then none else s.curAs
    lastGone := s.lastGone || s.lastAddrspace == some a }

/-! ## Fork -/

def tlbLookup (t : Tlb) (v : Nat) : Option TlbEntry :=
  ((List.range numTlb).find? fun i => (t.entries i).vpage == v && (t.entries i).valid).map t.entries

/-- `copycheck`, for the whole block: a range that runs into the kernel is
refused too. -/
def copycheck (userptr len : Nat) : Bool :=
  let top := u32 (userptr + len - 1)
  !(decide (top < userptr)) && !(decide (userTop ≤ userptr)) && !(decide (userTop ≤ top))

/-- `copyin` of one page at a page boundary: the bytes, or nothing if the
address is refused. A TLB miss goes through `vm_fault`. -/
def copyinPage (s : Vm) (as : AddrSpace) (file : List UInt8) (vaddr resid : Nat) :
    Except Crash (Option Page × Vm) :=
  if copycheck vaddr pageSize then
    match tlbLookup s.tlb vaddr with
    | some e => .ok (some (s.mem (e.ppage / pageSize)), s)
    | none => do
      match ← vmFault s (some as) file .read vaddr resid with
      | (.handled, s) =>
        match tlbLookup s.tlb vaddr with
        | some e => .ok (some (s.mem (e.ppage / pageSize)), s)
        | none => .error { why := .outOfBounds, vm := s }
      | (_, s) => .error { why := .threadExit, vm := s }
  else .ok (none, s)

/-- One round of the inner loop of `as_copy_segments`: `q` is the page of
the old space and `p` the new one. -/
def copyPage (s : Vm) (isCur : Bool) (old : AddrSpace) (file : List UInt8) (q p : PdPtr) (resid : Nat) :
    Except Crash Vm :=
  if (s.pds q).dirty then do
    let s := s.modifyPd p fun d => { d with use := false, valid := true }
    let (frame, s) ← cmGetppage s
    let s := s.modifyPd p fun d => { d with pfn := frame }
    if isCur = false then .error { why := .assertionFailed .currentSpaceIsCopied, vm := s }
    else
      let (data, s) ← copyinPage s old file (s.pds p).vaddr resid
      -- the result of `copyin` is dropped
      let s := match data with
        | some data => { s with mem := Function.update s.mem frame data }
        | none => s
      let frame ← pdFrame s p
      .ok (cmFinishPaging s frame p)
  else .ok (s.modifyPd p fun d => { d with use := false, pfn := -1, valid := false, sfn := -1 })

def copyPages (isCur : Bool) (old : AddrSpace) (file : List UInt8) (resid : Nat → Nat) :
    List (PdPtr × PdPtr) → Vm → Except Crash Vm
  | [], s => .ok s
  | (q, p) :: l, s => do
    let s ← copyPage s isCur old file q p (resid p.idx)
    copyPages isCur old file resid l s

/-- What `as_copy` gets from elsewhere: the memory `kmalloc` returns for each
segment's page table with the kernel pages it takes for it, and the
uninitialised `uio_resid` of the loads that happen on the way. -/
structure CopyArgs where
  last : Segment
  asPages : List Nat
  ptPages : Nat → List Nat
  blocks : Nat → Nat
  resid : Nat → Nat → Nat

def copySegment (isCur : Bool) (old : AddrSpace) (file : List UInt8) (args : CopyArgs) (i : Nat)
    (new : AddrSpace) (runs : List (Nat × Nat)) (s : Vm) : Except Crash (AddrSpace × List (Nat × Nat) × Vm) :=
  let seg := old.segments i
  if seg.active ≠ 0 then do
    let seg' : Segment := { seg with active := 1, pt := (new.segments i).pt }
    let (runs', s) ← kmallocPages (args.ptPages i) s
    let (pt, pds) := ptCreate s.pds seg' (args.blocks i)
    let s := { s with pds := pds }
    match seg.pt with
    | none => .error { why := .nullPointer, vm := s }
    | some opt =>
      let pairs := (List.range pt.size).map fun j => (({ block := opt.block, idx := j } : PdPtr),
        ({ block := pt.block, idx := j } : PdPtr))
      let s ← copyPages isCur old file (args.resid i) pairs s
      .ok (new.setSegment i { seg' with pt := some pt }, runs ++ runs', s)
  else .ok (new, runs, s)

def copySegments (isCur : Bool) (old : AddrSpace) (file : List UInt8) (args : CopyArgs) :
    List Nat → AddrSpace → List (Nat × Nat) → Vm → Except Crash (AddrSpace × List (Nat × Nat) × Vm)
  | [], new, runs, s => .ok (new, runs, s)
  | i :: l, new, runs, s => do
    let (new, runs, s) ← copySegment isCur old file args i new runs s
    copySegments isCur old file args l new runs s

def asCopy (s : Sys) (a : Nat) (old : AddrSpace) (args : CopyArgs) :
    Except Crash (AddrSpace × List (Nat × Nat) × Sys) := do
  let (runs, vm) ← kmallocPages args.asPages s.vm
  match old.file with
  | none => .error { why := .nullPointer, vm := vm }
  | some v =>
    let vnodes := Function.update s.vnodes v { s.vnodes v with opencount := (s.vnodes v).opencount + 1 }
    let new := { asCreate args.last with file := some v, numSegments := old.numSegments }
    let (new, runs, vm) ←
      copySegments (s.curAs == some a) old (fileData s.vnodes old) args (List.range asNumSeg) new runs vm
    .ok (new, runs, { s with vm := vm, vnodes := vnodes })

/-! ## Operations -/

inductive Op
  | create (a : Nat) (last : Segment) (vnode : Nat) (phdrs : List Phdr) (blocks : List Nat) (stack : Nat)
  | activate (a : Nat)
  | fault (faulttype : FaultType) (addr resid : Nat)
  /-- The running program stores a byte. -/
  | store (addr : Nat) (byte : UInt8)
  | kalloc (npages : Nat)
  | kfree (frame : Nat)
  /-- The kernel writes to a frame it owns. -/
  | kstore (frame off : Nat) (byte : UInt8)
  /-- The running program forks; the child's space is at address `child`. -/
  | copy (child : Nat) (args : CopyArgs)
  | destroy (a : Nat)

def setByte (mem : Nat → Page) (frame off : Nat) (byte : UInt8) : Nat → Page :=
  Function.update mem frame (Function.update (mem frame) off byte)

def Sys.cur (s : Sys) : Option AddrSpace := s.curAs.bind s.spaces

/-- One operation, run to completion. An operation that its caller could not
have called leaves the state as it is. The thread whose load fails has
activated what there is of its space and exits, so that the space is
destroyed. A program that cannot be opened or read is one whose first header
is of an unknown type. -/
def step (s : Sys) : Op → Except Crash Sys
  | .create a last vnode phdrs blocks stack => do
    let (result, as, pds) ← raise s.vm (asLoad s.vm.pds last vnode phdrs blocks stack)
    let v := s.vnodes vnode
    let s := { s with
      vm := { s.vm with pds := pds }
      vnodes := Function.update s.vnodes vnode { v with opencount := v.opencount + 1 }
      spaces := Function.update s.spaces a (some as) }
    match result with
    | none => .ok s
    | some _ => asDestroy { asActivate s a with curAs := some a } a as
  | .activate a => .ok { asActivate s a with curAs := some a }
  | .fault faulttype addr resid => do
    let file := match s.cur with
      | none => []
      | some as => fileData s.vnodes as
    let (_, vm) ← vmFault s.vm s.cur file faulttype addr resid
    .ok { s with vm := vm }
  | .store addr byte =>
    match tlbLookup s.vm.tlb (addr &&& pageFrame) with
    | some e =>
      -- a store that is not let through traps, which is `fault`
      if e.dirty then
        .ok { s with vm := { s.vm with mem := setByte s.vm.mem (e.ppage / pageSize) (addr % pageSize) byte } }
      else .ok s
    | none => .ok s
  | .kalloc npages => do
    let (addr, vm) ← allocKpages s.vm npages
    .ok { s with vm := vm, granted := s.granted ++ [(kframe addr, npages)] }
  | .kfree frame => do
    let vm ← freeKpages s.vm (paddrToKvaddr (frame * pageSize))
    .ok { s with vm := vm, granted := s.granted.filter fun r => r.1 != frame }
  | .kstore frame off byte => .ok { s with vm := { s.vm with mem := setByte s.vm.mem frame off byte } }
  | .copy child args =>
    match s.curAs, s.cur with
    | some a, some old => do
      let (new, runs, s) ← asCopy s a old args
      .ok { s with spaces := Function.update s.spaces child (some new), granted := s.granted ++ runs }
    | _, _ => .ok s
  | .destroy a =>
    match s.spaces a with
    | none => .ok s
    | some as => asDestroy s a as

end Os161
