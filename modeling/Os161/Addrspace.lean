import Os161.Vmstate

/-!
# Address spaces: layout and address checks

The parts of `addrspace.c` and `pt.c` that lay out segments and look
addresses up. `kmalloc` returns the block of page details as an argument of
the functions that allocate one; that it can fail is the panic of
`pt_create`, which is left out.
-/

namespace Os161

def asNumSeg : Nat := 3

def dumbvmStackpages : Nat := 12

def pfW : Nat := 0x2

def pfX : Nat := 0x1

structure PageTable where
  size : Nat
  block : Nat
  deriving DecidableEq, Repr

structure Segment where
  active : Int
  vbase : Nat
  size : Nat
  writeable : Nat
  pt : Option PageTable
  pOffset : Nat
  pFilesz : Nat
  pMemsz : Nat
  pFlags : Nat
  deriving DecidableEq, Repr

structure AddrSpace where
  segments : Nat → Segment
  file : Option Nat
  numSegments : Nat

def emptySegment : Segment :=
  { active := 0, vbase := 0, size := 0, writeable := 0, pt := none, pOffset := 0, pFilesz := 0,
    pMemsz := 0, pFlags := 0 }

def AddrSpace.setSegment (as : AddrSpace) (i : Nat) (seg : Segment) : AddrSpace :=
  { as with segments := Function.update as.segments i seg }

/-- The loop stops before the last segment, which keeps what the block from
`kmalloc` held. -/
def asCreate (last : Segment) : AddrSpace :=
  { segments := fun i => if i < asNumSeg - 1 then emptySegment else last
    file := none
    numSegments := 0 }

def ptEntry (seg : Segment) (i : Nat) : PageDetail :=
  { vaddr := u32 (seg.vbase + pageSize * i)
    pfn := -1
    sfn := -1
    valid := false
    dirty := seg.writeable != 0
    use := false }

def ptCreate (pds : PdPtr → PageDetail) (seg : Segment) (block : Nat) : PageTable × (PdPtr → PageDetail) :=
  ({ size := seg.size, block := block },
    fun p => if p.block = block ∧ p.idx < seg.size then ptEntry seg p.idx else pds p)

def asDefineRegion (as : AddrSpace) (pds : PdPtr → PageDetail) (block : Nat) (vaddr sz flags offset filesz : Nat) :
    Except Panic (Option Errno × AddrSpace × (PdPtr → PageDetail)) :=
  let memsz := sz
  let sz := u32 (sz + (vaddr &&& 0xfff))
  let vaddr := vaddr &&& pageFrame
  let sz := u32 (sz + pageSize - 1) &&& pageFrame
  let npages := sz / pageSize
  if as.numSegments < asNumSeg - 1 then
    if (as.segments as.numSegments).active ≠ 0 then .error (.assertionFailed .segmentIsInactive)
    else
      let seg : Segment :=
        { active := 1
          vbase := vaddr
          size := npages
          writeable := flags &&& pfW
          pt := (as.segments as.numSegments).pt
          pOffset := offset
          pFilesz := filesz
          pMemsz := memsz
          pFlags := flags &&& pfX }
      let (pt, pds) := ptCreate pds seg block
      .ok (none, { as.setSegment as.numSegments { seg with pt := some pt } with numSegments := as.numSegments + 1 },
        pds)
  else .ok (some .eunimp, as, pds)

def asDefineStack (as : AddrSpace) (pds : PdPtr → PageDetail) (block : Nat) :
    Nat × AddrSpace × (PdPtr → PageDetail) :=
  let seg : Segment :=
    { active := 1
      vbase := userTop - dumbvmStackpages * pageSize
      size := dumbvmStackpages
      writeable := 1
      pt := (as.segments (asNumSeg - 1)).pt
      pOffset := 0
      pFilesz := 0
      pMemsz := 0
      pFlags := 0 }
  let (pt, pds) := ptCreate pds seg block
  (userTop, as.setSegment (asNumSeg - 1) { seg with pt := some pt }, pds)

/-! ## Looking an address up -/

def inSegment (seg : Segment) (v : Nat) : Bool :=
  decide (seg.vbase ≤ v) && decide (v < u32 (seg.vbase + seg.size * pageSize))

def asGetSegment (as : AddrSpace) (v : Nat) : Option Nat :=
  (List.range asNumSeg).find? fun i => (as.segments i).active == 1 && inSegment (as.segments i) v

/-- The bound is pointer arithmetic on `vaddr_t *`, so it is scaled by the
four bytes of a `vaddr_t`. -/
def inCheckedRange (seg : Segment) (a : Nat) : Bool :=
  decide (seg.vbase ≤ a) && decide (a < u32 (seg.vbase + 4 * u32 (pageSize * seg.size)))

def asValidAddr (as : AddrSpace) (a : Nat) : Bool :=
  decide (a < userTop) &&
    (List.range asNumSeg).any fun i => (as.segments i).active != 0 && inCheckedRange (as.segments i) a

def asValidReadAddr (as : AddrSpace) (a : Nat) : Bool := asValidAddr as a

def asValidWriteAddr (as : AddrSpace) (a : Nat) : Bool := asValidAddr as a

/-! ## The pages of a segment -/

def Segment.pages (seg : Segment) : List PdPtr :=
  match seg.pt with
  | none => []
  | some pt => (List.range pt.size).map fun j => { block := pt.block, idx := j }

def AddrSpace.pages (as : AddrSpace) : List PdPtr :=
  (List.range asNumSeg).flatMap fun i => if (as.segments i).active ≠ 0 then (as.segments i).pages else []

end Os161
