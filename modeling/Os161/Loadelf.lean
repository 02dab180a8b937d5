import Os161.Addrspace
import Os161.Uio

/-!
# Loading executables

`load_elf` over the program headers it reads, and `load_segment_page`, which
fetches one page of a segment from the file. A file is its bytes; reading
returns what there is up to the end of the file.
-/

namespace Os161

inductive PType
  | null
  | load
  | phdr
  | mipsReginfo
  | other
  deriving DecidableEq, Repr

structure Phdr where
  pType : PType
  pOffset : Nat
  pVaddr : Nat
  pFilesz : Nat
  pMemsz : Nat
  pFlags : Nat
  deriving DecidableEq, Repr

def vopRead (file : List UInt8) (buf : Nat → UInt8) (u : Uio) : Except Panic ((Nat → UInt8) × Uio) :=
  if 0 ≤ u.uioOffset then do
    let off := u.uioOffset.toNat
    let (_, buf, u) ← uiomove (fun i => file.getD (off + i) 0) buf (min u.uioResid (file.length - off)) u
    .ok (buf, u)
  else .ok (buf, u)

/-- `frame` is the physical frame at `paddr`, and `resid` what the local
`u.uio_resid`, which is only assigned when something is read from the file,
held before. -/
def loadSegmentPage (file : List UInt8) (vaddr : Nat) (s : Segment) (frame : Page) (resid : Nat) :
    Except Panic (Option Errno × Page) := do
  let delta := u32 (vaddr + 2 ^ 32 - s.vbase)
  let u : Uio :=
    { iovKbase := 0
      iovLen := pageSize
      uioOffset := toOff (u32 (delta + s.pOffset))
      uioResid := resid
      uioRw := .read }
  if delta < s.pFilesz then
    let readSize :=
      if u32 (vaddr + pageSize) ≤ u32 (s.vbase + s.pFilesz) then pageSize
      else u32 (s.vbase + s.pFilesz + 2 ^ 32 - vaddr)
    let (frame, u) ← vopRead file frame { u with uioResid := readSize }
    if u.uioResid ≠ 0 then .ok (some .enoexec, frame)
    else
      let fillamt := u32 (pageSize + 2 ^ 32 - readSize)
      if 0 < fillamt then
        let (frame, _) ← uiomovezeros frame fillamt { u with uioResid := u32 (u.uioResid + fillamt) }
        .ok (none, frame)
      else .ok (none, frame)
  else
    let (frame, _) ← uiomovezeros frame pageSize { u with uioResid := u32 (resid + pageSize) }
    .ok (none, frame)

def loadElfSegments (as : AddrSpace) (pds : PdPtr → PageDetail) :
    List Phdr → List Nat → Except Panic (Option Errno × AddrSpace × (PdPtr → PageDetail))
  | [], _ => .ok (none, as, pds)
  | ph :: phs, blocks =>
    match ph.pType with
    | .null | .phdr | .mipsReginfo => loadElfSegments as pds phs blocks
    | .other => .ok (some .enoexec, as, pds)
    | .load => do
      let (result, as, pds) ←
        asDefineRegion as pds (blocks.headD 0) ph.pVaddr ph.pMemsz ph.pFlags ph.pOffset ph.pFilesz
      match result with
      | some e => .ok (some e, as, pds)
      | none => loadElfSegments as pds phs blocks.tail

end Os161
