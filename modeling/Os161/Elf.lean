import Os161.Loadelf
import Os161.Lib.Bytes

/-!
# ELF files

`load_elf` from the bytes of the executable: the header of the file, then its
program headers one by one. A read can fail; the first reads the header of the
file.
-/

namespace Os161

open Bytes

structure Ehdr where
  eIdent : Nat → UInt8
  eType : Nat
  eMachine : Nat
  eVersion : Nat
  eEntry : Nat
  ePhoff : Nat
  ePhentsize : Nat
  ePhnum : Nat

def ehdrSize : Nat := 52

def phdrSize : Nat := 32

def readEhdr (b : Mem) : Ehdr where
  eIdent := b
  eType := getBE b 16 2
  eMachine := getBE b 18 2
  eVersion := getBE b 20 4
  eEntry := getBE b 24 4
  ePhoff := getBE b 28 4
  ePhentsize := getBE b 42 2
  ePhnum := getBE b 44 2

def ptype (n : Nat) : PType :=
  if n = 0 then .null
  else if n = 1 then .load
  else if n = 6 then .phdr
  else if n = 0x70000000 then .mipsReginfo
  else .other

def readPhdr (b : Mem) : Phdr where
  pType := ptype (getBE b 0 4)
  pOffset := getBE b 4 4
  pVaddr := getBE b 8 4
  pFilesz := getBE b 16 4
  pMemsz := getBE b 20 4
  pFlags := getBE b 24 4

/-- The magic number, `ELFCLASS32`, `ELFDATA2MSB`, `EV_CURRENT`, `ET_EXEC` and `EM_MIPS`. -/
def isExecutable (eh : Ehdr) : Bool :=
  eh.eIdent 0 == 0x7f && eh.eIdent 1 == 0x45 && eh.eIdent 2 == 0x4c && eh.eIdent 3 == 0x46 && eh.eIdent 4 == 1 &&
    eh.eIdent 5 == 2 && eh.eIdent 6 == 1 && eh.eVersion == 1 && eh.eType == 2 && eh.eMachine == 8

structure ExecFile where
  data : List UInt8
  fails : Nat → Option Errno

def readHeader (f : ExecFile) (k : Nat) (offset : Int) (size : Nat) : Except Panic (Except Errno Mem) :=
  match f.fails k with
  | some e => .ok (.error e)
  | none => do
    let u : Uio := { iovKbase := 0, iovLen := size, uioOffset := offset, uioResid := size, uioRw := .read }
    let (b, u) ← vopRead f.data (fun _ => 0) u
    if u.uioResid ≠ 0 then .ok (.error .enoexec) else .ok (.ok b)

def phdrOffset (eh : Ehdr) (i : Nat) : Int := toOff (u32 (eh.ePhoff + i * eh.ePhentsize))

def loadElfLoop (f : ExecFile) (eh : Ehdr) : (n i : Nat) → AddrSpace → (PdPtr → PageDetail) → List Nat →
    Except Panic (Option Errno × AddrSpace × (PdPtr → PageDetail))
  | 0, _, as, pds, _ => .ok (none, as, pds)
  | n + 1, i, as, pds, blocks => do
    match ← readHeader f (i + 1) (phdrOffset eh i) phdrSize with
    | .error e => .ok (some e, as, pds)
    | .ok b =>
      let ph := readPhdr b
      match ph.pType with
      | .null | .phdr | .mipsReginfo => loadElfLoop f eh n (i + 1) as pds blocks
      | .other => .ok (some .enoexec, as, pds)
      | .load =>
        let (result, as, pds) ←
          asDefineRegion as pds (blocks.headD 0) ph.pVaddr ph.pMemsz ph.pFlags ph.pOffset ph.pFilesz
        match result with
        | some e => .ok (some e, as, pds)
        | none => loadElfLoop f eh n (i + 1) as pds blocks.tail

def loadElf (as : AddrSpace) (pds : PdPtr → PageDetail) (file : Except Errno (Nat × ExecFile)) (blocks : List Nat) :
    Except Panic (Except Errno Nat × AddrSpace × (PdPtr → PageDetail)) :=
  match file with
  | .error e => .ok (.error e, as, pds)
  | .ok (v, f) => do
    let as := { as with file := some v }
    match ← readHeader f 0 0 ehdrSize with
    | .error e => .ok (.error e, as, pds)
    | .ok b =>
      let eh := readEhdr b
      if isExecutable eh then
        match ← loadElfLoop f eh eh.ePhnum 0 as pds blocks with
        | (some e, as, pds) => .ok (.error e, as, pds)
        | (none, as, pds) => .ok (.ok eh.eEntry, as, pds)
      else .ok (.error .enoexec, as, pds)

end Os161
