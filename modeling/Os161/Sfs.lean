import Mathlib.Logic.Function.Basic
import Os161.Vnode
import Os161.Uio
import Os161.Lib.Bytes
import Os161.Lib.Proc
import Os161.Lib.Table

/-!
# SFS: layout, blocks and the free map

The structures of `kern/sfs.h`, block I/O (`sfs_io.c`) and space allocation.
A block is its bytes; the disk is big-endian like the machine. A `sfs_vnode`
is found in the table by its inode number.
-/

namespace Os161

open Bytes

def sfsMagic : Nat := 0xabadf001
def sfsBlocksize : Nat := 512
def sfsVolnameSize : Nat := 32
def sfsNdirect : Nat := 15
def sfsDbperidb : Nat := 128
def sfsNamelen : Nat := 60
def sfsSbLocation : Nat := 0
def sfsRootLocation : Nat := 1
def sfsMapLocation : Nat := 2
def sfsNoino : Nat := 0
def sfsTypeInval : Nat := 0
def sfsTypeFile : Nat := 1
def sfsTypeDir : Nat := 2

def sfsBlockbits : Nat := sfsBlocksize * 8

def sfsBitmapsize (nblocks : Nat) : Nat := (nblocks + sfsBlockbits - 1) / sfsBlockbits * sfsBlockbits

def sfsBitblocks (nblocks : Nat) : Nat := sfsBitmapsize nblocks / sfsBlockbits

/-! ## On-disk structures -/

@[ext]
structure Inode where
  sfiSize : Nat
  sfiType : Nat
  sfiLinkcount : Nat
  sfiDirect : Fin sfsNdirect → Nat
  sfiIndirect : Nat

def zeroBlock : Mem := fun _ => 0

def readInode (b : Mem) : Inode where
  sfiSize := getBE b 0 4
  sfiType := getBE b 4 2
  sfiLinkcount := getBE b 6 2
  sfiDirect k := getBE b (8 + 4 * k) 4
  sfiIndirect := getBE b 68 4

def inodeBlock (i : Inode) : Mem :=
  putBE (putWords (putBE (putBE (putBE zeroBlock 0 4 i.sfiSize) 4 2 i.sfiType) 6 2 i.sfiLinkcount) 8 sfsNdirect
    fun k => if h : k < sfsNdirect then i.sfiDirect ⟨k, h⟩ else 0) 68 4 i.sfiIndirect

def readWords (b : Mem) : Nat → Nat := fun k => getBE b (4 * k) 4

def wordsBlock (f : Nat → Nat) : Mem := putWords zeroBlock 0 sfsDbperidb f

def readString (b : Mem) (a len : Nat) : List UInt8 := ((List.range len).map fun k => b (a + k)).takeWhile (· ≠ 0)

def dirEntry (ino : Nat) (name : CString) : Mem :=
  fun x => if x < 4 then putBE zeroBlock 0 4 ino x else name.byte (x - 4)

def dirSize : Nat := 4 + sfsNamelen

def entryName (sd : Mem) : List UInt8 := readString sd 4 (sfsNamelen - 1)

def entryIno (sd : Mem) : Nat := getBE sd 0 4

structure Super where
  spMagic : Nat
  spNblocks : Nat
  spVolname : List UInt8

def readSuper (b : Mem) : Super where
  spMagic := getBE b 0 4
  spNblocks := getBE b 4 4
  spVolname := readString b 8 (sfsVolnameSize - 1)

def superBlock (sp : Super) : Mem :=
  fun x => if x < 8 then putBE (putBE zeroBlock 0 4 sp.spMagic) 4 4 sp.spNblocks x else sp.spVolname.getD (x - 8) 0

/-! ## A mounted file system -/

structure SfsVnode where
  svV : VnodeCounts
  svI : Inode
  svIno : Nat
  svDirty : Bool

/-- `disk` and `dBlocks` are the device. Each read of a block and each
allocation of memory uses up an entry of `faults`, which says whether it fails,
and each write of a block an entry of `lost`; without entries nothing fails.
`writes` is history: the number of blocks written. -/
structure Sfs where
  disk : Nat → Mem
  dBlocks : Nat
  dBlocksize : Nat
  sfsSuper : Super
  sfsSuperdirty : Bool
  sfsVnodes : List SfsVnode
  sfsFreemap : Nat → Bool
  sfsFreemapdirty : Bool
  faults : List Bool
  lost : List Bool
  writes : Nat

abbrev SfsM := Proc Sfs Errno FsPanic

def Sfs.nblocks (s : Sfs) : Nat := s.sfsSuper.spNblocks

def Sfs.nbits (s : Sfs) : Nat := sfsBitmapsize s.nblocks

def Sfs.vnode (s : Sfs) (ino : Nat) : Option SfsVnode := Table.get SfsVnode.svIno s.sfsVnodes ino

def assertFs (c : Prop) [Decidable c] (a : FsAssertion) : SfsM Unit := Proc.require c (.assertionFailed a)

def nextFault : SfsM Bool := fun s =>
  match s.faults with
  | [] => .ok (.ok false, s)
  | b :: faults => .ok (.ok b, { s with faults := faults })

def nextLost : SfsM Bool := fun s =>
  match s.lost with
  | [] => .ok (.ok false, s)
  | b :: lost => .ok (.ok b, { s with lost := lost })

def getSv (ino : Nat) : SfsM SfsVnode := do
  let s ← Proc.get
  match s.vnode ino with
  | some sv => pure sv
  | none => Proc.crash (.danglingVnode ino)

def Sfs.modifySv (s : Sfs) (ino : Nat) (f : SfsVnode → SfsVnode) : Sfs :=
  { s with sfsVnodes := Table.modify SfsVnode.svIno s.sfsVnodes ino f }

def modifySv (ino : Nat) (f : SfsVnode → SfsVnode) : SfsM Unit := Proc.modify (·.modifySv ino f)

/-! ## Block I/O -/

def toU32 (z : Int) : Nat := (z % 2 ^ 32).toNat

def diskoff (block : Nat) : Int := toOff (u32 (block * sfsBlocksize))

/-- The sector that the byte offset of a block, a 32-bit `off_t`, leads to. -/
def sectorOf (block : Nat) : Nat := toU32 ((diskoff block).tdiv sfsBlocksize)

def sfsRblock (block : Nat) : SfsM Mem := do
  let s ← Proc.get
  if s.dBlocks ≤ sectorOf block then Proc.crash .dIoEinval
  -- `sfs_rwblock` gives up after its retries
  if ← nextFault then Proc.throw .eio
  pure (s.disk (sectorOf block))

/-- A write whose first attempt fails is lost: the retry finds its `uio` used
up, writes nothing and succeeds. -/
def sfsWblock (data : Mem) (block : Nat) : SfsM Unit := do
  let s ← Proc.get
  if s.dBlocks ≤ sectorOf block then Proc.crash .dIoEinval
  if ← nextLost then
    if s.dBlocks < sectorOf (block + 1) then Proc.crash .dIoEinval
  else Proc.modify fun s => { s with disk := Function.update s.disk (sectorOf block) data, writes := s.writes + 1 }

def sfsClearblock (block : Nat) : SfsM Unit := sfsWblock zeroBlock block

def sfsSyncInode (ino : Nat) : SfsM Unit := do
  let sv ← getSv ino
  if sv.svDirty then
    sfsWblock (inodeBlock sv.svI) ino
    modifySv ino fun sv => { sv with svDirty := false }

/-! ## Space allocation -/

def bitmapAlloc (map : Nat → Bool) (nbits : Nat) : Option Nat := (List.range nbits).find? fun b => !map b

def sfsBalloc : SfsM Nat := do
  let s ← Proc.get
  match bitmapAlloc s.sfsFreemap s.nbits with
  | none => Proc.throw .enospc
  | some block =>
    Proc.modify fun s =>
      { s with sfsFreemap := Function.update s.sfsFreemap block true, sfsFreemapdirty := true }
    if s.nblocks ≤ block then Proc.crash (.ballocInvalidBlock block)
    sfsClearblock block
    pure block

def bitmapUnmark (index : Nat) : SfsM Unit := do
  let s ← Proc.get
  assertFs (index < s.nbits) .indexInRange
  assertFs (s.sfsFreemap index = true) .bitIsSet
  Proc.modify fun s => { s with sfsFreemap := Function.update s.sfsFreemap index false }

def sfsBfree (block : Nat) : SfsM Unit := do
  bitmapUnmark block
  Proc.modify fun s => { s with sfsFreemapdirty := true }

def sfsBused (block : Nat) : SfsM Bool := do
  let s ← Proc.get
  if s.nblocks ≤ block then Proc.crash (.busedOutOfRange block)
  pure (s.sfsFreemap block)

end Os161
