import Os161.SfsVnode

/-!
# SFS: volumes

`sfs_fs.c`, the image that `mksfs` writes, and the operations on a mounted
volume.
-/

namespace Os161

open Bytes Proc

/-! ## The free map on disk -/

def mapBlock (map : Nat → Bool) (j : Nat) : Mem := ofBits fun k => map (j * sfsBlockbits + k)

def mapWrite : (n j : Nat) → SfsM Unit
  | 0, _ => pure ()
  | n + 1, j => do
    let s ← Proc.get
    sfsWblock (mapBlock s.sfsFreemap j) (sfsMapLocation + j)
    mapWrite n (j + 1)

def mapRead : (n j : Nat) → SfsM Unit
  | 0, _ => pure ()
  | n + 1, j => do
    let b ← sfsRblock (sfsMapLocation + j)
    Proc.modify fun s => { s with
      sfsFreemap := fun k => if k / sfsBlockbits = j then getBit b (k % sfsBlockbits) else s.sfsFreemap k }
    mapRead n (j + 1)

/-! ## Synchronising, mounting and unmounting -/

/-- The results of `VOP_FSYNC` are dropped. -/
def syncVnodes : List SfsVnode → SfsM Unit
  | [] => pure ()
  | sv :: l => do
    let _ ← attempt (vopFsync sv.svIno)
    syncVnodes l

def syncFreemap : SfsM Unit := do
  let s ← Proc.get
  if s.sfsFreemapdirty = true then
    mapWrite (sfsBitblocks s.nblocks) 0
    Proc.modify fun s => { s with sfsFreemapdirty := false }

def syncSuper : SfsM Unit := do
  let s ← Proc.get
  if s.sfsSuperdirty = true then
    sfsWblock (superBlock s.sfsSuper) sfsSbLocation
    Proc.modify fun s => { s with sfsSuperdirty := false }

def sfsSync : SfsM Unit := do
  let s ← Proc.get
  syncVnodes s.sfsVnodes
  syncFreemap
  syncSuper

def sfsUnmount : SfsM Unit := do
  let s ← Proc.get
  if 0 < s.sfsVnodes.length then throw .ebusy
  assertFs (s.sfsSuperdirty = false) .superClean
  assertFs (s.sfsFreemapdirty = false) .freemapClean

def Sfs.device (s : Sfs) : Sfs :=
  { s with
    sfsSuper := { spMagic := 0, spNblocks := 0, spVolname := [] }
    sfsSuperdirty := false
    sfsVnodes := []
    sfsFreemap := fun _ => false
    sfsFreemapdirty := false }

def sfsDomount : SfsM Unit := do
  let s ← Proc.get
  if s.dBlocksize ≠ sfsBlocksize then throw .enxio
  Proc.modify Sfs.device
  -- the `sfs_fs` and its array of vnodes
  if ← nextFault then throw .enomem
  if ← nextFault then throw .enomem
  let b ← sfsRblock sfsSbLocation
  let sp := readSuper b
  if sp.spMagic ≠ sfsMagic then throw .einval
  Proc.modify fun s => { s with sfsSuper := sp }
  -- the bitmap and its words
  if ← nextFault then throw .enomem
  if ← nextFault then throw .enomem
  mapRead (sfsBitblocks sp.spNblocks) 0

def unmount : SfsM Unit := do
  sfsSync
  sfsUnmount

/-! ## `mksfs` -/

def maxBitblocks : Nat := 32

def doallocbits : List Nat → (Nat → Bool) → Except FsPanic (Nat → Bool)
  | [], bitbuf => .ok bitbuf
  | bit :: l, bitbuf =>
    if bitbuf bit = true then .error (.assertionFailed .bitIsClear)
    else doallocbits l (Function.update bitbuf bit true)

def usedBits (fsblocks : Nat) : List Nat :=
  [sfsSbLocation, sfsRootLocation] ++ (List.range (sfsBitblocks fsblocks)).map (sfsMapLocation + ·) ++
    (List.range (sfsBitmapsize fsblocks - fsblocks)).map (fsblocks + ·)

def rootInode : Inode :=
  { sfiSize := 0, sfiType := sfsTypeDir, sfiLinkcount := 1, sfiDirect := fun _ => 0, sfiIndirect := 0 }

/-- The volume name that `main` makes of its argument: one colon at the end
is taken off. -/
def volumeName (arg : CString) : Option CString :=
  let volname := match strchr arg colon with
    | none => some arg
    | some k => if strlen arg - k ≠ 1 then none else some (arg.upto k)
  volname.filter fun name => (strchr name slash).isNone

/-- The blocks `mksfs` writes over what a disk of `stSize` bytes holds. It
exits if the name is not legal or the name or the bitmap is too large. -/
def mksfs (stSize : Nat) (arg : CString) (disk : Nat → Mem) : Except FsPanic (Option (Nat → Mem)) :=
  let fsblocks := stSize / sfsBlocksize
  match volumeName arg with
  | none => .ok none
  | some volname =>
    if sfsVolnameSize ≤ strlen volname then .ok none
    else if maxBitblocks < sfsBitblocks fsblocks then .ok none
    else do
      let bitbuf ← doallocbits (usedBits fsblocks) fun _ => false
      .ok (some fun b =>
        if b = sfsSbLocation then superBlock { spMagic := sfsMagic, spNblocks := fsblocks, spVolname := volname.chars }
        else if b = sfsRootLocation then inodeBlock rootInode
        else if b < sfsMapLocation + sfsBitblocks fsblocks then mapBlock bitbuf (b - sfsMapLocation)
        else disk b)

/-! ## Operations -/

inductive SfsOp
  | getroot
  | lookup (dir : Nat) (path : CString)
  | creat (dir : Nat) (name : CString) (excl : Bool)
  | link (dir : Nat) (name : CString) (file : Nat)
  | remove (dir : Nat) (name : CString)
  | rename (dir : Nat) (n1 n2 : CString)
  | incref (ino : Nat)
  | decref (ino : Nat)
  | incopen (ino : Nat)
  /-- `vfs_close`. -/
  | close (ino : Nat)
  | read (ino offset len : Nat)
  | write (ino offset : Nat) (data : List UInt8)
  | truncate (ino : Nat) (len : Int)
  | fsync (ino : Nat)
  | sync
  /-- `vfs_unmount` and a new mount, if there is nothing in use. -/
  | remount

def readXfer (offset len : Nat) : Xfer := { buf := zeroBlock, uio := mkKuio len offset .read }

def writeXfer (offset : Nat) (data : List UInt8) : Xfer :=
  { buf := fun k => data.getD k 0, uio := mkKuio data.length offset .write }

def remount : SfsM Unit := do
  unmount
  sfsDomount

def SfsOp.vnodes : SfsOp → List Nat
  | .getroot | .sync | .remount => []
  | .lookup dir _ | .creat dir _ _ | .remove dir _ | .rename dir _ _ => [dir]
  | .link dir _ file => [dir, file]
  | .incref ino | .decref ino | .incopen ino | .close ino | .read ino _ _ | .write ino _ _ | .truncate ino _ |
    .fsync ino => [ino]

/-- Callers pass vnodes to which they have a reference, and there is a
reference for every time a vnode is open. An `off_t` has 31 bits for a
position and a `size_t` 32. -/
def SfsOp.callable (s : Sfs) (op : SfsOp) : Bool :=
  (op.vnodes.all fun ino => (s.vnode ino).isSome) &&
    match op with
    | .decref ino => (s.vnode ino).any fun sv => sv.svV.vnOpencount < sv.svV.vnRefcount
    | .incopen ino => (s.vnode ino).any fun sv => sv.svV.vnOpencount < sv.svV.vnRefcount
    | .close ino => (s.vnode ino).any fun sv => 0 < sv.svV.vnOpencount
    | .read _ offset len => decide (offset < 2 ^ 31) && decide (len < 2 ^ 32)
    | .write _ offset data => decide (offset < 2 ^ 31) && decide (data.length < 2 ^ 32)
    | .truncate _ len => decide (-2 ^ 31 ≤ len) && decide (len < 2 ^ 31)
    | _ => true

def SfsOp.run : SfsOp → SfsM Unit
  | .getroot => sfsGetroot
  | .lookup dir path => do let _ ← vopLookup dir path
  | .creat dir name excl => do let _ ← vopCreat dir name excl
  | .link dir name file => vopLink dir name file
  | .remove dir name => vopRemove dir name
  | .rename dir n1 n2 => vopRename dir n1 n2
  | .incref ino => vopIncref ino
  | .decref ino => Os161.decref ino
  | .incopen ino => Os161.incopen ino
  | .close ino => do
    decopen ino
    Os161.decref ino
  | .read ino offset len => do let _ ← sfsRead ino (readXfer offset len)
  | .write ino offset data => do let _ ← sfsWrite ino (writeXfer offset data)
  | .truncate ino len => vopTruncate ino len
  | .fsync ino => vopFsync ino
  | .sync => sfsSync
  | .remount => Os161.remount

/-- An operation that its caller could not have called leaves the state as
it is. -/
def sfsStep (s : Sfs) (op : SfsOp) : Except FsPanic Sfs :=
  if op.callable s = true then exec op.run s else .ok s

end Os161
