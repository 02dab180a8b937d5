import Os161.SfsFs
import Os161.Vfslist

/-!
# Path names

`vfslookup.c` over any number of mounted file systems, with what it calls: the
vnode operations of SFS, of emufs (`dev/lamebus/emu.c`) and of devices. The
calls of one thread after another; the locks of the device table, of
`bootfs_vnode` and of emufs are held for one step each.
-/

namespace Os161

open Proc

def liftVfs {σ α : Type} (r : Except FsPanic α) : Proc σ Errno FsPanic α :=
  match r with
  | .ok a => pure a
  | .error p => crash p

def done {σ α : Type} (r : Except Errno α) : Proc σ Errno FsPanic α :=
  match r with
  | .ok a => pure a
  | .error e => throw e

/-! ## emufs -/

structure EmufsVnode where
  evV : VnodeCounts
  isdir : Bool
  deriving DecidableEq, Repr

/-- The vnodes in memory by their handles. What the host answers to `emu_open`
and `emu_close`, and whether `kmalloc` returns memory, is part of the state. -/
structure Emufs where
  efVnodes : Nat → Option EmufsVnode
  emuOpen : Nat → CString → Except Errno (Nat × Bool)
  emuClose : Nat → Option Errno
  memory : Bool

abbrev EmufsM := Proc Emufs Errno FsPanic

def emuRoothandle : Nat := 0

def getEv (handle : Nat) : EmufsM EmufsVnode := do
  let e ← Proc.get
  match e.efVnodes handle with
  | none => crash (.danglingVnode handle)
  | some ev => pure ev

def setEv (handle : Nat) (ev : Option EmufsVnode) : EmufsM Unit :=
  Proc.modify fun e => { e with efVnodes := Function.update e.efVnodes handle ev }

def emufsIncref (handle : Nat) : EmufsM Unit := do
  let ev ← getEv handle
  setEv handle (some { ev with evV := vnodeIncref ev.evV })

def emufsReclaim (handle : Nat) : EmufsM Unit := do
  let ev ← getEv handle
  liftVfs (vnodeCheck ev.evV .reclaim)
  if ev.evV.vnRefcount ≠ 1 then throw .ebusy
  match (← Proc.get).emuClose handle with
  | some e => throw e
  | none =>
    let _ ← liftVfs (vnodeKill ev.evV)
    setEv handle none

/-- What `VOP_RECLAIM` returns is only printed. -/
def emufsDecref (handle : Nat) : EmufsM Unit := do
  let ev ← getEv handle
  let (v, reclaim) ← liftVfs (vnodeDecref ev.evV)
  setEv handle (some { ev with evV := v })
  if reclaim = true then
    let _ ← attempt (emufsReclaim handle)

def emufsGetroot : EmufsM Unit := emufsIncref emuRoothandle

def emufsLoadvnode (handle : Nat) (isdir : Bool) : EmufsM Unit := do
  let e ← Proc.get
  match e.efVnodes handle with
  | some _ => emufsIncref handle
  | none =>
    if e.memory = false then throw .enomem
    setEv handle (some { evV := vnodeInit, isdir := isdir })

def emufsDirop {α : Type} (dir : Nat) (op : Vop) (p : EmufsM α) : EmufsM α := do
  let ev ← getEv dir
  liftVfs (vnodeCheck ev.evV op)
  if ev.isdir = false then throw .enotdir
  p

def emufsLookup (dir : Nat) (pathname : CString) : EmufsM Nat := do
  let e ← Proc.get
  let (handle, isdir) ← done (e.emuOpen dir pathname)
  emufsLoadvnode handle isdir
  pure handle

def strrchr (s : CString) (ch : UInt8) : Option Nat :=
  (List.range (strlen s)).reverse.find? fun i => s.byte i == ch

def CString.skip (s : CString) (n : Nat) : CString := ⟨s.chars.drop n, fun h => s.noNul (List.mem_of_mem_drop h)⟩

def emufsLookparent (dir : Nat) (pathname : CString) (len : Nat) : EmufsM (Nat × CString) :=
  match strrchr pathname slash with
  | none =>
    if strlen pathname + 1 > len then throw .enametoolong
    else do
      emufsIncref dir
      pure (dir, pathname)
  | some s =>
    let name := pathname.skip (s + 1)
    if strlen name + 1 > len then throw .enametoolong
    else do
      let handle ← emufsLookup dir (pathname.upto s)
      pure (handle, name)

/-! ## Vnodes of file systems and devices -/

/-- A vnode: that of file `ino` of the file system `fs`, where emufs has handles
for inode numbers, or that of a device, whose `vn_fs` is null. -/
inductive Node
  | file (fs ino : Nat)
  | device (vnode : Nat)
  deriving DecidableEq, Repr

inductive FileSystem
  | sfs (s : Sfs)
  | emufs (e : Emufs)

def FileSystem.root : FileSystem → Nat
  | .sfs _ => sfsRootLocation
  | .emufs _ => emuRoothandle

structure VfsEnv where
  knowndevs : List Knowndev
  tCwd : Option Node
  bootfsVnode : Option Node

structure Vfs extends VfsEnv where
  fs : Nat → FileSystem
  devCounts : Nat → VnodeCounts

abbrev VfsM := Proc Vfs Errno FsPanic

def Vfs.setFs (s : Vfs) (fs : Nat) (x : FileSystem) : Vfs := { s with fs := Function.update s.fs fs x }

/-- The operation of the table that the vnodes of file system `fs` have. -/
def onFs {α : Type} (fs : Nat) (sfsOp : SfsM α) (emufsOp : EmufsM α) : VfsM α := do
  let s ← Proc.get
  match s.fs fs with
  | .sfs v => zoom (fun _ => v) (fun s v => s.setFs fs (.sfs v)) sfsOp
  | .emufs e => zoom (fun _ => e) (fun s e => s.setFs fs (.emufs e)) emufsOp

def setDev (d : Nat) (v : VnodeCounts) : VfsM Unit :=
  Proc.modify fun s => { s with devCounts := Function.update s.devCounts d v }

def devCheck (d : Nat) (op : Vop) : VfsM Unit := do
  let s ← Proc.get
  liftVfs (vnodeCheck (s.devCounts d) op)

def nodeIncref : Node → VfsM Unit
  | .file fs ino => onFs fs (vopIncref ino) (emufsIncref ino)
  | .device d => do
    let s ← Proc.get
    setDev d (vnodeIncref (s.devCounts d))

/-- `dev_reclaim` does nothing. -/
def nodeDecref : Node → VfsM Unit
  | .file fs ino => onFs fs (decref ino) (emufsDecref ino)
  | .device d => do
    let s ← Proc.get
    let (v, reclaim) ← liftVfs (vnodeDecref (s.devCounts d))
    setDev d v
    if reclaim = true then devCheck d .reclaim

def nodeLookup (dir : Node) (path : CString) : VfsM Node :=
  match dir with
  | .file fs d => do
    let ino ← onFs fs (vopLookup d path) (emufsDirop d .lookup (emufsLookup d path))
    pure (.file fs ino)
  | .device d => do
    devCheck d .lookup
    if 0 < strlen path then throw .enoent
    nodeIncref (.device d)
    pure (.device d)

def nodeLookparent (dir : Node) (path : CString) (buflen : Nat) : VfsM (Node × CString) :=
  match dir with
  | .file fs d => do
    let (ino, name) ← onFs fs (vopLookparent d path buflen) (emufsDirop d .lookparent (emufsLookparent d path buflen))
    pure (.file fs ino, name)
  | .device d => do
    devCheck d .lookparent
    throw .enotdir

/-! ## Where a path begins -/

def CString.skipSlashes (s : CString) : CString :=
  ⟨s.chars.dropWhile (· == slash), fun h => s.noNul ((List.dropWhile_suffix _).subset h)⟩

def CString.name (s : CString) : String := String.ofList (s.chars.map Char.ofUInt8)

inductive PathStart
  | cwd
  | device (name : CString)
  /-- `/path`. -/
  | bootfs
  /-- `:path`. -/
  | current

def splitPath (path : CString) : PathStart × CString :=
  let i := path.chars.findIdx fun ch => ch == colon || ch == slash
  if path.byte i = colon then
    if 0 < i then (.device (path.upto i), (path.skip (i + 1)).skipSlashes) else (.current, (path.skip 1).skipSlashes)
  else if path.byte i = slash ∧ i = 0 then (.bootfs, (path.skip 1).skipSlashes)
  else (.cwd, path)

def vfsGetcurdir : VfsM Node := do
  let s ← Proc.get
  match s.tCwd with
  | some vn =>
    nodeIncref vn
    pure vn
  | none => throw .enoent

def fsopGetroot (fs : Nat) : VfsM Node := do
  let s ← Proc.get
  onFs fs sfsGetroot emufsGetroot
  pure (.file fs (s.fs fs).root)

def getrootNode (devname : CString) : VfsM Node := do
  let s ← Proc.get
  let r ← liftVfs (vfsGetroot s.knowndevs devname.name)
  match ← done r with
  | .fs fs => fsopGetroot fs.id
  | .device d =>
    nodeIncref (.device d)
    pure (.device d)

def getdevice (path : CString) : VfsM (Node × CString) := do
  let (start, subpath) := splitPath path
  match start with
  | .cwd =>
    let vn ← vfsGetcurdir
    pure (vn, subpath)
  | .device name =>
    let vn ← getrootNode name
    pure (vn, subpath)
  | .bootfs =>
    let s ← Proc.get
    match s.bootfsVnode with
    | some vn =>
      nodeIncref vn
      pure (vn, subpath)
    | none => throw .enoent
  | .current =>
    match ← vfsGetcurdir with
    | .device _ => crash (.assertionFailed .cwdHasFs)
    | .file fs ino =>
      let startvn ← fsopGetroot fs
      nodeDecref (.file fs ino)
      pure (startvn, subpath)

/-! ## The characters of a path

`getdevice` again, on the array of characters that ends with the terminator.
Strings in kernel memory are shorter than `2 ^ 31`. -/

def CString.buf (s : CString) : List UInt8 := s.chars ++ [0]

def pathByte (buf : List UInt8) (i : Nat) : Except FsPanic UInt8 :=
  match buf[i]? with
  | none => .error .pathOverrun
  | some ch => .ok ch

def scanPath (path : List UInt8) : Nat → Nat → Except FsPanic (Int × Int)
  | 0, _ => .error .pathOverrun
  | rounds + 1, i => do
    let ch ← pathByte path i
    if ch = 0 then .ok (-1, -1)
    else if ch = Os161.colon then .ok (i, -1)
    else if ch = Os161.slash then .ok (-1, i)
    else scanPath path rounds (i + 1)

def skipSlashesAt (path : List UInt8) : Nat → Nat → Except FsPanic Nat
  | 0, _ => .error .pathOverrun
  | rounds + 1, p => do
    let ch ← pathByte path (p + 1)
    if ch = slash then skipSlashesAt path rounds (p + 1) else .ok p

def leadingVnode (ch : UInt8) : VfsM Node :=
  if ch = slash then do
    let s ← Proc.get
    match s.bootfsVnode with
    | none => throw .enoent
    | some vn =>
      nodeIncref vn
      pure vn
  else do
    Proc.require (ch = colon) (.assertionFailed .leadingColon)
    match ← vfsGetcurdir with
    | .device _ => crash (.assertionFailed .cwdHasFs)
    | .file fs ino =>
      let startvn ← fsopGetroot fs
      nodeDecref (.file fs ino)
      pure startvn

/-- The vnode, the index of the subpath and the characters afterwards. -/
def getdeviceBuf (path : List UInt8) : VfsM (Node × Nat × List UInt8) := do
  let (colonAt, slashAt) ← liftVfs (scanPath path path.length 0)
  if colonAt < 0 ∧ slashAt ≠ 0 then
    let vn ← vfsGetcurdir
    pure (vn, 0, path)
  else if colonAt > 0 then
    let path := path.set colonAt.toNat 0
    let colonAt ← liftVfs (skipSlashesAt path path.length colonAt.toNat)
    let vn ← getrootNode (stringAt path 0)
    pure (vn, colonAt + 1, path)
  else
    Proc.require (colonAt = 0 ∨ slashAt = 0) (.assertionFailed .prefixFound)
    let ch ← liftVfs (pathByte path 0)
    let vn ← leadingVnode ch
    let p ← liftVfs (skipSlashesAt path path.length 0)
    pure (vn, p + 1, path)

def nameMax : Nat := 255

def vfsLookparent (path : CString) : VfsM (Node × CString) := do
  let (startvn, subpath) ← getdevice path
  let r ← attempt (if strlen subpath = 0 then throw .einval else nodeLookparent startvn subpath (nameMax + 1))
  nodeDecref startvn
  done r

def vfsLookup (path : CString) : VfsM Node := do
  let (startvn, subpath) ← getdevice path
  if strlen subpath = 0 then pure startvn
  else
    let r ← attempt (nodeLookup startvn subpath)
    nodeDecref startvn
    done r

end Os161
