import Mathlib.Data.List.FinRange
import Os161.Sfs

/-!
# SFS: files, directories and vnodes

`sfs_vnode.c`. A `uio` comes with the memory it describes; offsets are not
negative. A routine that may have moved data before it fails hands its error
code back as a value, with the `uio`.
-/

namespace Os161

open Bytes Proc

/-! ## Block mapping -/

def Inode.setDirect (i : Inode) (k : Fin sfsNdirect) (block : Nat) : Inode :=
  { i with sfiDirect := Function.update i.sfiDirect k block }

def checkMapped (block fileblock ino : Nat) : SfsM Unit := do
  if block ≠ 0 then
    let used ← sfsBused block
    if used = false then crash (.dataBlockFree block fileblock ino)

def ballocDirect (ino : Nat) (k : Fin sfsNdirect) : SfsM Nat := do
  let block ← sfsBalloc
  modifySv ino fun sv => { sv with svI := sv.svI.setDirect k block, svDirty := true }
  pure block

def sfsBmapDirect (ino : Nat) (k : Fin sfsNdirect) (doalloc : Bool) : SfsM Nat := do
  let sv ← getSv ino
  let block ← if sv.svI.sfiDirect k = 0 ∧ doalloc = true then ballocDirect ino k else pure (sv.svI.sfiDirect k)
  checkMapped block k ino
  pure block

def loadIndirect (ino idblock : Nat) : SfsM (Nat × (Nat → Nat)) := do
  if idblock = 0 then
    let idblock ← sfsBalloc
    modifySv ino fun sv => { sv with svI := { sv.svI with sfiIndirect := idblock }, svDirty := true }
    pure (idblock, fun _ => 0)
  else
    let b ← sfsRblock idblock
    pure (idblock, readWords b)

def ballocEntry (idblock : Nat) (idbuf : Nat → Nat) (idoff : Nat) : SfsM Nat := do
  let block ← sfsBalloc
  sfsWblock (wordsBlock (Function.update idbuf idoff block)) idblock
  pure block

def sfsBmapIndirect (ino fileblock : Nat) (doalloc : Bool) : SfsM Nat := do
  let idoff := fileblock % sfsDbperidb
  let sv ← getSv ino
  if sv.svI.sfiIndirect = 0 ∧ doalloc = false then pure 0
  else
    let (idblock, idbuf) ← loadIndirect ino sv.svI.sfiIndirect
    let block ← if idbuf idoff = 0 ∧ doalloc = true then ballocEntry idblock idbuf idoff else pure (idbuf idoff)
    checkMapped block fileblock ino
    pure block

def sfsBmap (ino fileblock : Nat) (doalloc : Bool) : SfsM Nat :=
  if h : fileblock < sfsNdirect then sfsBmapDirect ino ⟨fileblock, h⟩ doalloc
  else if 0 < (fileblock - sfsNdirect) / sfsDbperidb then throw .einval
  else sfsBmapIndirect ino (fileblock - sfsNdirect) doalloc

/-! ## File I/O -/

structure Xfer where
  buf : Mem
  uio : Uio

def mkKuio (len pos : Nat) (rw : UioRw) : Uio :=
  { iovKbase := 0, iovLen := len, uioOffset := pos, uioResid := len, uioRw := rw }

def liftUio {α : Type} (r : Except Panic α) : SfsM α :=
  match r with
  | .ok a => pure a
  | .error p => crash (.uio p)

def splice (iobuf : Mem) (skip : Nat) (part : Mem) : Mem := fun y => if y < skip then iobuf y else part (y - skip)

def loadBlock (rw : UioRw) (diskblock : Nat) : SfsM Mem := do
  if diskblock = 0 then
    assertFs (rw = .read) .uioIsRead
    pure zeroBlock
  else sfsRblock diskblock

def storeBlock (rw : UioRw) (iobuf : Mem) (diskblock : Nat) : SfsM Unit :=
  match rw with
  | .read => pure ()
  | .write => sfsWblock iobuf diskblock

def sfsPartialio (ino : Nat) (x : Xfer) (skipstart len : Nat) : SfsM (Option Errno × Xfer) := do
  assertFs (skipstart + len ≤ sfsBlocksize) .partFitsBlock
  match ← attempt (sfsBmap ino (x.uio.uioOffset.toNat / sfsBlocksize) (x.uio.uioRw == .write)) with
  | .error e => pure (some e, x)
  | .ok diskblock =>
    match ← attempt (loadBlock x.uio.uioRw diskblock) with
    | .error e => pure (some e, x)
    | .ok iobuf =>
      let (part, buf, uio) ← liftUio (uiomove (fun k => iobuf (skipstart + k)) x.buf len x.uio)
      match ← attempt (storeBlock x.uio.uioRw (splice iobuf skipstart part) diskblock) with
      | .error e => pure (some e, { buf := buf, uio := uio })
      | .ok _ => pure (none, { buf := buf, uio := uio })

def rwblock (x : Xfer) (diskblock : Nat) : SfsM Xfer :=
  match x.uio.uioRw with
  | .read => do
    let data ← sfsRblock diskblock
    let (_, buf, uio) ← liftUio (uiomove data x.buf sfsBlocksize x.uio)
    pure { buf := buf, uio := uio }
  | .write => do
    let (data, buf, uio) ← liftUio (uiomove zeroBlock x.buf sfsBlocksize x.uio)
    sfsWblock data diskblock
    pure { buf := buf, uio := uio }

def blockioDevice (x : Xfer) (diskblock : Nat) : SfsM (Option Errno × Xfer) := do
  assertFs (sfsBlocksize ≤ x.uio.uioResid) .residIsBlock
  let diskoff : Int := diskblock * sfsBlocksize
  match ← attempt (rwblock { x with uio := { x.uio with uioOffset := diskoff, uioResid := sfsBlocksize } }
      diskblock) with
  | .error e => pure (some e, x)
  | .ok y =>
    pure (none, { y with uio := { y.uio with
      uioOffset := y.uio.uioOffset - diskoff + x.uio.uioOffset
      uioResid := u32 (y.uio.uioResid + (x.uio.uioResid - sfsBlocksize)) } })

def sfsBlockio (ino : Nat) (x : Xfer) : SfsM (Option Errno × Xfer) := do
  match ← attempt (sfsBmap ino (x.uio.uioOffset.toNat / sfsBlocksize) (x.uio.uioRw == .write)) with
  | .error e => pure (some e, x)
  | .ok diskblock =>
    if diskblock = 0 then
      assertFs (x.uio.uioRw = .read) .uioIsRead
      let (buf, uio) ← liftUio (uiomovezeros x.buf sfsBlocksize x.uio)
      pure (none, { buf := buf, uio := uio })
    else blockioDevice x diskblock

def blockLoop (ino : Nat) : Nat → Xfer → SfsM (Option Errno × Xfer)
  | 0, x => pure (none, x)
  | n + 1, x => do
    match ← sfsBlockio ino x with
    | (some e, x) => pure (some e, x)
    | (none, x) => blockLoop ino n x

def sfsIoAligned (ino : Nat) (x : Xfer) : SfsM (Option Errno × Xfer) := do
  assertFs (x.uio.uioOffset.toNat % sfsBlocksize = 0) .offsetAligned
  match ← blockLoop ino (x.uio.uioResid / sfsBlocksize) x with
  | (some e, x) => pure (some e, x)
  | (none, x) =>
    assertFs (x.uio.uioResid < sfsBlocksize) .residBelowBlock
    if 0 < x.uio.uioResid then sfsPartialio ino x 0 x.uio.uioResid else pure (none, x)

def sfsIoBody (ino : Nat) (x : Xfer) : SfsM (Option Errno × Xfer) := do
  let blkoff := x.uio.uioOffset.toNat % sfsBlocksize
  let r ←
    if blkoff ≠ 0 then sfsPartialio ino x blkoff (min (sfsBlocksize - blkoff) x.uio.uioResid) else pure (none, x)
  match r with
  | (some e, x) => pure (some e, x)
  | (none, x) => if x.uio.uioResid = 0 then pure (none, x) else sfsIoAligned ino x

/-- A read stops at the end of the file; what lies behind it is added back
to the residue. -/
def sfsIoRead (ino : Nat) (x : Xfer) (size : Int) : SfsM (Option Errno × Xfer) := do
  let endpos := toOff (u32 (x.uio.uioOffset.toNat + x.uio.uioResid))
  if size ≤ x.uio.uioOffset then pure (none, x)
  else if size < endpos then
    let extraresid := (endpos - size).toNat
    assertFs (extraresid < x.uio.uioResid) .residBeyondEof
    let (e, x) ← sfsIoBody ino { x with uio := { x.uio with uioResid := x.uio.uioResid - extraresid } }
    pure (e, { x with uio := { x.uio with uioResid := u32 (x.uio.uioResid + extraresid) } })
  else sfsIoBody ino x

/-- The file grows to where the transfer has come, even if it has failed. -/
def sfsIoWrite (ino : Nat) (x : Xfer) : SfsM (Option Errno × Xfer) := do
  let (e, x) ← sfsIoBody ino x
  let sv ← getSv ino
  if toOff sv.svI.sfiSize < x.uio.uioOffset then
    modifySv ino fun sv =>
      { sv with svI := { sv.svI with sfiSize := u32 x.uio.uioOffset.toNat }, svDirty := true }
  pure (e, x)

def sfsIo (ino : Nat) (x : Xfer) : SfsM (Option Errno × Xfer) := do
  let sv ← getSv ino
  match x.uio.uioRw with
  | .read => sfsIoRead ino x (toOff sv.svI.sfiSize)
  | .write => sfsIoWrite ino x

/-! ## Directory I/O -/

def throwIf : Option Errno → SfsM Unit
  | some e => throw e
  | none => pure ()

def sfsReaddir (ino slot : Nat) : SfsM Mem := do
  let (e, x) ← sfsIo ino { buf := zeroBlock, uio := mkKuio dirSize (slot * dirSize) .read }
  throwIf e
  if 0 < x.uio.uioResid then crash (.shortEntry ino)
  pure x.buf

def sfsWritedir (ino : Nat) (sd : Mem) (slot : Nat) : SfsM Unit := do
  let (e, x) ← sfsIo ino { buf := sd, uio := mkKuio dirSize (slot * dirSize) .write }
  throwIf e
  if 0 < x.uio.uioResid then crash (.shortWrite ino)

def sfsDirNentries (ino : Nat) : SfsM Nat := do
  let sv ← getSv ino
  assertFs (sv.svI.sfiType = sfsTypeDir) .isDirectory
  if sv.svI.sfiSize % dirSize ≠ 0 then crash (.invalidDirSize ino sv.svI.sfiSize)
  pure (sv.svI.sfiSize / dirSize)

structure DirFound where
  found : Option (Nat × Nat)
  emptyslot : Option Nat

def findLoop (ino : Nat) (name : CString) : (n i : Nat) → DirFound → SfsM DirFound
  | 0, _, r => pure r
  | n + 1, i, r => do
    let tsd ← sfsReaddir ino i
    if entryIno tsd = sfsNoino then findLoop ino name n (i + 1) { r with emptyslot := some i }
    else if entryName tsd = name.chars then
      assertFs (r.found = none) .foundOnce
      findLoop ino name n (i + 1) { r with found := some (entryIno tsd, i) }
    else findLoop ino name n (i + 1) r

/-- `ENOENT` is a result without `found`. -/
def sfsDirFindname (ino : Nat) (name : CString) : SfsM DirFound := do
  let nentries ← sfsDirNentries ino
  findLoop ino name nentries 0 { found := none, emptyslot := none }

def sfsDirLink (dir : Nat) (name : CString) (ino : Nat) : SfsM Nat := do
  let r ← sfsDirFindname dir name
  if r.found ≠ none then throw .eexist
  if sfsNamelen < strlen name + 1 then throw .enametoolong
  let slot ← match r.emptyslot with
    | some slot => pure slot
    | none => sfsDirNentries dir
  sfsWritedir dir (dirEntry ino name) slot
  pure slot

def sfsDirUnlink (dir slot : Nat) : SfsM Unit := sfsWritedir dir zeroBlock slot

/-! ## Loading vnodes -/

def scanVnodes (ino : Nat) : List SfsVnode → SfsM Bool
  | [] => pure false
  | sv :: l => do
    let used ← sfsBused sv.svIno
    if used = false then crash (.foundInUnallocated sv.svIno)
    if sv.svIno = ino then pure true else scanVnodes ino l

def forceType (i : Inode) (forcetype : Nat) : SfsM (Inode × Bool) := do
  if forcetype ≠ sfsTypeInval then
    assertFs (i.sfiType = sfsTypeInval) .typeIsInval
    pure ({ i with sfiType := forcetype }, true)
  else pure (i, false)

def readVnode (ino forcetype : Nat) : SfsM Unit := do
  if ← nextFault then throw .enomem
  let used ← sfsBused ino
  if used = false then crash (.loadFromUnallocated ino)
  let b ← sfsRblock ino
  let (i, dirty) ← forceType (readInode b) forcetype
  if i.sfiType ≠ sfsTypeFile ∧ i.sfiType ≠ sfsTypeDir then crash (.invalidInodeType ino i.sfiType)
  if ← nextFault then throw .enomem
  if ← nextFault then throw .enomem
  Proc.modify fun s =>
    { s with sfsVnodes := s.sfsVnodes ++ [{ svV := vnodeInit, svI := i, svIno := ino, svDirty := dirty }] }

def sfsLoadvnode (ino forcetype : Nat) : SfsM Unit := do
  let s ← Proc.get
  if ← scanVnodes ino s.sfsVnodes then
    assertFs (forcetype = sfsTypeInval) .typeNotForced
    modifySv ino fun sv => { sv with svV := vnodeIncref sv.svV }
  else readVnode ino forcetype

def sfsGetroot : SfsM Unit := do
  match ← attempt (sfsLoadvnode sfsRootLocation sfsTypeInval) with
  | .ok _ => pure ()
  | .error _ => crash .cannotLoadRoot

def sfsLookonce (dir : Nat) (name : CString) : SfsM (Nat × Nat) := do
  let r ← sfsDirFindname dir name
  match r.found with
  | none => throw .enoent
  | some (ino, slot) =>
    sfsLoadvnode ino sfsTypeInval
    let sv ← getSv ino
    if sv.svI.sfiLinkcount = 0 then crash (.linkCountZero ino dir)
    pure (ino, slot)

def sfsMakeobj (type : Nat) : SfsM Nat := do
  let ino ← sfsBalloc
  sfsLoadvnode ino type
  pure ino

/-! ## Truncating and reclaiming -/

def wrapOff (n : Int) : Int := toOff (n % 2 ^ 32).toNat

def blocklen (len : Int) : Nat := ((wrapOff (len + (sfsBlocksize - 1 : Nat))).tdiv sfsBlocksize % 2 ^ 32).toNat

def truncDirect (ino blocklen : Nat) : List (Fin sfsNdirect) → SfsM Unit
  | [] => pure ()
  | k :: l => do
    let sv ← getSv ino
    if blocklen ≤ k ∧ sv.svI.sfiDirect k ≠ 0 then
      sfsBfree (sv.svI.sfiDirect k)
      modifySv ino fun sv => { sv with svI := sv.svI.setDirect k 0, svDirty := true }
    truncDirect ino blocklen l

structure IdScan where
  idbuf : Nat → Nat
  hasnonzero : Bool
  iddirty : Bool

def truncEntries (blocklen : Nat) : List Nat → IdScan → SfsM IdScan
  | [], r => pure r
  | j :: l, r => do
    if blocklen < sfsNdirect + j ∧ r.idbuf j ≠ 0 then
      sfsBfree (r.idbuf j)
      truncEntries blocklen l { r with idbuf := Function.update r.idbuf j 0, iddirty := true }
    else truncEntries blocklen l { r with hasnonzero := r.hasnonzero || r.idbuf j != 0 }

def truncIndirect (ino blocklen idblock : Nat) : SfsM Unit := do
  let b ← sfsRblock idblock
  let r ← truncEntries blocklen (List.range sfsDbperidb) { idbuf := readWords b, hasnonzero := false, iddirty := false }
  if r.hasnonzero = false then
    sfsBfree idblock
    modifySv ino fun sv => { sv with svI := { sv.svI with sfiIndirect := 0 }, svDirty := true }
  else if r.iddirty = true then sfsWblock (wordsBlock r.idbuf) idblock

def sfsTruncate (ino : Nat) (len : Int) : SfsM Unit := do
  truncDirect ino (blocklen len) (List.finRange sfsNdirect)
  let sv ← getSv ino
  if blocklen len < sfsNdirect + sfsDbperidb - 1 ∧ sv.svI.sfiIndirect ≠ 0 then
    truncIndirect ino (blocklen len) sv.svI.sfiIndirect
  modifySv ino fun sv => { sv with svI := { sv.svI with sfiSize := (len % 2 ^ 32).toNat }, svDirty := true }

def liftFs {α : Type} (r : Except FsPanic α) : SfsM α :=
  match r with
  | .ok a => pure a
  | .error p => crash p

def vopCheck (ino : Nat) (op : Vop) : SfsM SfsVnode := do
  let sv ← getSv ino
  liftFs (vnodeCheck sv.svV op)
  pure sv

def fileOp {α : Type} (ino : Nat) (op : Vop) (p : SfsM α) : SfsM α := do
  let sv ← vopCheck ino op
  if sv.svI.sfiType = sfsTypeDir then throw .eisdir
  p

def dirOp {α : Type} (ino : Nat) (op : Vop) (p : SfsM α) : SfsM α := do
  let sv ← vopCheck ino op
  if sv.svI.sfiType ≠ sfsTypeDir then throw .enotdir
  p

def vopTruncate (ino : Nat) (len : Int) : SfsM Unit := fileOp ino .truncate (sfsTruncate ino len)

def vopFsync (ino : Nat) : SfsM Unit := do
  let _ ← vopCheck ino .fsync
  sfsSyncInode ino

def vopClose (ino : Nat) : SfsM Unit := do
  let _ ← vopCheck ino .close
  vopFsync ino

def sfsReclaim (ino : Nat) : SfsM Unit := do
  let sv ← getSv ino
  if sv.svV.vnRefcount ≠ 1 then
    assertFs (1 < sv.svV.vnRefcount) .referencedTwice
    modifySv ino fun sv => { sv with svV := { sv.svV with vnRefcount := sv.svV.vnRefcount - 1 } }
    throw .ebusy
  if sv.svI.sfiLinkcount = 0 then vopTruncate ino 0
  sfsSyncInode ino
  if sv.svI.sfiLinkcount = 0 then sfsBfree ino
  let _ ← liftFs (vnodeKill sv.svV)
  Proc.modify fun s => { s with sfsVnodes := Table.remove SfsVnode.svIno s.sfsVnodes ino }

def vopReclaim (ino : Nat) : SfsM Unit := do
  let _ ← vopCheck ino .reclaim
  sfsReclaim ino

def vopIncref (ino : Nat) : SfsM Unit := do
  let _ ← getSv ino
  modifySv ino fun sv => { sv with svV := vnodeIncref sv.svV }

/-- What `VOP_RECLAIM` returns is only printed. -/
def decref (ino : Nat) : SfsM Unit := do
  let sv ← getSv ino
  let (c, reclaim) ← liftFs (vnodeDecref sv.svV)
  modifySv ino fun sv => { sv with svV := c }
  if reclaim = true then
    let _ ← attempt (vopReclaim ino)

def incopen (ino : Nat) : SfsM Unit := do
  let _ ← getSv ino
  modifySv ino fun sv => { sv with svV := vnodeIncopen sv.svV }

/-- What `VOP_CLOSE` returns is only printed. -/
def decopen (ino : Nat) : SfsM Unit := do
  let sv ← getSv ino
  let (c, close) ← liftFs (vnodeDecopen sv.svV)
  modifySv ino fun sv => { sv with svV := c }
  if close = true then
    let _ ← attempt (vopClose ino)

/-! ## Operations of vnodes -/

def modifyLinkcount (ino : Nat) (f : Nat → Nat) : SfsM Unit :=
  modifySv ino fun sv => { sv with svI := { sv.svI with sfiLinkcount := f sv.svI.sfiLinkcount }, svDirty := true }

/-- `sfi_linkcount` has sixteen bits. -/
def incLink (n : Nat) : Nat := (n + 1) % 2 ^ 16

def decLink (n : Nat) : Nat := (n + (2 ^ 16 - 1)) % 2 ^ 16

def sfsCreatNew (dir : Nat) (name : CString) : SfsM Nat := do
  let newguy ← sfsMakeobj sfsTypeFile
  match ← attempt (sfsDirLink dir name newguy) with
  | .error e =>
    decref newguy
    throw e
  | .ok _ =>
    modifyLinkcount newguy incLink
    pure newguy

def sfsCreat (dir : Nat) (name : CString) (excl : Bool) : SfsM Nat := do
  let r ← sfsDirFindname dir name
  match r.found with
  | some (ino, _) =>
    if excl = true then throw .eexist
    sfsLoadvnode ino sfsTypeInval
    pure ino
  | none => sfsCreatNew dir name

def sfsLink (dir : Nat) (name : CString) (file : Nat) : SfsM Unit := do
  let _ ← sfsDirLink dir name file
  modifyLinkcount file incLink

def sfsRemove (dir : Nat) (name : CString) : SfsM Unit := do
  let (victim, slot) ← sfsLookonce dir name
  match ← attempt (sfsDirUnlink dir slot) with
  | .error e =>
    decref victim
    throw e
  | .ok _ =>
    let sv ← getSv victim
    assertFs (0 < sv.svI.sfiLinkcount) .linkcountPositive
    modifyLinkcount victim (· - 1)
    decref victim

def renameUnlink (dir g1 slot1 slot2 : Nat) : SfsM Unit := do
  match ← attempt (sfsDirUnlink dir slot1) with
  | .ok _ =>
    let sv ← getSv g1
    assertFs (0 < sv.svI.sfiLinkcount) .linkcountPositive
    modifyLinkcount g1 (· - 1)
    decref g1
  | .error e =>
    match ← attempt (sfsDirUnlink dir slot2) with
    | .error _ => crash .cannotRecover
    | .ok _ =>
      modifySv g1 fun sv => { sv with svI := { sv.svI with sfiLinkcount := decLink sv.svI.sfiLinkcount } }
      decref g1
      throw e

/-- The two directories are the same. -/
def sfsRename (dir : Nat) (n1 n2 : CString) : SfsM Unit := do
  assertFs (dir = sfsRootLocation) .isRoot
  let (g1, slot1) ← sfsLookonce dir n1
  let sv ← getSv g1
  assertFs (sv.svI.sfiType = sfsTypeFile) .isFile
  match ← attempt (sfsDirLink dir n2 g1) with
  | .error e =>
    decref g1
    throw e
  | .ok slot2 =>
    modifyLinkcount g1 incLink
    renameUnlink dir g1 slot1 slot2

def sfsLookup (dir : Nat) (path : CString) : SfsM Nat := do
  let (ino, _) ← sfsLookonce dir path
  pure ino

def vopCreat (dir : Nat) (name : CString) (excl : Bool) : SfsM Nat := dirOp dir .creat (sfsCreat dir name excl)

def vopLink (dir : Nat) (name : CString) (file : Nat) : SfsM Unit := dirOp dir .link (sfsLink dir name file)

def vopRemove (dir : Nat) (name : CString) : SfsM Unit := dirOp dir .remove (sfsRemove dir name)

def vopRename (dir : Nat) (n1 n2 : CString) : SfsM Unit := dirOp dir .rename (sfsRename dir n1 n2)

def vopLookup (dir : Nat) (path : CString) : SfsM Nat := dirOp dir .lookup (sfsLookup dir path)

def sfsLookparent (dir : Nat) (path : CString) (buflen : Nat) : SfsM (Nat × CString) := do
  if buflen < strlen path + 1 then throw .enametoolong
  vopIncref dir
  pure (dir, path)

def vopLookparent (dir : Nat) (path : CString) (buflen : Nat) : SfsM (Nat × CString) :=
  dirOp dir .lookparent (sfsLookparent dir path buflen)

def sfsRead (ino : Nat) (x : Xfer) : SfsM (Option Errno × Xfer) := fileOp ino .read (sfsIo ino x)

def sfsWrite (ino : Nat) (x : Xfer) : SfsM (Option Errno × Xfer) := fileOp ino .write (sfsIo ino x)

end Os161
