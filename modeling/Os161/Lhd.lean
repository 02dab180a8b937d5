import Os161.SfsVnode

/-!
# Block I/O on the disk

`lhd_io` of `dev/lamebus/lhd.c` as the device routine of `sfs_rwblock`,
`sfs_rblock` and `sfs_wblock` of `fs/sfs/sfs_io.c`, and the part of
`sfs_blockio` around the call. Offsets are 32-bit `off_t`, and sector numbers
are unsigned words. Another thread that wants the device waits for it.
-/

namespace Os161.Lhd

open Bytes

def sectsize : Nat := 512

/-- The disk with its buffer. `outcome k` says whether operation `k` succeeds
or ends with a media error, and `next` operations have been started. `moved`
counts for each sector how often it has been transferred. -/
structure Disk where
  blocks : Nat
  sectors : Nat → Mem
  buf : Mem
  outcome : Nat → Bool
  next : Nat
  moved : Nat → Nat

inductive DiskPanic
  | uio (p : Panic)
  /-- sfs: d_io returned EINVAL -/
  | einval
  /-- `assert(uio->uio_resid >= SFS_BLOCKSIZE)` -/
  | residIsBlock
  deriving DecidableEq, Repr

def operate (d : Disk) (sector : Nat) (rw : UioRw) : Option Errno × Disk :=
  if d.blocks ≤ sector then (some .einval, { d with next := d.next + 1 })
  else if d.outcome d.next then
    match rw with
    | .write => (none, { d with
        next := d.next + 1
        sectors := Function.update d.sectors sector d.buf
        moved := Function.update d.moved sector (d.moved sector + 1) })
    | .read => (none, { d with
        next := d.next + 1
        buf := d.sectors sector
        moved := Function.update d.moved sector (d.moved sector + 1) })
  else (some .eio, { d with next := d.next + 1 })

def moveSector (mapped : Bool) (ptr : Mem) (x : Xfer) : Except DiskPanic (Option Errno × Mem × Xfer) :=
  if mapped = false ∧ 0 < x.uio.uioResid then .ok (some .efault, ptr, x)
  else match uiomove ptr x.buf sectsize x.uio with
    | .error p => .error (.uio p)
    | .ok (ptr, buf, uio) => .ok (none, ptr, { buf := buf, uio := uio })

def lhdIoLoop (mapped : Bool) : Nat → Nat → Disk → Xfer → Except DiskPanic (Option Errno × Disk × Xfer)
  | 0, _, d, x => .ok (none, d, x)
  | left + 1, sector, d, x =>
    match x.uio.uioRw with
    | .write => do
      let (r, buf, x) ← moveSector mapped d.buf x
      match r with
      | some e => .ok (some e, d, x)
      | none =>
        match operate { d with buf := buf } (u32 sector) .write with
        | (some e, d) => .ok (some e, d, x)
        | (none, d) => lhdIoLoop mapped left (sector + 1) d x
    | .read =>
      match operate d (u32 sector) .read with
      | (some e, d) => .ok (some e, d, x)
      | (none, d) => do
        let (r, _, x) ← moveSector mapped d.buf x
        match r with
        | some e => .ok (some e, d, x)
        | none => lhdIoLoop mapped left (sector + 1) d x

def lhdIo (mapped : Bool) (d : Disk) (x : Xfer) : Except DiskPanic (Option Errno × Disk × Xfer) :=
  let off := offT x.uio.uioOffset
  let sector := toU32 (off.tdiv sectsize)
  let len := x.uio.uioResid / sectsize
  if off.tmod sectsize ≠ 0 ∨ x.uio.uioResid % sectsize ≠ 0 then .ok (some .einval, d, x)
  else if d.blocks < u32 (sector + len) then .ok (some .einval, d, x)
  else lhdIoLoop mapped len sector d x

def sfsRwblockLoop (mapped : Bool) : Nat → Disk → Xfer → Except DiskPanic (Option Errno × Disk × Xfer)
  | 0, d, x => do
    let (r, d, x) ← lhdIo mapped d x
    if r = some .einval then .error .einval else .ok (r, d, x)
  | tries + 1, d, x => do
    let (r, d, x) ← lhdIo mapped d x
    if r = some .einval then .error .einval
    else if r = some .eio then sfsRwblockLoop mapped tries d x
    else .ok (r, d, x)

def sfsRwblock (mapped : Bool) (d : Disk) (x : Xfer) : Except DiskPanic (Option Errno × Disk × Xfer) :=
  sfsRwblockLoop mapped 10 d x

def sfsuio (block : Nat) (rw : UioRw) : Uio := { mkKuio sfsBlocksize 0 rw with uioOffset := diskoff block }

def sfsRblock (d : Disk) (data : Mem) (block : Nat) : Except DiskPanic (Option Errno × Disk × Xfer) :=
  sfsRwblock true d { buf := data, uio := sfsuio block .read }

def sfsWblock (d : Disk) (data : Mem) (block : Nat) : Except DiskPanic (Option Errno × Disk × Xfer) :=
  sfsRwblock true d { buf := data, uio := sfsuio block .write }

def devUio (u : Uio) (diskblock : Nat) : Uio := { u with uioOffset := diskoff diskblock, uioResid := sfsBlocksize }

def restoreUio (u dev : Uio) (diskblock : Nat) : Uio :=
  { dev with
    uioOffset := dev.uioOffset - diskoff diskblock + u.uioOffset
    uioResid := toU32 (dev.uioResid - sfsBlocksize + u.uioResid) }

def blockioDevice (mapped : Bool) (d : Disk) (x : Xfer) (diskblock : Nat) :
    Except DiskPanic (Option Errno × Disk × Xfer) :=
  if x.uio.uioResid < sfsBlocksize then .error .residIsBlock
  else do
    let (r, d, y) ← sfsRwblock mapped d { x with uio := devUio x.uio diskblock }
    .ok (r, d, { y with uio := restoreUio x.uio y.uio diskblock })

end Os161.Lhd
