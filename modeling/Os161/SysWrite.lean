import Os161.Filetable
import Os161.Pt

/-!
# The write system call

`sys_write` of `write.c`. It gives `VOP_WRITE` a `uio` for kernel memory
(`mk_kuio`), so the bytes are loaded by the kernel from the program's
address on, whatever is there.
-/

namespace Os161

/-- What `sys_write` works on. `user` is what a load from an address of the
program comes to once `vm_fault` has let it through, `kernel` the memory from
`MIPS_KSEG0` on; `writelock` says whether there is one. -/
structure WriteSys where
  space : AddrSpace
  ft : Filetable
  writelock : Bool
  user : Nat → Except Panic UInt8
  kernel : Nat → Except Panic UInt8

def kernelLoad (k : WriteSys) (x : Nat) : Except Panic UInt8 :=
  if x < mipsKseg0 then
    match faultSegment k.space .read (x &&& pageFrame) with
    | .error why => .error why
    | .ok (.inr _) => .error .threadExit
    | .ok (.inl _) => k.user x
  else k.kernel x

/-- `VOP_WRITE` may be any procedure that takes the bytes of the `uio` in
order. Given those it has taken, `act` says that it wants another one, or
what it returns. The bytes come with the addresses they were loaded from. -/
def vopWrite (k : WriteSys) (act : List UInt8 → Option (Option Errno)) :
    (resid base : Nat) → List (Nat × UInt8) → List (Nat × UInt8) × Except Panic (Option Errno × Nat)
  | 0, _, sent => (sent, .ok ((act (sent.map Prod.snd)).getD none, 0))
  | resid + 1, base, sent =>
    match act (sent.map Prod.snd) with
    | some result => (sent, .ok (result, resid + 1))
    | none =>
      match kernelLoad k base with
      | .error why => (sent, .error why)
      | .ok b => vopWrite k act resid (u32 (base + 1)) (sent ++ [(base, b)])

inductive WriteResult
  | returns (e : Errno)
  | wrote (retval : Int)
  | stops (why : Panic)
  | fails (why : FtFault)
  deriving DecidableEq, Repr

structure Written where
  result : WriteResult
  sent : List (Nat × UInt8)
  ft : Filetable
  writelock : Bool

def writeVnode (k : WriteSys) (dev : Nat → Int → List UInt8 → Option (Option Errno)) (fd buf nbytes : Nat) : Written :=
  let file := k.ft.memory fd
  match vopWrite k (dev file.fdvnode file.offset) nbytes buf [] with
  | (sent, .error why) => { result := .stops why, sent := sent, ft := k.ft, writelock := k.writelock }
  | (sent, .ok (some e, _)) => { result := .returns e, sent := sent, ft := k.ft, writelock := k.writelock }
  | (sent, .ok (none, resid)) =>
    let sizewrite := toOff (u32 (nbytes + 2 ^ 32 - resid))
    let ft := { k.ft with memory := Function.update k.ft.memory fd { file with offset := file.offset + sizewrite } }
    { result := .wrote sizewrite, sent := sent, ft := ft, writelock := k.writelock }

/-- `dev` are the files, by vnode and offset, and `kmallocs` says whether
`lock_create` finds memory. -/
def sysWrite (k : WriteSys) (dev : Nat → Int → List UInt8 → Option (Option Errno)) (kmallocs : Bool) (fdn : Int)
    (buf nbytes : Nat) : Written :=
  if buf = 0 ∨ mipsKseg0 ≤ buf ∨ asValidReadAddr k.space buf = false then
    { result := .returns .efault, sent := [], ft := k.ft, writelock := k.writelock }
  else if k.writelock = false ∧ kmallocs = false then
    { result := .returns .enomem, sent := [], ft := k.ft, writelock := false }
  else
    match ftGet k.ft fdn with
    | .error why => { result := .fails why, sent := [], ft := k.ft, writelock := true }
    | .ok (none, ft) => { result := .returns .ebadf, sent := [], ft := ft, writelock := true }
    | .ok (some fd, ft) =>
      match (ft.memory fd).mode with
      | .rdonly => { result := .returns .ebadf, sent := [], ft := ft, writelock := true }
      | .wronly | .rdwr => writeVnode { k with ft := ft, writelock := true } dev fd buf nbytes

end Os161
