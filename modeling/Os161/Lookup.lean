import Os161.SysWrite

/-!
# Looking up descriptors

`ft_get`, `ft_size` and `ft_remove` of `filetable.c` and `sys_write` once
more, with what happens when `ft_attachstds` runs out of memory or cannot open
the console: it destroys the table that its callers go on to use.
-/

namespace Os161

inductive LookupFault
  | table (f : FtFault)
  | tableDestroyed
  deriving DecidableEq, Repr

def liftFt {α : Type} : Except FtFault α → Except LookupFault α
  | .ok a => .ok a
  | .error f => .error (.table f)

def needsStds (ft : Filetable) (fti : Int) : Bool :=
  decide (0 ≤ fti) && decide (fti < 3) && ft.filedescriptor[fti.toNat]? == some none

def ftGetOr (std : Bool) (ft : Filetable) (fti : Int) : Except LookupFault (Option Nat × Filetable) :=
  if needsStds ft fti = true ∧ std = false then .error .tableDestroyed else liftFt (ftGet ft fti)

def ftSizeLoop (std : Bool) : Nat → Nat → Int → Filetable → Except LookupFault (Int × Filetable)
  | 0, _, total, ft => .ok (total, ft)
  | rounds + 1, i, total, ft =>
    if i < ftArraySize ft then do
      let (fd, ft) ← ftGetOr std ft i
      ftSizeLoop std rounds (i + 1) (if fd = none then total - 1 else total) ft
    else .ok (total, ft)

def ftSize (std : Bool) (ft : Filetable) : Except LookupFault (Int × Filetable) :=
  ftSizeLoop std (ftArraySize ft) 0 (ftArraySize ft) ft

def ftRemoveOr (std : Bool) (ft : Filetable) (fti : Int) : Except LookupFault Filetable :=
  if needsStds ft fti = true ∧ std = false then .error .tableDestroyed else liftFt (ftRemove ft fti)

def WriteSys.looksUp (k : WriteSys) (kmallocs : Bool) (buf : Nat) : Bool :=
  !(buf == 0 || decide (mipsKseg0 ≤ buf) || !asValidReadAddr k.space buf) && (k.writelock || kmallocs)

def sysWriteOr (std : Bool) (k : WriteSys) (dev : Nat → Int → List UInt8 → Option (Option Errno)) (kmallocs : Bool)
    (fdn : Int) (buf nbytes : Nat) : Except LookupFault Written :=
  if k.looksUp kmallocs buf = true ∧ needsStds k.ft fdn = true ∧ std = false then .error .tableDestroyed
  else .ok (sysWrite k dev kmallocs fdn buf nbytes)

end Os161
