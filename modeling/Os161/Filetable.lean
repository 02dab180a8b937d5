import Os161.Machine

/-!
# File tables

`thread/filetable.c` over its array of descriptors. `kmalloc` succeeds and
`vfs_open` of the console succeeds. Descriptors are named by the address
`kmalloc` gave them, 0 being no address.
-/

namespace Os161

def openMax : Nat := 1024

inductive OpenMode
  | rdonly
  | wronly
  | rdwr
  deriving DecidableEq, Repr

structure Filedescriptor where
  mode : OpenMode
  numOwners : Int
  offset : Int
  fdvnode : Nat
  deriving DecidableEq, Repr

/-- The array of one table, the descriptors in memory, and the descriptors
closed and freed, the last one first. -/
structure Filetable where
  filedescriptor : List (Option Nat)
  memory : Nat → Filedescriptor
  next : Nat
  console : Nat
  closed : List Nat

inductive FtFault
  /-- The index assertion of `array_getguy` and `array_setguy`. -/
  | indexInRange
  /-- assert(fdn != 0) -/
  | fdnNotZero
  deriving DecidableEq, Repr

def ftArraySize (ft : Filetable) : Nat := ft.filedescriptor.length

def ftArrayGetguy (ft : Filetable) (index : Nat) : Except FtFault (Option Nat) :=
  match ft.filedescriptor[index]? with
  | some guy => .ok guy
  | none => .error .indexInRange

def ftArraySetguy (ft : Filetable) (index : Nat) (guy : Option Nat) : Except FtFault Filetable :=
  if index < ftArraySize ft then .ok { ft with filedescriptor := ft.filedescriptor.set index guy }
  else .error .indexInRange

def ftKmalloc (fd : Filedescriptor) (ft : Filetable) : Nat × Filetable :=
  (ft.next, { ft with memory := Function.update ft.memory ft.next fd, next := ft.next + 1 })

def ftSet (ft : Filetable) (fd fti : Nat) : Except FtFault Filetable :=
  if ftArraySize ft ≤ fti then .ok ft else ftArraySetguy ft fti (some fd)

def ftAttachstd (mode : OpenMode) (fileno : Nat) (ft : Filetable) : Except FtFault Filetable :=
  let fd := ftKmalloc { mode := mode, offset := 0, fdvnode := ft.console, numOwners := 1 } ft
  ftSet fd.2 fd.1 fileno

def ftAttachstds (ft : Filetable) : Except FtFault Filetable := do
  let ft ← ftAttachstd .rdonly 0 ft
  let ft ← ftAttachstd .wronly 1 ft
  ftAttachstd .wronly 2 ft

def ftGetStd (ft : Filetable) (fti : Int) : Except FtFault Filetable :=
  if fti < 3 then do
    match ← ftArrayGetguy ft fti.toNat with
    | none => ftAttachstds ft
    | some _ => .ok ft
  else .ok ft

def ftGet (ft : Filetable) (fti : Int) : Except FtFault (Option Nat × Filetable) :=
  if fti < 0 then .ok (none, ft)
  else do
    let ft ← ftGetStd ft fti
    if ftArraySize ft ≤ fti.toNat then .ok (none, ft)
    else do
      let ret ← ftArrayGetguy ft fti.toNat
      .ok (ret, ft)

def ftAddLoop : Nat → Nat → Filetable → Except FtFault (Option Nat × Nat × Filetable)
  | 0, fdn, ft => .ok (none, fdn, ft)
  | rounds + 1, fdn, ft =>
    if fdn < ftArraySize ft ∧ fdn < openMax then do
      let (fd, ft) ← ftGet ft fdn
      match fd with
      | none => .ok (some fdn, fdn, ft)
      | some _ => ftAddLoop rounds (fdn + 1) ft
    else .ok (none, fdn, ft)

/-- The slot, or -1. The loop has at most `OPEN_MAX` rounds. -/
def ftAdd (ft : Filetable) (fd : Nat) : Except FtFault (Int × Filetable) := do
  let (slot, fdn, ft) ← ftAddLoop openMax 0 ft
  match slot with
  | some fdn => do
    let ft ← ftArraySetguy ft fdn (some fd)
    .ok (fdn, ft)
  | none =>
    if fdn = openMax then .ok (-1, ft)
    else
      let old := ft.memory fd
      let ft := { ft with
        filedescriptor := ft.filedescriptor ++ [some fd]
        memory := Function.update ft.memory fd { old with numOwners := old.numOwners + 1 } }
      if fdn ≠ 0 then .ok (fdn, ft) else .error .fdnNotZero

def ftRemove (ft : Filetable) (fti : Int) : Except FtFault Filetable := do
  let (fd, ft) ← ftGet ft fti
  match fd with
  | none => .ok ft
  | some fd =>
    let old := ft.memory fd
    let numOwners := old.numOwners - 1
    let ft := { ft with
      memory := Function.update ft.memory fd { old with numOwners := numOwners }
      closed := if numOwners = 0 then fd :: ft.closed else ft.closed }
    ftArraySetguy ft fti.toNat none

def ftCreate (console : Nat) : Filetable where
  filedescriptor := [none, none, none]
  memory _ := { mode := .rdonly, numOwners := 0, offset := 0, fdvnode := 0 }
  next := 1
  console := console
  closed := []

/-! ## Runs -/

structure Added where
  fd : Nat
  numOwners : Int
  /-- The table had no empty slot. -/
  appended : Bool
  deriving DecidableEq, Repr

structure FtRun where
  ft : Filetable
  added : List Added

inductive FtOp
  | add (fd : Filedescriptor)
  | remove (fti : Int)

def ftStep (t : FtRun) : FtOp → Except FtFault FtRun
  | .add fd => do
    let new := ftKmalloc fd t.ft
    let (slot, ft) ← ftAdd new.2 new.1
    .ok {
      ft := ft
      added :=
        if slot = -1 then t.added
        else { fd := new.1, numOwners := fd.numOwners, appended := decide (none ∉ t.ft.filedescriptor) } :: t.added }
  | .remove fti => do
    let ft ← ftRemove t.ft fti
    .ok { t with ft := ft }

def FtOp.callable (t : FtRun) : FtOp → Prop
  | .add _ => True
  | .remove fti => 3 ≤ fti ∧ ∃ fd, t.ft.filedescriptor[fti.toNat]? = some (some fd)

def FtRun.start (console : Nat) : FtRun where
  ft :=
    match ftAttachstds (ftCreate console) with
    | .ok ft => ft
    | .error _ => ftCreate console
  added := []

end Os161
