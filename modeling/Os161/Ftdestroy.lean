import Os161.Filetable

/-!
# Tearing a file table down

`ft_destroy` and `ft_attachstds` of `filetable.c`, which call each other:
`ft_destroy` removes every slot, `ft_remove` looks the slot up, `ft_get`
attaches the streams when a standard slot is empty, and `ft_attachstds`
destroys the table when it cannot get memory. What the calls of
`ft_attachstds` return is given, stream by stream.
-/

namespace Os161

inductive StdResult
  | ok
  /-- `kmalloc` of the descriptor returns NULL. -/
  | noMemory
  /-- `kstrdup` returns NULL, and `vfs_open` is given that for a path. -/
  | noString
  /-- `vfs_open` fails, and leaves the vnode that is closed next unset. -/
  | openFails
  deriving DecidableEq, Repr

inductive DownFault
  | table (f : FtFault)
  | freedTable
  | freedDescriptor
  | nullPath
  | unsetVnode
  /-- The calls are nested deeper than allowed for. -/
  | depth
  deriving DecidableEq, Repr

/-- A table, how often it was freed, the descriptors opened by
`ft_attachstds`, and how many streams it has tried to open. -/
structure FtDown where
  ft : Filetable
  freed : Nat
  opened : List Nat
  pos : Nat

namespace FtDown

def lift {α : Type} : Except FtFault α → Except DownFault α
  | .ok a => .ok a
  | .error f => .error (.table f)

def live (s : FtDown) : Except DownFault Filetable :=
  if s.freed = 0 then .ok s.ft else .error .freedTable

def attachstd (o : Nat → StdResult) (destroy : FtDown → Except DownFault FtDown) (mode : OpenMode) (fileno : Nat)
    (s : FtDown) : Except DownFault (Bool × FtDown) :=
  match o s.pos with
  | .noMemory => do
    let s ← destroy { s with pos := s.pos + 1 }
    .ok (false, s)
  | .noString => .error .nullPath
  | .openFails => .error .unsetVnode
  | .ok => do
    let ft ← s.live
    let ft' ← lift (ftAttachstd mode fileno ft)
    .ok (true, { s with ft := ft', opened := ft.next :: s.opened, pos := s.pos + 1 })

def attachstds (o : Nat → StdResult) (destroy : FtDown → Except DownFault FtDown) (s : FtDown) :
    Except DownFault (Bool × FtDown) := do
  let (done, s) ← attachstd o destroy .rdonly 0 s
  if done = false then .ok (false, s)
  else do
    let (done, s) ← attachstd o destroy .wronly 1 s
    if done = false then .ok (false, s)
    else attachstd o destroy .wronly 2 s

/-- `ft_get`, which does not look at what `ft_attachstds` returns. -/
def get (attach : FtDown → Except DownFault (Bool × FtDown)) (i : Nat) (s : FtDown) :
    Except DownFault (Option Nat × FtDown) := do
  let ft ← s.live
  let s ←
    if i < 3 then do
      match ← lift (ftArrayGetguy ft i) with
      | none => do
        let (_, s) ← attach s
        .ok s
      | some _ => .ok s
    else .ok s
  let ft ← s.live
  if ftArraySize ft ≤ i then .ok (none, s)
  else do
    let ret ← lift (ftArrayGetguy ft i)
    .ok (ret, s)

def remove (attach : FtDown → Except DownFault (Bool × FtDown)) (i : Nat) (s : FtDown) : Except DownFault FtDown := do
  let (fd, s) ← get attach i s
  match fd with
  | none => .ok s
  | some fd =>
    if fd ∈ s.ft.closed then .error .freedDescriptor
    else do
      let old := s.ft.memory fd
      let numOwners := old.numOwners - 1
      let ft := { s.ft with
        memory := Function.update s.ft.memory fd { old with numOwners := numOwners }
        closed := if numOwners = 0 then fd :: s.ft.closed else s.ft.closed }
      let ft ← lift (ftArraySetguy ft i none)
      .ok { s with ft := ft }

def removeLoop (attach : FtDown → Except DownFault (Bool × FtDown)) : Nat → FtDown → Except DownFault FtDown
  | 0, s => .ok s
  | m + 1, s => do
    let s ← remove attach m s
    removeLoop attach m s

def destroy (o : Nat → StdResult) : Nat → FtDown → Except DownFault FtDown
  | 0, _ => .error .depth
  | depth + 1, s => do
    let ft ← s.live
    let s ← removeLoop (attachstds o (destroy o depth)) (ftArraySize ft) s
    .ok { s with freed := s.freed + 1 }

def start (ft : Filetable) : FtDown where
  ft := ft
  freed := 0
  opened := []
  pos := 0

end FtDown

end Os161
