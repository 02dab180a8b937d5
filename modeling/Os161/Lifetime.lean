import Mathlib.Logic.Function.Basic
import Os161.Vnode

/-!
# Executables and the address spaces that use them

What `load_elf`, `as_copy` and `as_destroy` do to the vnodes of the programs.
A vnode that is not loaded has the counts `vnode_kill` leaves behind. The
device is free of errors, so `VOP_RECLAIM` succeeds.
-/

namespace Os161

/-- `opened` is history: the space's file was opened by `load_elf` and not
taken over from a parent. -/
structure ExecSpace where
  addr : Nat
  file : Option Nat
  opened : Bool
  deriving DecidableEq, Repr

/-- `gone` is history: the files of the spaces that were opened by `load_elf`
and have been destroyed. -/
structure Lifetime where
  vnodes : Nat → VnodeCounts
  spaces : List ExecSpace
  gone : List Nat

def lookupRef (v : VnodeCounts) : VnodeCounts := if v.vnRefcount = 0 then vnodeInit else vnodeIncref v

def vopDecref (v : VnodeCounts) : Except FsPanic VnodeCounts := do
  let (v, reclaim) ← vnodeDecref v
  if reclaim then
    vnodeCheck v .reclaim
    vnodeKill v
  else .ok v

def vopDecopen (v : VnodeCounts) : Except FsPanic VnodeCounts := do
  let (v, close) ← vnodeDecopen v
  if close then vnodeCheck v .close
  .ok v

def openRdonly (v : VnodeCounts) (opened : Option Errno) : Except FsPanic (Option Errno × VnodeCounts) := do
  let v := lookupRef v
  vnodeCheck v .open
  match opened with
  | some e =>
    let v ← vopDecref v
    .ok (some e, v)
  | none => .ok (none, vnodeIncopen v)

inductive LifeOp
  /-- `load_elf` into a new space at address `a`; what `vfs_lookup` and
  `VOP_OPEN` return. The space stays when something later in `load_elf` fails. -/
  | loadElf (a : Nat) (lookup : Except Errno Nat) (opened : Option Errno)
  | asCopy (a child : Nat)
  | asDestroy (a : Nat)

def Lifetime.space (s : Lifetime) (a : Nat) : Option ExecSpace := s.spaces.find? (·.addr == a)

def loadElfFile (s : Lifetime) (a : Nat) (lookup : Except Errno Nat) (opened : Option Errno) :
    Except FsPanic Lifetime :=
  match lookup with
  | .error _ => .ok { s with spaces := { addr := a, file := none, opened := false } :: s.spaces }
  | .ok v => do
    let (e, c) ← openRdonly (s.vnodes v) opened
    let vnodes := Function.update s.vnodes v c
    match e with
    | some _ => .ok { s with vnodes := vnodes, spaces := { addr := a, file := none, opened := false } :: s.spaces }
    | none => .ok { s with vnodes := vnodes, spaces := { addr := a, file := some v, opened := true } :: s.spaces }

/-- The result of `VOP_OPEN` is dropped and no reference is taken. -/
def asCopyFile (s : Lifetime) (old : ExecSpace) (child : Nat) : Except FsPanic Lifetime :=
  match old.file with
  | none => .error (.nullVnode .open)
  | some v => do
    vnodeCheck (s.vnodes v) .open
    .ok { s with
      vnodes := Function.update s.vnodes v (vnodeIncopen (s.vnodes v))
      spaces := { addr := child, file := some v, opened := false } :: s.spaces }

def asDestroyFile (s : Lifetime) (as : ExecSpace) : Except FsPanic Lifetime :=
  match as.file with
  | none => .ok { s with spaces := s.spaces.erase as }
  | some v => do
    let c ← vopDecopen (s.vnodes v)
    .ok { s with
      vnodes := Function.update s.vnodes v c
      spaces := s.spaces.erase as
      gone := if as.opened then v :: s.gone else s.gone }

/-- A call that names a space that is not there, or an address that is in
use, leaves the state as it is. -/
def lifeStep (s : Lifetime) : LifeOp → Except FsPanic Lifetime
  | .loadElf a lookup opened =>
    match s.space a with
    | none => loadElfFile s a lookup opened
    | some _ => .ok s
  | .asCopy a child =>
    match s.space a, s.space child with
    | some old, none => asCopyFile s old child
    | _, _ => .ok s
  | .asDestroy a =>
    match s.space a with
    | none => .ok s
    | some as => asDestroyFile s as

end Os161
