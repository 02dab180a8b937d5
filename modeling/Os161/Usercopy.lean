import Os161.Runprogram

/-!
# Copying between the kernel and user memory

`copyin`, `copyout`, `copyinstr` and `copyoutstr` of `copyinout.c`, with the
user addresses they access. No access faults, and nobody else changes the
memory meanwhile.
-/

namespace Os161

open Bytes

inductive CopyDir
  | in
  | out
  deriving DecidableEq, Repr

structure CopyState where
  user : Mem
  kern : Mem
  accessed : List Nat

def CopyState.source (st : CopyState) (dir : CopyDir) (userptr i : Nat) : UInt8 :=
  match dir with
  | .in => st.user (userptr + i)
  | .out => st.kern i

def CopyState.move (st : CopyState) (dir : CopyDir) (userptr i : Nat) : CopyState :=
  match dir with
  | .in =>
    { st with kern := Function.update st.kern i (st.user (userptr + i)), accessed := (userptr + i) :: st.accessed }
  | .out =>
    { st with user := Function.update st.user (userptr + i) (st.kern i), accessed := (userptr + i) :: st.accessed }

def CopyState.memcpy (dir : CopyDir) (userptr : Nat) : (n i : Nat) → CopyState → CopyState
  | 0, _, st => st
  | n + 1, i, st => memcpy dir userptr n (i + 1) (st.move dir userptr i)

def copyBlock (dir : CopyDir) (userptr len : Nat) (st : CopyState) : Option Errno × CopyState :=
  match copycheckStop userptr len with
  | .error e => (some e, st)
  | .ok stoplen => if stoplen ≠ len then (some .efault, st) else (none, st.memcpy dir userptr len 0)

def copyinUser : Nat → Nat → CopyState → Option Errno × CopyState := copyBlock .in

def copyoutUser : Nat → Nat → CopyState → Option Errno × CopyState := copyBlock .out

def copystrRounds (dir : CopyDir) (userptr : Nat) : (n i : Nat) → CopyState → Option Nat × CopyState
  | 0, _, st => (none, st)
  | n + 1, i, st =>
    let st := st.move dir userptr i
    if st.source dir userptr i = 0 then (some (i + 1), st) else copystrRounds dir userptr n (i + 1) st

def copyString (dir : CopyDir) (userptr len : Nat) (st : CopyState) : Except Errno Nat × CopyState :=
  match copycheckStop userptr len with
  | .error e => (.error e, st)
  | .ok stoplen =>
    match copystrRounds dir userptr (min len stoplen) 0 st with
    | (some gotlen, st) => (.ok gotlen, st)
    | (none, st) => (.error (if stoplen < len then .efault else .enametoolong), st)

def copyinstrUser : Nat → Nat → CopyState → Except Errno Nat × CopyState := copyString .in

def copyoutstrUser : Nat → Nat → CopyState → Except Errno Nat × CopyState := copyString .out

end Os161
