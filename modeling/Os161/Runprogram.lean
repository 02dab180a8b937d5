import Os161.Addrspace
import Os161.Uio
import Os161.Lib.Bytes

/-!
# Arguments of a new program

`copyout` and `copyoutstr` of `copyinout.c`, and the part of `runprogram` and
`sys_execv` that puts the arguments on the new stack. User memory is a map
from addresses to bytes; no access to it faults.
-/

namespace Os161

open Bytes

/-! ## Copying to user memory -/

def copycheckStop (userptr len : Nat) : Except Errno Nat :=
  let top := if userptr + len = 0 then 2 ^ 32 - 1 else u32 (userptr + len - 1)
  if top < userptr then .error .efault
  else if userTop ≤ userptr then .error .efault
  else if userTop ≤ top then .ok (userTop - userptr)
  else .ok len

def copyout (mem : Mem) (src : Mem) (userdest len : Nat) : Option Errno × Mem :=
  match copycheckStop userdest len with
  | .error e => (some e, mem)
  | .ok stoplen => if stoplen ≠ len then (some .efault, mem) else (none, copyBytes mem userdest src 0 len)

def copystrLoop (dest : Nat) (src : CString) : (n i : Nat) → Mem → Option Nat × Mem
  | 0, _, mem => (none, mem)
  | n + 1, i, mem =>
    let mem := Function.update mem (dest + i) (src.byte i)
    if src.byte i = 0 then (some (i + 1), mem) else copystrLoop dest src n (i + 1) mem

def copystr (mem : Mem) (dest : Nat) (src : CString) (maxlen stoplen : Nat) : Except Errno Nat × Mem :=
  match copystrLoop dest src (min maxlen stoplen) 0 mem with
  | (some gotlen, mem) => (.ok gotlen, mem)
  | (none, mem) => (if stoplen < maxlen then .error .efault else .error .enametoolong, mem)

def copyoutstr (mem : Mem) (src : CString) (userdest len : Nat) : Except Errno Nat × Mem :=
  match copycheckStop userdest len with
  | .error e => (.error e, mem)
  | .ok stoplen => copystr mem userdest src len stoplen

/-! ## The stack of the new program -/

def wordBytes (n : Nat) : Mem := putBE (fun _ => 0) 0 4 n

def stackFrameSize (args : List CString) : Nat := args.foldl (fun n a => u32 (n + (strlen a + 1 + 4))) 8

def alignStack : Nat → Nat
  | 0 => 0
  | sp + 1 => if 0 < (sp + 1) % 8 then alignStack sp else sp + 1

/-- The loop over the arguments. The results of `copyout` and `copyoutstr`
are dropped. -/
def copyoutArgs (stackptr : Nat) : List CString → (i argumentStringLocation : Nat) → Mem → Nat × Mem
  | [], i, _, mem => (i, mem)
  | a :: args, i, loc, mem =>
    let mem := (copyout mem (wordBytes loc) (u32 (stackptr + 4 + 4 * i)) 4).2
    let mem := (copyoutstr mem a loc (strlen a)).2
    copyoutArgs stackptr args (i + 1) (u32 (loc + (strlen a + 1))) mem

structure UserStack where
  mem : Mem
  stackptr : Nat

def argumentFrame (mem : Mem) (stackptr : Nat) (args : List CString) : UserStack :=
  let stackptr := alignStack (u32 (stackptr + 2 ^ 32 - stackFrameSize args))
  let loc := u32 (stackptr + 4 + (args.length + 1) * 4)
  let mem := (copyout mem (wordBytes args.length) stackptr 4).2
  let (i, mem) := copyoutArgs stackptr args 0 loc mem
  let mem := (copyout mem (wordBytes 0) (u32 (stackptr + 4 + 4 * i)) 4).2
  { mem := mem, stackptr := stackptr }

def runprogramArgs (mem : Mem) (stackptr : Nat) (args : List CString) : UserStack := argumentFrame mem stackptr args

def checkArgs : List (Bool × CString) → Except Errno Unit
  | [] => .ok ()
  | (valid, a) :: args =>
    if valid = false then .error .efault
    else if strlen a < 1 then .error .einval
    else checkArgs args

/-- `sys_execv` up to its last statement, a panic: it has no call of
`md_usermode`. The program is found and loaded; `valid` is the result of the
first two checks of addresses. -/
def sysExecvArgs (mem : Mem) (stackptr : Nat) (valid : Bool) (progname : CString) (args : List (Bool × CString)) :
    Except Errno UserStack := do
  if valid = false then .error .efault
  else if strlen progname < 1 then .error .einval
  else if 16 < args.length then .error .e2big
  else
    checkArgs args
    .ok (argumentFrame mem stackptr (args.map (·.2)))

end Os161
