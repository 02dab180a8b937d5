import Os161.Elf
import Os161.Runprogram
import Os161.Vmsys

/-!
# The exec system call

`sys_execv` with the kernel heap. What it finds in user memory and what
`kmalloc` returns are given. Each byte it reads of user memory goes through
the TLB, and a miss through `vm_fault`.
-/

namespace Os161

/-- A block of the kernel heap: a buffer of `sys_execv`, a `struct addrspace`,
or a page table with its page details. -/
inductive HeapBlock
  | buffer (addr : Nat)
  | space (addr : Nat)
  | table (block : Nat)
  deriving DecidableEq, Repr

structure ExecvSys where
  sys : Sys
  heap : List HeapBlock

/-- The two pointers, the array behind the second up to its NULL, and the
strings in user memory. -/
structure UserArgs where
  progname : Nat
  args : Nat
  argv : List Nat
  str : Nat → CString

def UserArgs.stringReads (u : UserArgs) (p : Nat) : List Nat := (List.range (strlen (u.str p) + 1)).map (p + ·)

def UserArgs.argvReads (u : UserArgs) : List Nat := (List.range (u.argv.length + 1)).map (u.args + 4 * ·)

/-- What `kmalloc` returns for `kern_progname`, `kern_argumentPointer`, each
argument, the new space (with what its last segment held), and the page
tables, and the uninitialised `uio_resid` of the loads that happen on the
way. -/
structure ExecvMem where
  progname : Option Nat
  pointers : Option Nat
  arg : Nat → Option Nat
  space : Option (Nat × Segment)
  tables : List Nat
  resid : Nat → Nat

inductive ExecvOutcome
  | returns (e : Errno) (s : ExecvSys)
  | stops (why : Panic)
  /-- md_usermode returned -/
  | usermodeReturned

/-- The kernel reads user memory at `addrs`. -/
def readUser (as : AddrSpace) (resid : Nat → Nat) : (addrs : List Nat) → Sys → Except Panic Sys
  | [], s => .ok s
  | x :: addrs, s =>
    match tlbLookup s.vm.tlb (x &&& pageFrame) with
    | some _ => readUser as resid addrs s
    | none =>
      match vmFault s.vm (some as) (fileData s.vnodes as) .read x (resid x) with
      | .error c => .error c.why
      | .ok (.handled, vm) => readUser as resid addrs { s with vm := vm }
      | .ok (_, _) => .error .threadExit

/-- The loop over the arguments, with the blocks in use. The kernel stops
when it stores through a NULL from `kmalloc`. -/
def copyinArgs (as : AddrSpace) (u : UserArgs) (k : ExecvMem) :
    (argv : List Nat) → (i : Nat) → ExecvSys → Except Panic (Option Errno × ExecvSys)
  | [], _, s => .ok (none, s)
  | p :: argv, i, s =>
    if asValidReadAddr as p = false then .ok (some .efault, s)
    else do
      let sys ← readUser as k.resid (u.stringReads p) s.sys
      if strlen (u.str p) < 1 then .ok (some .einval, { s with sys := sys })
      else
        match k.pointers, k.arg i with
        | some _, some b =>
          -- `strlen` once more, then `copyinstr`
          let sys ← readUser as k.resid (u.stringReads p ++ u.stringReads p) sys
          copyinArgs as u k argv (i + 1) { sys := sys, heap := .buffer b :: s.heap }
        | _, _ => .error .nullPointer

def spaceBlocks (a : Nat) (as : AddrSpace) : List HeapBlock :=
  .space a :: (List.range asNumSeg).filterMap fun i =>
    if (as.segments i).active ≠ 0 then (as.segments i).pt.map fun pt => .table pt.block else none

def countOpen (vnodes : Nat → Vnode) (file : Except Errno (Nat × ExecFile)) : Nat → Vnode :=
  match file with
  | .error _ => vnodes
  | .ok (v, _) => Function.update vnodes v { vnodes v with opencount := (vnodes v).opencount + 1 }

/-- From `as_destroy` on. A program that has been loaded ends in the panic
after `md_usermode`, which is not called. -/
def execvReplace (s : ExecvSys) (k : ExecvMem) (a : Nat) (as : AddrSpace) (file : Except Errno (Nat × ExecFile)) :
    ExecvOutcome :=
  match asDestroy s.sys a as with
  | .error c => .stops c.why
  | .ok sys =>
    let heap := s.heap.filter fun b => !(spaceBlocks a as).contains b
    match k.space with
    | none => .returns .enomem { sys := { sys with curAs := none }, heap := heap }
    | some (new, last) =>
      let sys := asActivate { sys with curAs := some new } new
      match loadElf (asCreate last) sys.vm.pds file k.tables with
      | .error why => .stops why
      | .ok (.ok _, _, _) => .usermodeReturned
      | .ok (.error e, as, pds) =>
        .returns e {
          sys := { sys with
            vm := { sys.vm with pds := pds }
            vnodes := countOpen sys.vnodes file
            spaces := Function.update sys.spaces new (some as) }
          heap := (k.tables.take as.numSegments).map .table ++ .space new :: heap }

/-- From the allocation of `kern_progname` on. -/
def execvCopy (s : ExecvSys) (u : UserArgs) (k : ExecvMem) (a : Nat) (as : AddrSpace)
    (vfsOpen : CString → Except Errno (Nat × ExecFile)) : ExecvOutcome :=
  match k.progname with
  | none => .stops .nullPointer
  | some name =>
    -- `strlen` for `kmalloc` and for `copyinstr`, then `copyinstr`
    match readUser as k.resid (u.stringReads u.progname ++ u.stringReads u.progname ++ u.stringReads u.progname)
        s.sys with
    | .error why => .stops why
    | .ok sys =>
      match copyinArgs as u k u.argv 0
        { sys := sys, heap := k.pointers.toList.map .buffer ++ .buffer name :: s.heap } with
      | .error why => .stops why
      | .ok (some e, s) => .returns e s
      | .ok (none, s) => execvReplace s k a as (vfsOpen (u.str u.progname))

def sysExecv (s : ExecvSys) (u : UserArgs) (k : ExecvMem) (vfsOpen : CString → Except Errno (Nat × ExecFile)) :
    ExecvOutcome :=
  match s.sys.curAs, s.sys.cur with
  | some a, some as =>
    if asValidReadAddr as u.progname = false ∨ asValidReadAddr as u.args = false then .returns .efault s
    else
      match readUser as k.resid (u.stringReads u.progname) s.sys with
      | .error why => .stops why
      | .ok sys =>
        if strlen (u.str u.progname) < 1 then .returns .einval { s with sys := sys }
        else
          match readUser as k.resid u.argvReads sys with
          | .error why => .stops why
          | .ok sys =>
            if 16 < u.argv.length then .returns .e2big { s with sys := sys }
            else execvCopy { s with sys := sys } u k a as vfsOpen
  | _, _ => .stops (.assertionFailed .threadHasVmspace)

end Os161
