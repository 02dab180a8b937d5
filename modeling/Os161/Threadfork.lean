import Os161.Machine
import Os161.Thread

/-!
# thread_fork and the heap

`thread_create` and `thread_fork` of `thread/thread.c` with the blocks that
they take from `kmalloc`, down to `ft_create`, and the reference to the
current directory. The storage of the run queue, of `sleepers` and of
`zombies` is replaced when it grows and is not among the blocks.
-/

namespace Os161.Fork

/-- `heap` are the blocks in use and `refcount` the reference counts of
vnodes, both by address. -/
structure State where
  sys : ThreadSys
  heap : List Nat
  refcount : Nat → Nat

/-- What the calls of `kmalloc` return, in the order in which they are made;
`storage` is the storage of the new file table's array, wherever it comes
from. -/
structure Allocs where
  thread : Option Nat
  name : Option Nat
  ft : Option Nat
  array : Option Nat
  room : Bool
  add0 : Bool
  add1 : Bool
  add2 : Bool
  storage : Nat
  stack : Option Nat
  containers : ForkMem

def unchecked {α : Type} (a : PtrArray α) : Except ContainerFault (PtrArray α) → Except ThreadFault (PtrArray α)
  | .ok b => .ok b
  | .error .enomem => .ok a
  | .error e => .error (.container e)

def ftArray (m : Allocs) : Except ThreadFault (PtrArray (Option Nat)) := do
  let a := arrayCreate
  let a ← unchecked a (arrayPreallocate a 20 m.room)
  let a ← unchecked a (arrayAdd a none m.add0)
  let a ← unchecked a (arrayAdd a none m.add1)
  unchecked a (arrayAdd a none m.add2)

def ftCreate (m : Allocs) : Except ThreadFault (List Nat) :=
  match m.ft with
  | none => .ok []
  | some ft => match m.array with
    -- `ft_destroy` asks for the size of the array, and there is none
    | none => .error (.container .nullPointer)
    | some array => do
      let a ← ftArray m
      .ok ((if a.v.isSome then [m.storage] else []) ++ [array, ft])

def threadCreate (heap : List Nat) (m : Allocs) : Except ThreadFault (Option (Nat × Nat) × List Nat) :=
  match m.thread with
  | none => .ok (none, heap)
  | some thread => match m.name with
    | none => .ok (none, (thread :: heap).erase thread)
    | some name => do
      -- the thread may have no file table
      let ft ← ftCreate m
      .ok (some (thread, name), ft ++ name :: thread :: heap)

def orReturn {β : Type} (s : ThreadSys) (r : Except ContainerFault β)
    (k : β → Except ThreadFault (Option Errno × ThreadSys)) : Except ThreadFault (Option Errno × ThreadSys) :=
  match r with
  | .ok b => k b
  | .error .enomem => .ok (some .enomem, s)
  | .error e => .error (.container e)

def forkAtomic (s : ThreadSys) (newguy : Nat) (cwd : Option Nat) (mem : ForkMem) :
    Except ThreadFault (Option Errno × ThreadSys) :=
  orReturn s (arrayPreallocate s.sleepers (s.numthreads + 1) mem.sleepers) fun sleepers =>
    let s := { s with sleepers := sleepers }
    orReturn s (arrayPreallocate s.zombies (s.numthreads + 1) mem.zombies) fun zombies =>
      let s := { s with zombies := zombies }
      orReturn s (qPreallocate s.runqueue (s.numthreads + 1) mem.runqueue) fun runqueue =>
        let s := { s with runqueue := runqueue }
        orReturn s (qAddtail s.runqueue newguy mem.runnable) fun runqueue =>
          .ok (none, { s with
            runqueue := runqueue
            threads := Function.update s.threads newguy (some {
              sleepaddr := none, vmspace := none, cwd := cwd, stage := .running, inSwitch := none })
            numthreads := s.numthreads + 1 })

def vopIncref (refcount : Nat → Nat) : Option Nat → Nat → Nat
  | none => refcount
  | some v => Function.update refcount v (refcount v + 1)

/-- `VOP_DECREF`; of the last reference it makes a reclaim and leaves the
count. -/
def vopDecref (refcount : Nat → Nat) : Option Nat → Nat → Nat
  | none => refcount
  | some v => if refcount v > 1 then Function.update refcount v (refcount v - 1) else refcount

def threadFork (s : State) (m : Allocs) : Except ThreadFault (Option Errno × State) :=
  match s.sys.curthread.bind s.sys.threads with
  | none => .error .notHere
  | some cur => do
    let (newguy, heap) ← threadCreate s.heap m
    match newguy with
    | none => .ok (some .enomem, { s with heap := heap })
    | some (thread, name) =>
      match m.stack with
      | none => .ok (some .enomem, { s with heap := (heap.erase name).erase thread })
      | some stack => do
        let heap := stack :: heap
        let refcount := vopIncref s.refcount cur.cwd
        let (result, sys) ← forkAtomic s.sys thread cur.cwd m.containers
        match result with
        | none => .ok (none, { sys := sys, heap := heap, refcount := refcount })
        | some e => .ok (some e, {
            sys := sys
            heap := ((heap.erase stack).erase name).erase thread
            refcount := vopDecref refcount cur.cwd })

end Os161.Fork
