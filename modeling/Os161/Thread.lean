import Os161.Queue

/-!
# The thread system

`thread/thread.c` with `thread/scheduler.c` and `thread/hardclock.c`. What
runs with interrupts off is one step; `mi_switch` is two, because `scheduler`
takes interrupts in `cpu_idle` while `curthread` is NULL: the call up to the
scheduler, and from there to the end of the call in the thread switched to.
Threads are named by their addresses. `thread_exit` is cut where `as_destroy`
and `VOP_DECREF` may sleep. Stacks, names and file tables are left out.
-/

namespace Os161

inductive ThreadState
  | run
  | ready
  | sleep
  | zomb
  deriving DecidableEq, Repr

inductive ExitStage
  | running
  /-- `t_vmspace` is NULL, `as_destroy` runs. -/
  | space
  /-- `VOP_DECREF` of `t_cwd` runs. -/
  | cwd
  deriving DecidableEq, Repr

/-- `inSwitch` is the call of `mi_switch` that the thread comes back from when
it is switched to; a new thread comes to `mi_threadstart`. -/
structure Thread where
  sleepaddr : Option Nat
  vmspace : Option Nat
  cwd : Option Nat
  stage : ExitStage
  inSwitch : Option ThreadState
  deriving DecidableEq, Repr

structure ThreadSys where
  threads : Nat → Option Thread
  curthread : Option Nat
  runqueue : Queue Nat
  sleepers : PtrArray Nat
  zombies : PtrArray Nat
  numthreads : Nat
  lboltCounter : Nat

inductive ThreadFault
  /-- `assert(result==0)` after a container has returned ENOMEM. -/
  | outOfMemory
  | idle
  | notHere
  | container (e : ContainerFault)
  /-- `assert(nextstate==S_ZOMB)`, `assert(numthreads>0)` -/
  | assertion
  /-- A thread structure is used that is not in memory. -/
  | destroyed
  /-- `assert(thread != curthread)` -/
  | destroyCurrent
  /-- `assert(thread->t_vmspace==NULL)` and `assert(thread->t_cwd==NULL)` -/
  | destroyUncleaned
  /-- Thread came back from the dead! -/
  | cameBack
  deriving DecidableEq, Repr

def hz : Nat := 100

/-- `&lbolt`. No proof depends on where the linker has put the variable. -/
def lbolt : Nat := 0x80020000

def expectRoom {β : Type} : Except ContainerFault β → Except ThreadFault β
  | .ok b => .ok b
  | .error .enomem => .error .outOfMemory
  | .error e => .error (.container e)

def orFail {β : Type} (s : ThreadSys) (r : Except ContainerFault β) (k : β → Except ThreadFault ThreadSys) :
    Except ThreadFault ThreadSys :=
  match r with
  | .ok b => k b
  | .error .enomem => .ok s
  | .error e => .error (.container e)

def ThreadSys.modify (s : ThreadSys) (t : Nat) (f : Thread → Thread) : ThreadSys :=
  { s with threads := Function.update s.threads t ((s.threads t).map f) }

/-! ## Creating and destroying threads -/

/-- Which calls of `kmalloc` succeed in `thread_fork`. -/
structure ForkMem where
  create : Bool
  sleepers : Bool
  zombies : Bool
  runqueue : Bool
  runnable : Bool

def threadFork (s : ThreadSys) (newguy : Nat) (mem : ForkMem) : Except ThreadFault ThreadSys :=
  match s.curthread.bind s.threads with
  | none => .error .notHere
  | some cur =>
    if mem.create then
      orFail s (arrayPreallocate s.sleepers (s.numthreads + 1) mem.sleepers) fun sleepers =>
        let s := { s with sleepers := sleepers }
        orFail s (arrayPreallocate s.zombies (s.numthreads + 1) mem.zombies) fun zombies =>
          let s := { s with zombies := zombies }
          orFail s (qPreallocate s.runqueue (s.numthreads + 1) mem.runqueue) fun runqueue =>
            let s := { s with runqueue := runqueue }
            orFail s (qAddtail s.runqueue newguy mem.runnable) fun runqueue =>
              .ok { s with
                runqueue := runqueue
                threads := Function.update s.threads newguy (some {
                  sleepaddr := none, vmspace := none, cwd := cur.cwd, stage := .running, inSwitch := none })
                numthreads := s.numthreads + 1 }
    else .ok s

def threadDestroy (s : ThreadSys) (thread : Nat) : Except ThreadFault ThreadSys :=
  if s.curthread = some thread then .error .destroyCurrent
  else match s.threads thread with
    | none => .error .destroyed
    | some z =>
      if z.vmspace = none ∧ z.cwd = none then .ok { s with threads := Function.update s.threads thread none }
      else .error .destroyUncleaned

def exorcise (s : ThreadSys) : Except ThreadFault ThreadSys := do
  let s ← (List.range s.zombies.num).foldlM (fun t i => do
    let z ← expectRoom (arrayGetguy s.zombies i)
    threadDestroy t z) s
  let zombies ← expectRoom (arraySetsize s.zombies 0 false)
  .ok { s with zombies := zombies }

/-! ## Switching -/

def miSwitch (s : ThreadSys) (nextstate : ThreadState) (mem : Bool) : Except ThreadFault ThreadSys :=
  match s.curthread with
  | none => .ok s
  | some cur =>
    let s := { s.modify cur (fun x => { x with inSwitch := some nextstate }) with curthread := none }
    match nextstate with
    | .ready => do
      let runqueue ← expectRoom (qAddtail s.runqueue cur mem)
      .ok { s with runqueue := runqueue }
    | .sleep => do
      let sleepers ← expectRoom (arrayAdd s.sleepers cur mem)
      .ok { s with sleepers := sleepers }
    | .zomb => do
      let zombies ← expectRoom (arrayAdd s.zombies cur mem)
      .ok { s with zombies := zombies }
    | .run => .error .assertion

def resume (s : ThreadSys) (next : Nat) : Except ThreadFault ThreadSys :=
  match s.threads next with
  | none => .error .destroyed
  | some x => match x.inSwitch with
    | none => .ok s
    | some .sleep => do
      let s ← exorcise s
      .ok (s.modify next fun x => { x with sleepaddr := none })
    | some .zomb => do
      let _ ← exorcise s
      .error .cameBack
    | some _ => exorcise s

def scheduler (s : ThreadSys) : Except ThreadFault ThreadSys :=
  if s.curthread ≠ none then .error .notHere
  else if qEmpty s.runqueue then .error .idle
  else do
    let (next, runqueue) ← expectRoom (qRemhead s.runqueue)
    resume { s with runqueue := runqueue, curthread := some next } next

def threadYield (s : ThreadSys) (mem : Bool) : Except ThreadFault ThreadSys := miSwitch s .ready mem

def threadSleep (s : ThreadSys) (addr : Nat) (mem : Bool) : Except ThreadFault ThreadSys :=
  match s.curthread with
  | none => .error .notHere
  | some cur => miSwitch (s.modify cur fun x => { x with sleepaddr := some addr }) .sleep mem

def threadWakeupLoop (addr : Nat) (mem : Nat → Bool) : Nat → Nat → ThreadSys → Except ThreadFault ThreadSys
  | 0, _, s => .ok s
  | rounds + 1, i, s =>
    if i < s.sleepers.num then do
      let t ← expectRoom (arrayGetguy s.sleepers i)
      match s.threads t with
      | none => .error .destroyed
      | some x =>
        if x.sleepaddr = some addr then do
          let sleepers ← expectRoom (arrayRemove s.sleepers i)
          let runqueue ← expectRoom (qAddtail s.runqueue t (mem rounds))
          threadWakeupLoop addr mem rounds i { s with sleepers := sleepers, runqueue := runqueue }
        else threadWakeupLoop addr mem rounds (i + 1) s
    else .ok s

def threadWakeup (s : ThreadSys) (addr : Nat) (mem : Nat → Bool) : Except ThreadFault ThreadSys :=
  threadWakeupLoop addr mem s.sleepers.num 0 s

def threadHassleepersLoop (s : ThreadSys) (addr : Nat) : Nat → Nat → Except ThreadFault Bool
  | 0, _ => .ok false
  | rounds + 1, i =>
    if i < s.sleepers.num then do
      let t ← expectRoom (arrayGetguy s.sleepers i)
      match s.threads t with
      | none => .error .destroyed
      | some x => if x.sleepaddr = some addr then .ok true else threadHassleepersLoop s addr rounds (i + 1)
    else .ok false

def threadHassleepers (s : ThreadSys) (addr : Nat) : Except ThreadFault Bool :=
  threadHassleepersLoop s addr s.sleepers.num 0

def hardclock (s : ThreadSys) (mem : Nat → Bool) (memYield : Bool) : Except ThreadFault ThreadSys :=
  if s.lboltCounter + 1 ≥ hz then do
    let s ← threadWakeup { s with lboltCounter := 0 } lbolt mem
    threadYield s memYield
  else threadYield { s with lboltCounter := s.lboltCounter + 1 } memYield

/-! ## The end of a thread -/

def ThreadSys.stageIs (s : ThreadSys) (stage : ExitStage) : Bool :=
  match s.curthread.bind s.threads with
  | none => false
  | some x => x.stage = stage

def ThreadSys.modifyCur (s : ThreadSys) (f : Thread → Thread) : ThreadSys :=
  match s.curthread with
  | none => s
  | some cur => s.modify cur f

def exitSpace (s : ThreadSys) : ThreadSys := s.modifyCur fun x => { x with vmspace := none, stage := .space }

def exitCwd (s : ThreadSys) : ThreadSys := s.modifyCur fun x => { x with stage := .cwd }

def exitEnd (s : ThreadSys) (mem : Bool) : Except ThreadFault ThreadSys :=
  let s := s.modifyCur fun x => { x with cwd := none }
  if s.numthreads = 0 then .error .assertion
  else miSwitch { s with numthreads := s.numthreads - 1 } .zomb mem

/-! ## Steps -/

inductive ThreadAct
  | fork (newguy : Nat) (mem : ForkMem)
  | yield (mem : Bool)
  | sleep (addr : Nat) (mem : Bool)
  | wakeup (addr : Nat) (mem : Nat → Bool)
  | hardclock (mem : Nat → Bool) (memYield : Bool)
  | scheduler
  | exitSpace
  | exitCwd
  | exitEnd (mem : Bool)
  /-- `t_vmspace` and `t_cwd` of the current thread, as set by `runprogram`, `execv` and `vfs_setcurdir`. -/
  | setVmspace (vmspace : Option Nat)
  | setCwd (cwd : Option Nat)

def threadStep (s : ThreadSys) : ThreadAct → Except ThreadFault ThreadSys
  | .fork newguy mem => threadFork s newguy mem
  | .yield mem => threadYield s mem
  | .sleep addr mem => threadSleep s addr mem
  | .wakeup addr mem => threadWakeup s addr mem
  | .hardclock mem memYield => Os161.hardclock s mem memYield
  | .scheduler => Os161.scheduler s
  | .exitSpace => .ok (Os161.exitSpace s)
  | .exitCwd => .ok (Os161.exitCwd s)
  | .exitEnd mem => Os161.exitEnd s mem
  | .setVmspace vmspace => .ok (s.modifyCur fun x => { x with vmspace := vmspace })
  | .setCwd cwd => .ok (s.modifyCur fun x => { x with cwd := cwd })

/-- The current thread is where the call is made, and `kmalloc` returns memory that is not in use. -/
def ThreadAct.Callable (s : ThreadSys) : ThreadAct → Prop
  | .fork newguy _ => s.stageIs .running = true ∧ s.threads newguy = none
  | .yield _ | .wakeup _ _ | .hardclock _ _ => True
  | .sleep _ _ => s.curthread ≠ none
  | .scheduler => s.curthread = none
  | .exitSpace | .setVmspace _ | .setCwd _ => s.stageIs .running = true
  | .exitCwd => s.stageIs .space = true
  | .exitEnd _ => s.stageIs .cwd = true

def threadBootstrap (me : Nat) : ThreadSys where
  threads := Function.update (fun _ => none) me
    (some { sleepaddr := none, vmspace := none, cwd := none, stage := .running, inSwitch := none })
  curthread := some me
  runqueue := qCreate 32
  sleepers := arrayCreate
  zombies := arrayCreate
  numthreads := 1
  lboltCounter := 0

end Os161
