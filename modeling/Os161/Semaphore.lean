import Os161.Queue32
import Os161.Thread

/-!
# Semaphores

`P` and `V` of `thread/synch.c` over the thread system. They run with
interrupts off, so `V` is one step and `P` one up to where it sleeps; when
the thread is switched to again, the loop of `P` goes on before anything else
can happen. The calls that have come to an end are counted.
-/

namespace Os161

/-- `inP` holds for the threads that `P` has put to sleep and that have not
come back to its loop; `inside` are those that have come through `P` and not
called `V` since. -/
structure SemSys where
  sys : ThreadSys
  sem : Nat
  count : Int
  inP : Nat → Bool
  initialCount : Nat
  ps : Nat
  vs : Nat
  inside : List Nat

inductive SemFault
  /-- `assert(sem->count>0)` -/
  | assertion
  | thread (e : ThreadFault)
  deriving DecidableEq, Repr

def onThreads {β : Type} : Except ThreadFault β → Except SemFault β
  | .ok b => .ok b
  | .error e => .error (.thread e)

def semCreate (sys : ThreadSys) (sem initialCount : Nat) : SemSys where
  sys := sys
  sem := sem
  count := initialCount
  inP _ := false
  initialCount := initialCount
  ps := 0
  vs := 0
  inside := []

def pLoop (s : SemSys) (t : Nat) (mem : Bool) : Except SemFault SemSys :=
  if s.count = 0 then do
    let sys ← onThreads (threadSleep s.sys s.sem mem)
    .ok { s with sys := sys, inP := Function.update s.inP t true }
  else if 0 < s.count then
    .ok { s with
      count := Q32.int (s.count - 1)
      inP := Function.update s.inP t false
      ps := s.ps + 1
      inside := t :: s.inside }
  else .error .assertion

def semP (s : SemSys) (mem : Bool) : Except SemFault SemSys :=
  match s.sys.curthread with
  | none => .error (.thread .notHere)
  | some t => pLoop s t mem

/-- `V` may also be called by an interrupt handler while no thread runs. -/
def semV (s : SemSys) (mem : Nat → Bool) : Except SemFault SemSys :=
  let count := Q32.int (s.count + 1)
  if 0 < count then do
    let sys ← onThreads (threadWakeup s.sys s.sem mem)
    .ok { s with
      sys := sys
      count := count
      vs := s.vs + 1
      inside := match s.sys.curthread with
        | none => s.inside
        | some t => s.inside.erase t }
  else .error .assertion

inductive SemAct
  | thread (a : ThreadAct)
  | p (mem : Bool)
  /-- The thread comes back from `thread_sleep` to the loop of `P`. -/
  | again (mem : Bool)
  | v (mem : Nat → Bool)

def semStep (s : SemSys) : SemAct → Except SemFault SemSys
  | .thread a => do
    let sys ← onThreads (threadStep s.sys a)
    .ok { s with sys := sys }
  | .p mem => semP s mem
  | .again mem => semP s mem
  | .v mem => semV s mem

def SemSys.looping (s : SemSys) : Bool :=
  match s.sys.curthread with
  | none => false
  | some t => s.inP t

def ThreadAct.sleepsAt (addr : Nat) : ThreadAct → Bool
  | .sleep a _ => a = addr
  | _ => false

/-- Only `P` sleeps on the semaphore, and there are fewer than 2^31 units. -/
def SemAct.Callable (s : SemSys) : SemAct → Prop
  | .thread a => s.looping = false ∧ a.Callable s.sys ∧ a.sleepsAt s.sem = false
  | .p _ => s.looping = false ∧ s.sys.curthread ≠ none
  | .again _ => s.looping = true
  | .v _ => s.looping = false ∧ s.initialCount + s.vs + 1 < 2 ^ 31 + s.ps

def SemAct.Matched (s : SemSys) : SemAct → Prop
  | .v _ => ∃ t, s.sys.curthread = some t ∧ t ∈ s.inside
  | _ => True

end Os161
