import Mathlib.Logic.Function.Basic
import Mathlib.Tactic.Common

/-!
# Cats and mice

`cat_simulation` and `mouse_simulation` of `asst1/catmouse.c` with `cat_eat`
and `mouse_eat` of `asst1/bowls.c`, cut at their operations on locks,
condition variables and semaphores, and in `sync_var_init` at each test and
assignment. Locks and condition variables are as `synch.h` specifies them;
`kmalloc` succeeds. The two simulations differ in their species only.
-/

namespace Os161

inductive Species
  | cat
  | mouse
  deriving DecidableEq, Repr

def Species.other : Species → Species
  | .cat => .mouse
  | .mouse => .cat

def Species.letter : Species → Char
  | .cat => 'c'
  | .mouse => 'm'

inductive SyncVar
  | exclusiveCat
  | exclusiveMouse
  | bowlSelectLock
  | counterLock
  | bowlThatIsEmpty
  | bowls
  deriving DecidableEq, Repr

def Species.exclusive : Species → SyncVar
  | .cat => .exclusiveCat
  | .mouse => .exclusiveMouse

/-- Where an animal is: the operation it does next. A bowl is counted from 0. -/
inductive AnimalPc
  /-- `sync_var_init`: the test for NULL, and the assignment. -/
  | test (v : SyncVar)
  | create (v : SyncVar)
  /-- `i < NumLoops`, then `lock_acquire(BowlSelectLock)`. -/
  | top
  /-- The test of the other species' counter. -/
  | check
  /-- `cv_wait`, up to the sleep. -/
  | wait
  | asleep (cv lock : Nat)
  /-- `cv_wait`, getting the lock back. -/
  | woken (lock : Nat)
  /-- `P(BowlThatIsEmpty)` -/
  | take
  /-- The random selection. -/
  | pick
  /-- `lock_release(BowlSelectLock)` -/
  | picked (b : Nat)
  /-- `lock_acquire(CounterLock)`, the counter, `lock_release(CounterLock)` -/
  | count (b : Nat)
  | counting (b : Nat)
  | counted (b : Nat)
  /-- `cat_eat`: `P(mutex)`, the first critical section, the delay and `P(mutex)`, the second section. -/
  | eat (b : Nat)
  | eatBegin (b : Nat)
  | eating (b : Nat)
  | eatEnd (b : Nat)
  /-- `lock_acquire(CounterLock)`, the counter and the mark, `cv_broadcast`, `lock_release(CounterLock)` -/
  | uncount (b : Nat)
  | uncounting (b : Nat)
  | broadcast
  | uncounted
  /-- `V(BowlThatIsEmpty)` -/
  | give
  | done
  deriving DecidableEq, Repr

structure Animal where
  species : Species
  run : Nat
  loop : Nat
  pc : AnimalPc
  deriving DecidableEq, Repr

structure Calls where
  numBowls : Nat → Nat
  numLoops : Nat → Nat

/-- `ptr` are the globals of `SyncVar`; `holder`, `sem` and `marks` are the
locks, semaphores and character arrays by address. `eatMarks`, `eatCount` and
`mutex` belong to `bowls.c`. -/
structure Kitchen (ι : Type) where
  run : Nat
  ptr : SyncVar → Option Nat
  next : Nat
  holder : Nat → Option ι
  sem : Nat → Nat
  marks : Nat → List Char
  num : Species → Int
  eatMarks : List Char
  eatCount : Species → Int
  mutex : Nat
  animals : ι → Animal

inductive KitchenFault
  | blocked
  | notRunning
  | nullPointer
  /-- Only the thread that holds a lock may release it. -/
  | lockNotHeld
  | outOfBounds
  /-- invalid bowl number -/
  | invalidBowl
  /-- attempt to make two cats eat from one bowl -/
  | twoAtBowl
  /-- attempt to make a cat eat while mice are eating, or a mouse while cats are -/
  | eatTogether
  | assertion
  deriving DecidableEq, Repr

variable {ι : Type} [DecidableEq ι]

def Kitchen.setPc (s : Kitchen ι) (i : ι) (pc : AnimalPc) : Kitchen ι :=
  { s with animals := Function.update s.animals i { s.animals i with pc := pc } }

/-! ## Start-up -/

def SyncVar.after : SyncVar → AnimalPc
  | .exclusiveCat => .test .exclusiveMouse
  | .exclusiveMouse => .test .bowlSelectLock
  | .bowlSelectLock => .test .counterLock
  | .counterLock => .test .bowlThatIsEmpty
  | .bowlThatIsEmpty => .test .bowls
  | .bowls => .top

/-- A new object at the next address; `fresh` is what `kmalloc` finds in memory. -/
def Kitchen.create (s : Kitchen ι) (numBowls : Nat) (fresh : Nat → Char) (v : SyncVar) : Kitchen ι :=
  let s := { s with ptr := Function.update s.ptr v (some s.next), next := s.next + 1 }
  let a := s.next - 1
  match v with
  | .exclusiveCat | .exclusiveMouse => s
  | .bowlSelectLock | .counterLock => { s with holder := Function.update s.holder a none }
  | .bowlThatIsEmpty => { s with sem := Function.update s.sem a numBowls }
  | .bowls => { s with marks := Function.update s.marks a ((List.range numBowls).map fresh) }

/-! ## Locks, semaphores and condition variables -/

def Kitchen.deref (s : Kitchen ι) (v : SyncVar) : Except KitchenFault Nat :=
  match s.ptr v with
  | some a => .ok a
  | none => .error .nullPointer

def Kitchen.acquire (s : Kitchen ι) (i : ι) (a : Nat) : Except KitchenFault (Kitchen ι) :=
  if s.holder a = none then .ok { s with holder := Function.update s.holder a (some i) } else .error .blocked

def Kitchen.release (s : Kitchen ι) (i : ι) (a : Nat) : Except KitchenFault (Kitchen ι) :=
  if s.holder a = some i then .ok { s with holder := Function.update s.holder a none } else .error .lockNotHeld

def Animal.wake (cv : Nat) (x : Animal) : Animal :=
  match x.pc with
  | .asleep c l => if c = cv then { x with pc := .woken l } else x
  | _ => x

def Kitchen.cvBroadcast (s : Kitchen ι) (cv : Nat) : Kitchen ι := { s with animals := fun j => (s.animals j).wake cv }

/-! ## `bowls.c` -/

def Kitchen.eatP (s : Kitchen ι) : Except KitchenFault (Kitchen ι) :=
  if s.mutex = 0 then .error .blocked else .ok { s with mutex := s.mutex - 1 }

def Kitchen.eatBegin (s : Kitchen ι) (k : Species) (b : Nat) : Except KitchenFault (Kitchen ι) :=
  if s.eatMarks[b]? = some k.letter then .error .twoAtBowl
  else if s.eatCount k.other > 0 then .error .eatTogether
  else if s.eatMarks[b]? = some '-' ∧ s.eatCount k.other = 0 then
    .ok { s with
      eatCount := Function.update s.eatCount k (s.eatCount k + 1)
      eatMarks := s.eatMarks.set b k.letter
      mutex := s.mutex + 1 }
  else .error .assertion

def Kitchen.eatEnd (s : Kitchen ι) (k : Species) (b : Nat) : Except KitchenFault (Kitchen ι) :=
  if s.eatCount k > 0 ∧ s.eatMarks[b]? = some k.letter then
    .ok { s with
      eatCount := Function.update s.eatCount k (s.eatCount k - 1)
      eatMarks := s.eatMarks.set b '-'
      mutex := s.mutex + 1 }
  else .error .assertion

/-! ## The simulations -/

def Kitchen.select (s : Kitchen ι) (i : ι) (a b : Nat) : Except KitchenFault (Kitchen ι) :=
  match (s.marks a)[b]? with
  | none => .error .outOfBounds
  | some m =>
    if m ≠ 'o' then .ok ({ s with marks := Function.update s.marks a ((s.marks a).set b 'o') }.setPc i (.picked b))
    else .ok s

def Kitchen.uncount (s : Kitchen ι) (i : ι) (k : Species) (a b : Nat) : Kitchen ι :=
  { s with
    num := Function.update s.num k (s.num k - 1)
    marks := Function.update s.marks a ((s.marks a).set b '-') }.setPc i
      (if s.num k - 1 = 0 then .broadcast else .uncounted)

/-- What animal `i` does at a place: `draw` is what `random` returns and
`fresh` what `kmalloc` finds in memory. -/
def animalExec (c : Calls) (s : Kitchen ι) (i : ι) (draw : Nat) (fresh : Nat → Char) :
    AnimalPc → Except KitchenFault (Kitchen ι)
  | .test v => .ok (s.setPc i (if s.ptr v = none then .create v else v.after))
  | .create v => .ok ((s.create (c.numBowls s.run) fresh v).setPc i v.after)
  | .top =>
    if (s.animals i).loop < c.numLoops s.run then do
      let a ← s.deref .bowlSelectLock
      let s ← s.acquire i a
      .ok (s.setPc i .check)
    else .ok (s.setPc i .done)
  | .check => .ok (s.setPc i (if s.num (s.animals i).species.other > 0 then .wait else .take))
  | .wait => do
    let cv ← s.deref (s.animals i).species.exclusive
    let a ← s.deref .bowlSelectLock
    let s ← s.release i a
    .ok (s.setPc i (.asleep cv a))
  | .asleep _ _ => .error .blocked
  | .woken a => do
    let s ← s.acquire i a
    .ok (s.setPc i .check)
  | .take => do
    let a ← s.deref .bowlThatIsEmpty
    if s.sem a = 0 then .error .blocked
    else .ok ({ s with sem := Function.update s.sem a (s.sem a - 1) }.setPc i .pick)
  | .pick => do
    let a ← s.deref .bowls
    s.select i a (draw % c.numBowls s.run)
  | .picked b => do
    let a ← s.deref .bowlSelectLock
    let s ← s.release i a
    .ok (s.setPc i (.count b))
  | .count b => do
    let a ← s.deref .counterLock
    let s ← s.acquire i a
    .ok (s.setPc i (.counting b))
  | .counting b =>
    .ok ({ s with num := Function.update s.num (s.animals i).species (s.num (s.animals i).species + 1) }.setPc i
      (.counted b))
  | .counted b => do
    let a ← s.deref .counterLock
    let s ← s.release i a
    .ok (s.setPc i (.eat b))
  | .eat b =>
    if c.numBowls s.run < b + 1 then .error .invalidBowl
    else do
      let s ← s.eatP
      .ok (s.setPc i (.eatBegin b))
  | .eatBegin b => do
    let s ← s.eatBegin (s.animals i).species b
    .ok (s.setPc i (.eating b))
  | .eating b => do
    let s ← s.eatP
    .ok (s.setPc i (.eatEnd b))
  | .eatEnd b => do
    let s ← s.eatEnd (s.animals i).species b
    .ok (s.setPc i (.uncount b))
  | .uncount b => do
    let a ← s.deref .counterLock
    let s ← s.acquire i a
    .ok (s.setPc i (.uncounting b))
  | .uncounting b => do
    let a ← s.deref .bowls
    .ok (s.uncount i (s.animals i).species a b)
  | .broadcast => do
    let cv ← s.deref (s.animals i).species.other.exclusive
    .ok ((s.cvBroadcast cv).setPc i .uncounted)
  | .uncounted => do
    let a ← s.deref .counterLock
    let s ← s.release i a
    .ok (s.setPc i .give)
  | .give => do
    let a ← s.deref .bowlThatIsEmpty
    .ok { s with
      sem := Function.update s.sem a (s.sem a + 1)
      animals := Function.update s.animals i { s.animals i with loop := (s.animals i).loop + 1, pc := .top } }
  | .done => .error .notRunning

def animalStep (c : Calls) (s : Kitchen ι) (i : ι) (draw : Nat) (fresh : Nat → Char) :
    Except KitchenFault (Kitchen ι) :=
  if (s.animals i).run ≠ s.run then .error .notRunning else animalExec c s i draw fresh (s.animals i).pc

def nextCall (c : Calls) (s : Kitchen ι) : Kitchen ι :=
  { s with
    run := s.run + 1
    eatMarks := List.replicate (c.numBowls (s.run + 1)) '-'
    eatCount := fun _ => 0
    mutex := 1 }

inductive KitchenAct (ι : Type)
  | animal (i : ι) (draw : Nat) (fresh : Nat → Char)
  | nextCall

def kitchenStep (c : Calls) (s : Kitchen ι) : KitchenAct ι → Except KitchenFault (Kitchen ι)
  | .animal i draw fresh => animalStep c s i draw fresh
  | .nextCall => .ok (nextCall c s)

def KitchenAct.Callable (s : Kitchen ι) : KitchenAct ι → Prop
  | .animal _ _ _ => True
  | .nextCall => ∀ i, (s.animals i).run = s.run → (s.animals i).pc = .done

def Kitchen.boot (c : Calls) (kind : ι → Species) (run : ι → Nat) : Kitchen ι where
  run := 0
  ptr _ := none
  next := 0
  holder _ := none
  sem _ := 0
  marks _ := []
  num _ := 0
  eatMarks := List.replicate (c.numBowls 0) '-'
  eatCount _ := 0
  mutex := 1
  animals i := { species := kind i, run := run i, loop := 0, pc := .test .exclusiveCat }

def SyncVar.addr : SyncVar → Nat
  | .exclusiveCat => 0
  | .exclusiveMouse => 1
  | .bowlSelectLock => 2
  | .counterLock => 3
  | .bowlThatIsEmpty => 4
  | .bowls => 5

def Kitchen.start (c : Calls) (kind : ι → Species) (fresh : Nat → Char) : Kitchen ι where
  run := 0
  ptr v := some v.addr
  next := 6
  holder _ := none
  sem _ := c.numBowls 0
  marks _ := (List.range (c.numBowls 0)).map fresh
  num _ := 0
  eatMarks := List.replicate (c.numBowls 0) '-'
  eatCount _ := 0
  mutex := 1
  animals i := { species := kind i, run := 0, loop := 0, pc := .top }

end Os161
