import Os161.Lib.Tally
import Mathlib.Data.Fintype.Prod

/-!
# Cars at an intersection

`approachintersection` and the twelve movements of `asst1/stoplight_v3.c`.
A car runs a list of instructions, one at a time and interleaved with the
others; a section under `splhigh` is one instruction. Locks are as
`synch.h` specifies them, and queue growth succeeds. The count of finished
cars, which only the menu thread waits for, and the messages are left out.
-/

namespace Os161

inductive Quadrant
  | nw
  | ne
  | se
  | sw
  deriving DecidableEq, Repr

instance : Fintype Quadrant := ⟨{.nw, .ne, .se, .sw}, by rintro ⟨⟩ <;> decide⟩

inductive StopLock
  | quad (q : Quadrant)
  | temp
  deriving DecidableEq, Repr

instance : Fintype StopLock :=
  ⟨{.quad .nw, .quad .ne, .quad .se, .quad .sw, .temp}, by rintro (⟨⟨⟩⟩ | _) <;> decide⟩

inductive Direction
  | north
  | east
  | south
  | west
  deriving DecidableEq, Repr

instance : Fintype Direction := ⟨{.north, .east, .south, .west}, by rintro ⟨⟩ <;> decide⟩

inductive Turn
  | right
  | left
  | straight
  deriving DecidableEq, Repr

instance : Fintype Turn := ⟨{.right, .left, .straight}, by rintro ⟨⟩ <;> decide⟩

inductive Instr
  | acquire (l : StopLock)
  | release (l : StopLock)
  /-- The loop that sleeps while the quadrant is marked, or `limit > 2`. -/
  | await (l : StopLock)
  /-- Marks the quadrant, or counts the car in `limit`. -/
  | enter (l : StopLock)
  | leave (l : StopLock)
  /-- Wakes the first car of the queue, if its counter is not 0. -/
  | signal (l : StopLock)
  deriving DecidableEq, Repr

def crossing (q : Quadrant) : List Instr :=
  [.acquire (.quad q), .await (.quad q), .enter (.quad q), .leave (.quad q)]

def clearing (q : Quadrant) : List Instr := [.signal (.quad q), .release (.quad q)]

def gostraightVia (a b : Quadrant) : List Instr := crossing a ++ crossing b ++ clearing a ++ clearing b

def gostraight : Direction → List Instr
  | .north => gostraightVia .nw .sw
  | .east => gostraightVia .ne .nw
  | .south => gostraightVia .se .ne
  | .west => gostraightVia .sw .se

def turnleftVia (a b c : Quadrant) : List Instr :=
  crossing a ++ crossing b ++ clearing a ++ crossing c ++ clearing b ++ clearing c

def turnleft : Direction → List Instr
  | .north => turnleftVia .nw .sw .se
  | .east => turnleftVia .ne .nw .sw
  | .south => turnleftVia .se .ne .nw
  | .west => turnleftVia .sw .se .ne

def turnrightVia (a : Quadrant) : List Instr := crossing a ++ clearing a

def turnright : Direction → List Instr
  | .north => turnrightVia .nw
  | .east => turnrightVia .ne
  | .south => turnrightVia .se
  | .west => turnrightVia .sw

abbrev Plan := Direction × Turn

def movement : Plan → List Instr
  | (d, .right) => turnright d
  | (d, .left) => turnleft d
  | (d, .straight) => gostraight d

def approachintersection (p : Plan) : List Instr :=
  [.acquire .temp, .await .temp, .enter .temp, .release .temp] ++ movement p ++
    [.acquire .temp, .leave .temp, .signal .temp, .release .temp]

/-- A car in the loop of an `await` has given up the lock: it sleeps, or was
woken and is at `lock_acquire` again. -/
inductive CarMode
  | awake
  | asleep (l : StopLock)
  | woken (l : StopLock)
  deriving DecidableEq, Repr

structure Car where
  plan : Plan
  pos : Nat
  mode : CarMode
  deriving DecidableEq, Repr

def Car.instr (c : Car) : Option Instr := (approachintersection c.plan)[c.pos]?

structure Stoplight (n : Nat) where
  holder : StopLock → Option (Fin n)
  /-- `NW`, `NE`, `SE`, `SW` -/
  mark : Quadrant → Nat
  limit : Int
  count : StopLock → Int
  queue : StopLock → List (Fin n)
  cars : Fin n → Car

def Stoplight.start {n : Nat} (plan : Fin n → Plan) : Stoplight n where
  holder _ := none
  mark _ := 0
  limit := 0
  count _ := 0
  queue _ := []
  cars i := { plan := plan i, pos := 0, mode := .awake }

inductive StopFault
  | blocked
  | finished
  /-- assert(lock_do_i_hold(..)) -/
  | lockNotHeld
  /-- assert(!q_empty(q)) -/
  | queueEmpty
  deriving DecidableEq, Repr

variable {n : Nat}

def Stoplight.busy (s : Stoplight n) : StopLock → Bool
  | .quad q => s.mark q == 1
  | .temp => decide (s.limit > 2)

def Stoplight.setCar (s : Stoplight n) (i : Fin n) (c : Car) : Stoplight n :=
  { s with cars := Function.update s.cars i c }

def Stoplight.advance (s : Stoplight n) (i : Fin n) : Stoplight n :=
  s.setCar i { s.cars i with pos := (s.cars i).pos + 1 }

def Stoplight.setHolder (s : Stoplight n) (l : StopLock) (h : Option (Fin n)) : Stoplight n :=
  { s with holder := Function.update s.holder l h }

def Stoplight.sleepOn (s : Stoplight n) (i : Fin n) (l : StopLock) : Stoplight n :=
  { (s.setHolder l none).setCar i { s.cars i with mode := .asleep l } with
    count := Function.update s.count l (s.count l + 1)
    queue := Function.update s.queue l (s.queue l ++ [i]) }

def Stoplight.wakeup (s : Stoplight n) (w : Fin n) : Stoplight n :=
  match (s.cars w).mode with
  | .asleep l => s.setCar w { s.cars w with mode := .woken l }
  | _ => s

def Stoplight.enter (s : Stoplight n) : StopLock → Stoplight n
  | .quad q => { s with mark := Function.update s.mark q 1 }
  | .temp => { s with limit := s.limit + 1 }

def Stoplight.leave (s : Stoplight n) : StopLock → Stoplight n
  | .quad q => { s with mark := Function.update s.mark q 0 }
  | .temp => { s with limit := s.limit - 1 }

def Stoplight.signal (s : Stoplight n) (i : Fin n) (l : StopLock) : Except StopFault (Stoplight n) :=
  if s.count l ≠ 0 then
    if s.holder l = some i then
      match s.queue l with
      | [] => .error .queueEmpty
      | w :: rest =>
        .ok ({ s with
          count := Function.update s.count l (s.count l - 1)
          queue := Function.update s.queue l rest }.wakeup w)
    else .error .lockNotHeld
  else .ok s

def Stoplight.exec (s : Stoplight n) (i : Fin n) : Instr → Except StopFault (Stoplight n)
  | .acquire l => if s.holder l = none then .ok ((s.setHolder l (some i)).advance i) else .error .blocked
  | .release l => .ok ((s.setHolder l none).advance i)
  | .await l =>
    if s.busy l then
      if s.holder l = some i then .ok (s.sleepOn i l) else .error .lockNotHeld
    else .ok (s.advance i)
  | .enter l => .ok ((s.enter l).advance i)
  | .leave l => .ok ((s.leave l).advance i)
  | .signal l => do
    let s ← s.signal i l
    .ok (s.advance i)

def stoplightStep (s : Stoplight n) (i : Fin n) : Except StopFault (Stoplight n) :=
  match (s.cars i).mode with
  | .asleep _ => .error .blocked
  | .woken l =>
    if s.holder l = none then .ok ((s.setHolder l (some i)).setCar i { s.cars i with mode := .awake })
    else .error .blocked
  | .awake =>
    match (s.cars i).instr with
    | none => .error .finished
    | some a => s.exec i a

end Os161
