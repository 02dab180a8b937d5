import Os161.Machine
import Os161.Queue

/-!
# Queues with machine integers

`lib/queue.c` once more, with its `int`s and with the buffer that `kmalloc`
gives for the number of bytes it is asked for: both have 32 bits and wrap.
-/

namespace Os161.Q32

variable {α : Type}

def int (n : Int) : Int := n.bmod (2 ^ 32)

/-- The pointers there is room for in `kmalloc(n * sizeof(void *))`. -/
def roomFor (n : Int) : Nat := u32 ((n % 2 ^ 32).toNat * 4) / 4

structure Queue (α : Type) where
  size : Int
  nextwrite : Int
  nextread : Int
  room : Nat
  data : Nat → Option α

inductive QFault
  /-- The function returns ENOMEM and leaves the queue as it is. -/
  | enomem
  | assertion
  | outOfBounds
  | uninitialised
  /-- `q_addtail` would have to grow the queue that `q_grow` is filling. -/
  | growsAgain
  deriving DecidableEq, Repr

def qCreate (size : Int) : Queue α where
  size := size
  nextwrite := 0
  nextread := 0
  room := roomFor size
  data _ := none

def Queue.cell (q : Queue α) (i : Int) : Except QFault α :=
  if 0 ≤ i ∧ i.toNat < q.room then
    match q.data i.toNat with
    | some ptr => .ok ptr
    | none => .error .uninitialised
  else .error .outOfBounds

def Queue.nextnext (q : Queue α) : Int := (int (q.nextwrite + 1)).tmod q.size

def qStore (q : Queue α) (ptr : α) : Except QFault (Queue α) :=
  if 0 ≤ q.nextwrite ∧ q.nextwrite.toNat < q.room then
    .ok { q with data := Function.update q.data q.nextwrite.toNat (some ptr), nextwrite := q.nextnext }
  else .error .outOfBounds

def qAddtailInner (q : Queue α) (ptr : α) : Except QFault (Queue α) :=
  if q.size ≤ 0 then .error .assertion
  else if q.nextnext = q.nextread then .error .growsAgain
  else qStore q ptr

/-- The loop that doubles the size, with the rounds left. An `int` cannot be
doubled more than 31 times before the assertion fails. -/
def qGrowSize : Nat → Int → Int → Option Int
  | 0, _, _ => none
  | rounds + 1, nsize, targetsize =>
    if nsize < targetsize then
      if int (nsize * 2) ≤ 0 then none else qGrowSize rounds (int (nsize * 2)) targetsize
    else some nsize

def qGrowLoop (old : Queue α) : Nat → Int → Queue α → Except QFault (Queue α)
  | 0, _, q => .ok q
  | rounds + 1, i, q =>
    if i = old.nextwrite then .ok q
    else do
      let ptr ← old.cell i
      let q ← qAddtailInner q ptr
      qGrowLoop old rounds ((int (i + 1)).tmod old.size) q

def qGrow (q : Queue α) (targetsize : Int) (mem : Bool) : Except QFault (Queue α) :=
  match qGrowSize 32 q.size targetsize with
  | none => .error .assertion
  | some nsize => if mem then qGrowLoop q q.size.toNat q.nextread (qCreate nsize) else .error .enomem

def qPreallocate (q : Queue α) (size : Int) (mem : Bool) : Except QFault (Queue α) :=
  if q.size ≤ 0 then .error .assertion
  else if q.size < size then qGrow q size mem
  else .ok q

def qEmpty (q : Queue α) : Bool := q.nextwrite == q.nextread

def qAddtail (q : Queue α) (ptr : α) (mem : Bool) : Except QFault (Queue α) :=
  if q.size ≤ 0 then .error .assertion
  else if q.nextnext = q.nextread then do
    let q ← qGrow q (int (q.size + 1)) mem
    qStore q ptr
  else qStore q ptr

def qRemhead (q : Queue α) : Except QFault (α × Queue α) :=
  if q.size ≤ 0 ∨ qEmpty q = true then .error .assertion
  else do
    let ret ← q.cell q.nextread
    .ok (ret, { q with nextread := (int (q.nextread + 1)).tmod q.size })

def Queue.toList (q : Queue α) : List α :=
  (List.range ((q.nextwrite + q.size - q.nextread) % q.size).toNat).filterMap fun k : Nat =>
    q.data ((q.nextread + k) % q.size).toNat

/-! ## Runs -/

inductive QOp (α : Type)
  | addtail (ptr : α) (mem : Bool)
  | remhead
  | preallocate (size : Int) (mem : Bool)

def orSame (q : Queue α) : Except QFault (Queue α) → Except QFault (Queue α)
  | .error .enomem => .ok q
  | r => r

def qStep (q : Queue α) : QOp α → Except QFault (Queue α)
  | .addtail ptr mem => orSame q (qAddtail q ptr mem)
  | .remhead => do
    let (_, q) ← qRemhead q
    .ok q
  | .preallocate size mem => orSame q (qPreallocate q size mem)

def QOp.callable (q : Queue α) : QOp α → Prop
  | .addtail _ _ => True
  | .remhead => qEmpty q = false
  | .preallocate size _ => -2 ^ 31 ≤ size ∧ size < 2 ^ 31

end Os161.Q32
