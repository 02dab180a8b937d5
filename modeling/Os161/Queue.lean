import Mathlib.Logic.Function.Basic
import Mathlib.Tactic.Common

/-!
# Queues and arrays of pointers

`lib/queue.c` and `lib/array.c`. A cell that has not been written since
`kmalloc` is `none`. Each function that may allocate is told by `mem` whether
`kmalloc` succeeds. Sizes stay far below the limits of `int`.
-/

namespace Os161

inductive ContainerFault
  /-- The function returns ENOMEM and leaves the structure as it is. -/
  | enomem
  | assertion
  | nullPointer
  | uninitialised
  deriving DecidableEq, Repr

/-! ## `queue.c` -/

structure Queue (α : Type) where
  size : Nat
  nextwrite : Nat
  nextread : Nat
  data : Nat → Option α

variable {α : Type}

def qCreate (size : Nat) : Queue α where
  size := size
  nextwrite := 0
  nextread := 0
  data _ := none

def qGrowSize : Nat → Nat → Nat → Nat
  | 0, nsize, _ => nsize
  | rounds + 1, nsize, targetsize =>
    if nsize < targetsize then qGrowSize rounds (nsize * 2) targetsize else nsize

def qStore (q : Queue α) (ptr : α) : Queue α :=
  { q with data := Function.update q.data q.nextwrite (some ptr), nextwrite := (q.nextwrite + 1) % q.size }

/-- The loop of `q_grow`. Were the new queue full, `q_addtail` would grow it
again; here that is a failed assertion. -/
def qGrowLoop (old : Queue α) : Nat → Nat → Queue α → Except ContainerFault (Queue α)
  | 0, _, q => .ok q
  | rounds + 1, i, q =>
    if i = old.nextwrite then .ok q
    else match old.data i with
      | none => .error .uninitialised
      | some ptr =>
        if (q.nextwrite + 1) % q.size = q.nextread then .error .assertion
        else qGrowLoop old rounds ((i + 1) % old.size) (qStore q ptr)

def qGrow (q : Queue α) (targetsize : Nat) (mem : Bool) : Except ContainerFault (Queue α) :=
  if mem then qGrowLoop q q.size q.nextread (qCreate (qGrowSize targetsize q.size targetsize)) else .error .enomem

def qPreallocate (q : Queue α) (size : Nat) (mem : Bool) : Except ContainerFault (Queue α) :=
  if q.size = 0 then .error .assertion
  else if size > q.size then qGrow q size mem
  else .ok q

def qEmpty (q : Queue α) : Bool := q.nextwrite == q.nextread

def qAddtail (q : Queue α) (ptr : α) (mem : Bool) : Except ContainerFault (Queue α) :=
  if q.size = 0 then .error .assertion
  else if (q.nextwrite + 1) % q.size = q.nextread then do
    let q ← qGrow q (q.size + 1) mem
    .ok (qStore q ptr)
  else .ok (qStore q ptr)

def qRemhead (q : Queue α) : Except ContainerFault (α × Queue α) :=
  if q.size = 0 ∨ qEmpty q then .error .assertion
  else match q.data q.nextread with
    | none => .error .uninitialised
    | some ret => .ok (ret, { q with nextread := (q.nextread + 1) % q.size })

def Queue.toList (q : Queue α) : List α :=
  (List.range ((q.nextwrite + q.size - q.nextread) % q.size)).filterMap fun k => q.data ((q.nextread + k) % q.size)

/-! ## `array.c` -/

structure PtrArray (α : Type) where
  num : Nat
  max : Nat
  v : Option (Nat → Option α)

def arrayCreate : PtrArray α := { num := 0, max := 0, v := none }

def arrayGetguy (a : PtrArray α) (index : Nat) : Except ContainerFault α :=
  if a.num ≤ a.max ∧ index < a.num then
    match a.v with
    | none => .error .nullPointer
    | some v => match v index with
      | none => .error .uninitialised
      | some ptr => .ok ptr
  else .error .assertion

def arrayNewmax : Nat → Nat → Nat → Nat
  | 0, newmax, _ => newmax
  | rounds + 1, newmax, nguys => if nguys > newmax then arrayNewmax rounds ((newmax + 1) * 2) nguys else newmax

def arrayCopy (num : Nat) : Option (Nat → Option α) → Except ContainerFault (Nat → Option α)
  | none => if num = 0 then .ok fun _ => none else .error .nullPointer
  | some v => .ok fun i => if i < num then v i else none

def arrayPreallocate (a : PtrArray α) (nguys : Nat) (mem : Bool) : Except ContainerFault (PtrArray α) :=
  if a.max < a.num then .error .assertion
  else if mem then do
    let newv ← arrayCopy a.num a.v
    .ok { num := a.num, max := arrayNewmax nguys a.max nguys, v := some newv }
  else .error .enomem

def arraySetsize (a : PtrArray α) (nguys : Nat) (mem : Bool) : Except ContainerFault (PtrArray α) :=
  if a.max < a.num then .error .assertion
  else if nguys > a.max then do
    let a ← arrayPreallocate a nguys mem
    .ok { a with num := nguys }
  else if nguys = 0 ∧ a.max > 16 then
    if a.v.isNone then .error .assertion else .ok { num := nguys, max := 0, v := none }
  else .ok { a with num := nguys }

def arrayAdd (a : PtrArray α) (guy : α) (mem : Bool) : Except ContainerFault (PtrArray α) := do
  let b ← arraySetsize a (a.num + 1) mem
  match b.v with
  | none => .error .nullPointer
  | some v => .ok { b with v := some (Function.update v a.num (some guy)) }

def arrayRemove (a : PtrArray α) (index : Nat) : Except ContainerFault (PtrArray α) :=
  if a.num ≤ a.max ∧ index < a.num then
    match a.v with
    | none => .error .nullPointer
    | some v =>
      .ok { a with v := some fun i => if index ≤ i ∧ i < a.num - 1 then v (i + 1) else v i, num := a.num - 1 }
  else .error .assertion

def PtrArray.toList (a : PtrArray α) : List α := (List.range a.num).filterMap fun i => a.v.bind (· i)

end Os161
