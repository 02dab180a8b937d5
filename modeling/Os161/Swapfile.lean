import Os161.Machine

/-!
# The swap file

`swapfile.c`: slots of one page each, the free ones linked through
`pageList` from `freePages`. `data` is the contents of SWAPFILE by slot; the
device is error-free.
-/

namespace Os161

def swapSize : Nat := 4194304

def swapPages : Nat := swapSize / pageSize

structure Swap where
  index : Nat → Nat
  next : Nat → Option Nat
  freePages : Option Nat
  data : Nat → Page

def swapBootstrap (w : Swap) : Swap :=
  { index := fun i => if i < swapPages then i else w.index i
    next := fun i => if i < swapPages - 1 then some (i + 1) else if i = swapPages - 1 then none else w.next i
    freePages := some 0
    data := w.data }

/-- Puts a slot in front of the free list, as `swap_free_page` and the end of
`swap_read` do, without a look at the index they are given. -/
def swapPush (w : Swap) (n : Int) : Except Panic Swap :=
  if 0 ≤ n ∧ n < swapPages then
    .ok { w with next := Function.update w.next n.toNat w.freePages, freePages := some n.toNat }
  else .error .outOfBounds

def swapFreePage (w : Swap) (n : Int) : Except Panic Swap := swapPush w n

def swapTake (w : Swap) : Except Panic (Nat × Swap) :=
  match w.freePages with
  | none => .error .outOfSwapSpace
  | some node => .ok (w.index node, { w with freePages := w.next node })

def swapWritePage (w : Swap) (data : Page) (n : Nat) : Swap :=
  { w with data := Function.update w.data n data }

def swapWrite (w : Swap) (data : Page) : Except Panic (Nat × Swap) := do
  let (pagenum, w) ← swapTake w
  .ok (pagenum, swapWritePage w data pagenum)

def swapReadPage (w : Swap) (n : Int) : Except Panic Page :=
  if 0 ≤ n ∧ n < swapPages then .ok (w.data n.toNat) else .error .outOfBounds

end Os161
