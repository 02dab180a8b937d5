import Mathlib.Data.BitVec
import Mathlib.Tactic.Common

/-!
# Bitmaps

`lib/bitmap.c`. The list `v` is the array of bytes as long as it was
allocated: an access past its end is a fault. Sizes and indices are the
values of `u_int32_t`; `DIVROUNDUP` adds modulo `2 ^ 32`.
-/

namespace Os161

inductive BitmapFault
  | assertion
  | outOfBounds
  deriving DecidableEq, Repr

def bitsPerWord : Nat := 8

def wordAllbits : BitVec 8 := 0xff#8

def divRoundUp32 (a b : Nat) : Nat := (a + b - 1) % 2 ^ 32 / b

structure Bitmap where
  nbits : Nat
  v : List (BitVec 8)
  deriving DecidableEq, Repr

def Bitmap.word (b : Bitmap) (ix : Nat) : Except BitmapFault (BitVec 8) :=
  match b.v[ix]? with
  | none => .error .outOfBounds
  | some w => .ok w

def Bitmap.setWord (b : Bitmap) (ix : Nat) (w : BitVec 8) : Bitmap := { b with v := b.v.set ix w }

def markLeftover (w : BitVec 8) (overbits : Nat) : BitVec 8 :=
  (List.range' overbits (bitsPerWord - overbits)).foldl (fun w j => w ||| 1#8 <<< j) w

/-- `mem` and `memv` say whether the two calls of `kmalloc` succeed; `none` is NULL. -/
def Bitmap.create (nbits : Nat) (mem memv : Bool) : Except BitmapFault (Option Bitmap) :=
  let words := divRoundUp32 nbits bitsPerWord
  if mem && memv then
    let b : Bitmap := { nbits := nbits, v := List.replicate words 0#8 }
    if nbits / bitsPerWord < words then
      let ix := words - 1
      let overbits := nbits - ix * bitsPerWord
      if nbits / bitsPerWord = words - 1 ∧ overbits > 0 ∧ overbits < bitsPerWord then do
        let w ← b.word ix
        .ok (some (b.setWord ix (markLeftover w overbits)))
      else .error .assertion
    else .ok (some b)
  else .ok none

def findOffset (w : BitVec 8) : Nat → Nat → Option Nat
  | 0, _ => none
  | rounds + 1, offset => if w &&& 1#8 <<< offset = 0#8 then some offset else findOffset w rounds (offset + 1)

def Bitmap.allocLoop (b : Bitmap) : Nat → Nat → Except BitmapFault (Option Nat × Bitmap)
  | 0, _ => .ok (none, b)
  | rounds + 1, ix => do
    let w ← b.word ix
    if w ≠ wordAllbits then
      match findOffset w bitsPerWord 0 with
      | none => .error .assertion
      | some offset =>
        let index := ix * bitsPerWord + offset
        if index < b.nbits then .ok (some index, b.setWord ix (w ||| 1#8 <<< offset)) else .error .assertion
    else b.allocLoop rounds (ix + 1)

def Bitmap.alloc (b : Bitmap) : Except BitmapFault (Option Nat × Bitmap) :=
  b.allocLoop (divRoundUp32 b.nbits bitsPerWord) 0

def bitmapTranslate (bitno : Nat) : Nat × BitVec 8 := (bitno / bitsPerWord, 1#8 <<< (bitno % bitsPerWord))

def Bitmap.mark (b : Bitmap) (index : Nat) : Except BitmapFault Bitmap :=
  if index < b.nbits then do
    let (ix, mask) := bitmapTranslate index
    let w ← b.word ix
    if w &&& mask = 0#8 then .ok (b.setWord ix (w ||| mask)) else .error .assertion
  else .error .assertion

def Bitmap.unmark (b : Bitmap) (index : Nat) : Except BitmapFault Bitmap :=
  if index < b.nbits then do
    let (ix, mask) := bitmapTranslate index
    let w ← b.word ix
    if w &&& mask ≠ 0#8 then .ok (b.setWord ix (w &&& ~~~mask)) else .error .assertion
  else .error .assertion

def Bitmap.isset (b : Bitmap) (index : Nat) : Except BitmapFault (BitVec 8) := do
  let (ix, mask) := bitmapTranslate index
  let w ← b.word ix
  .ok (w &&& mask)

/-! ## Sequences of calls -/

inductive BitmapCall
  | alloc
  | mark (index : Nat)
  | unmark (index : Nat)

def bitmapStep (b : Bitmap) : BitmapCall → Except BitmapFault Bitmap
  | .alloc => do
    let (_, b) ← b.alloc
    .ok b
  | .mark index => b.mark index
  | .unmark index => b.unmark index

end Os161
