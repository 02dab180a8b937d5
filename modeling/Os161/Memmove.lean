import Os161.Lib.Bytes
import Mathlib.Data.BitVec
import Mathlib.Logic.Function.Basic

/-!
# Copying memory

`memcpy.c` and `memmove.c` of `lib/libc`, on one memory. Pointers and lengths
are 32 bits wide, and a `long` has four bytes. A word that is not aligned
cannot be accessed.
-/

namespace Os161

open Bytes

def sizeofLong : Nat := 4

inductive MemFault
  | unaligned
  deriving DecidableEq, Repr

def elementAt (p : BitVec 32) (size i : Nat) : Nat := (p + BitVec.ofNat 32 (size * i)).toNat

def moveByte (dst src : BitVec 32) (i : Nat) (m : Mem) : Except MemFault Mem :=
  .ok (Function.update m (elementAt dst 1 i) (m (elementAt src 1 i)))

def moveWord (dst src : BitVec 32) (i : Nat) (m : Mem) : Except MemFault Mem :=
  let d := elementAt dst sizeofLong i
  let s := elementAt src sizeofLong i
  if s % sizeofLong = 0 ∧ d % sizeofLong = 0 then .ok (putBE m d sizeofLong (getBE m s sizeofLong))
  else .error .unaligned

def upLoop (move : Nat → Mem → Except MemFault Mem) : (rounds i : Nat) → Mem → Except MemFault Mem
  | 0, _, m => .ok m
  | rounds + 1, i, m => do
    let m ← move i m
    upLoop move rounds (i + 1) m

def downLoop (move : Nat → Mem → Except MemFault Mem) : (i : Nat) → Mem → Except MemFault Mem
  | 0, m => .ok m
  | i + 1, m => do
    let m ← move i m
    downLoop move i m

def wordwise (dst src len : BitVec 32) : Prop :=
  dst.toNat % sizeofLong = 0 ∧ src.toNat % sizeofLong = 0 ∧ len.toNat % sizeofLong = 0

instance (dst src len : BitVec 32) : Decidable (wordwise dst src len) :=
  inferInstanceAs (Decidable (_ ∧ _ ∧ _))

def memcpy (dst src len : BitVec 32) (m : Mem) : Except MemFault (BitVec 32 × Mem) := do
  let m ←
    if wordwise dst src len then upLoop (moveWord dst src) (len.toNat / sizeofLong) 0 m
    else upLoop (moveByte dst src) len.toNat 0 m
  .ok (dst, m)

def memmove (dst src len : BitVec 32) (m : Mem) : Except MemFault (BitVec 32 × Mem) :=
  if dst.toNat < src.toNat then memcpy dst src len m
  else do
    let m ←
      if wordwise dst src len then downLoop (moveWord dst src) (len.toNat / sizeofLong) m
      else downLoop (moveByte dst src) len.toNat m
    .ok (dst, m)

end Os161
