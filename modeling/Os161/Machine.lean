import Mathlib.Algebra.Group.Int.Defs
import Mathlib.Algebra.Group.Nat.Defs
import Mathlib.Data.List.TakeWhile
import Mathlib.Logic.Function.Basic
import Mathlib.Tactic.Common

/-!
# The machine: pages, addresses, and the ways the kernel stops

Constants of `machine/vm.h`. Addresses are 32-bit words kept in `Nat`;
arithmetic that can wrap goes through `u32`.
-/

namespace Os161

def pageSize : Nat := 4096

def pageFrame : Nat := 0xfffff000

def mipsKseg0 : Nat := 0x80000000

def userTop : Nat := mipsKseg0

def paddrToKvaddr (paddr : Nat) : Nat := paddr + mipsKseg0

abbrev Page := Nat → UInt8

def SamePage (x y : Page) : Prop := ∀ off < pageSize, x off = y off

def u32 (n : Nat) : Nat := n % 2 ^ 32

def toOff (n : Nat) : Int := if n < 2 ^ 31 then n else (n : Int) - 2 ^ 32

inductive Errno
  | einval
  | efault
  | enametoolong
  | enomem
  | eio
  | enoent
  | enotdir
  | eisdir
  | eexist
  | eunimp
  | enxio
  | enodev
  | ebusy
  | enospc
  | enoexec
  | e2big
  | ebadf
  deriving DecidableEq, Repr

inductive Assertion
  | coreMapIsInit
  | freeListNotEmpty
  | onlyFrameIsTheOneRemoved
  | frameNotBelowLowest
  | frameIsKernelOwned
  | vaddrIsPageAligned
  | paddrIsPageAligned
  | faultHasSegment
  | segmentIsInactive
  | currentSpaceIsCopied
  | vnodeIsOpen
  | threadHasVmspace
  deriving DecidableEq, Repr

inductive Panic
  /-- FREE PHYSICAL FRAMES NOT IN THE FREE LIST -/
  | freeFramesNotInFreeList
  /-- Too many kernel pages! No more space in RAM for a new page. -/
  | tooManyKernelPages
  /-- No space to get num kernel page(s)! -/
  | noSpaceForKernelPages (num : Nat)
  /-- Out of swap space -/
  | outOfSwapSpace
  /-- uiomove: size reached 0 -/
  | uiomoveSizeReachedZero
  | assertionFailed (a : Assertion)
  | nullPointer
  | outOfBounds
  /-- Not a failure of the kernel: `thread_exit` does not return. -/
  | threadExit
  deriving DecidableEq, Repr

theorem SamePage.refl (x : Page) : SamePage x x := fun _ _ => rfl

theorem SamePage.symm {x y : Page} (h : SamePage x y) : SamePage y x := fun off ho => (h off ho).symm

theorem SamePage.trans {x y z : Page} (h : SamePage x y) (h' : SamePage y z) : SamePage x z :=
  fun off ho => (h off ho).trans (h' off ho)

/-! ## Page arithmetic -/

theorem u32_of_lt {n : Nat} (h : n < 2 ^ 32) : u32 n = n := Nat.mod_eq_of_lt h

theorem u32_lt (n : Nat) : u32 n < 2 ^ 32 := Nat.mod_lt _ (by decide)

theorem and_pageFrame {a : Nat} (h : a < 2 ^ 32) : a &&& pageFrame = a / pageSize * pageSize := by
  have hl : a / 4096 * 4096 = (a >>> 12) <<< 12 := by
    rw [Nat.shiftLeft_eq, Nat.shiftRight_eq_div_pow]
  unfold pageFrame pageSize
  rw [hl]
  apply Nat.eq_of_testBit_eq
  intro i
  rw [Nat.testBit_and, Nat.testBit_shiftLeft, Nat.testBit_shiftRight]
  have hm : Nat.testBit 0xfffff000 i = (decide (12 ≤ i) && decide (i < 32)) := by
    rw [show (0xfffff000 : Nat) = (2 ^ 20 - 1) <<< 12 by decide, Nat.testBit_shiftLeft, Nat.testBit_two_pow_sub_one]
    by_cases h1 : 12 ≤ i
    · simp only [ge_iff_le, h1, decide_true, Bool.true_and]
      congr 1; simp only [eq_iff_iff]; omega
    · simp [h1]
  rw [hm]
  by_cases h1 : 12 ≤ i
  · by_cases h2 : i < 32
    · simp [h1, h2, Nat.add_sub_cancel' h1]
    · have : a.testBit i = false :=
        Nat.testBit_lt_two_pow (Nat.lt_of_lt_of_le h (Nat.pow_le_pow_right (by decide) (Nat.le_of_not_lt h2)))
      simp [h1, this, Nat.add_sub_cancel' h1]
  · simp [h1]

theorem and_pageFrame_eq_iff {a : Nat} (h : a < 2 ^ 32) : a &&& pageFrame = a ↔ a % pageSize = 0 := by
  rw [and_pageFrame h]
  unfold pageSize
  omega

theorem u32_sub {a b : Nat} (h : b ≤ a) (ha : a < 2 ^ 32) : u32 (a + 2 ^ 32 - b) = a - b := by
  unfold u32
  rw [show a + 2 ^ 32 - b = a - b + 2 ^ 32 by omega, Nat.add_mod_right, Nat.mod_eq_of_lt (by omega)]

/-! ## Strings -/

structure CString where
  chars : List UInt8
  noNul : 0 ∉ chars

def strlen (s : CString) : Nat := s.chars.length

def CString.byte (s : CString) (i : Nat) : UInt8 := s.chars.getD i 0

def strchr (s : CString) (ch : UInt8) : Option Nat :=
  match s.chars.findIdx? (· == ch) with
  | some i => some i
  | none => if ch = 0 then some (strlen s) else none

def CString.upto (s : CString) (n : Nat) : CString := ⟨s.chars.take n, fun h => s.noNul (List.mem_of_mem_take h)⟩

def colon : UInt8 := 58

def slash : UInt8 := 47

theorem CString.ext {s t : CString} (h : s.chars = t.chars) : s = t := by
  cases s
  cases t
  cases h
  rfl

def stringAt (buf : List UInt8) (p : Nat) : CString :=
  ⟨(buf.drop p).takeWhile (· != 0), fun h => by simpa using List.mem_takeWhile_imp h⟩

theorem stringAt_drop {buf cs post : List UInt8} {p : Nat} (h : buf.drop p = cs ++ 0 :: post) (h0 : 0 ∉ cs) :
    (stringAt buf p).chars = cs := by
  have hall : ∀ ch ∈ cs, (ch != 0) = true := by
    intro ch hch
    exact bne_iff_ne.mpr fun he => h0 (he ▸ hch)
  change (buf.drop p).takeWhile (· != 0) = cs
  rw [h, List.takeWhile_append_of_pos hall]
  simp

end Os161
