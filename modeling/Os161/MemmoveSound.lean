import Os161.Memmove
import Os161.UioSound

/-!
# Moving overlapping memory

All four loops move units of `w` bytes. Counting up, the unit read next is
not yet overwritten if the destination is below the source; counting down,
if it is not below. So each of them leaves the bytes that were at the source.
-/

namespace Os161

open Bytes Outcome

variable {m m' : Mem} {dst src len : BitVec 32} {d s w i k n : Nat} {move : Nat → Mem → Except MemFault Mem}

/-! ## Units -/

def MovesUnits (move : Nat → Mem → Except MemFault Mem) (d s w n : Nat) : Prop :=
  ∀ i < n, ∀ m, move i m = .ok (copyBytes m (d + w * i) m (s + w * i) w)

theorem elementAt_eq (p : BitVec 32) (h : p.toNat + w * i < 2 ^ 32) : elementAt p w i = p.toNat + w * i := by
  have hi : w * i < 2 ^ 32 := by omega
  rw [elementAt, BitVec.toNat_add, BitVec.toNat_ofNat, Nat.mod_eq_of_lt hi, Nat.mod_eq_of_lt h]

theorem putBE_getBE : putBE m d w (getBE m s w) = copyBytes m d m s w := by
  funext a
  simp only [putBE, copyBytes]
  by_cases ha : d ≤ a ∧ a < d + w
  · rw [if_pos ha, if_pos ha, show d + w - 1 - a = w - 1 - (a - d) by omega, byte_getBE (by omega)]
  · rw [if_neg ha, if_neg ha]

theorem movesUnits_byte (hd : dst.toNat + len.toNat ≤ 2 ^ 32) (hs : src.toNat + len.toNat ≤ 2 ^ 32) :
    MovesUnits (moveByte dst src) dst.toNat src.toNat 1 len.toNat := by
  intro i hi m
  rw [moveByte, elementAt_eq dst (by omega), elementAt_eq src (by omega)]
  congr 1
  funext a
  simp only [copyBytes, Function.update_apply]
  by_cases ha : a = dst.toNat + 1 * i
  · rw [if_pos ha, if_pos (by omega), show a - (dst.toNat + 1 * i) = 0 by omega, Nat.add_zero]
  · rw [if_neg ha, if_neg (by omega)]

theorem movesUnits_word (hd : dst.toNat + len.toNat ≤ 2 ^ 32) (hs : src.toNat + len.toNat ≤ 2 ^ 32)
    (hw : wordwise dst src len) :
    MovesUnits (moveWord dst src) dst.toNat src.toNat sizeofLong (len.toNat / sizeofLong) := by
  intro i hi m
  have hin : sizeofLong * i < len.toNat := by
    unfold sizeofLong at hi ⊢
    omega
  have haligned : (src.toNat + sizeofLong * i) % sizeofLong = 0 ∧ (dst.toNat + sizeofLong * i) % sizeofLong = 0 := by
    rw [Nat.add_mul_mod_self_left, Nat.add_mul_mod_self_left]
    exact ⟨hw.2.1, hw.1⟩
  rw [moveWord, elementAt_eq dst (by omega), elementAt_eq src (by omega)]
  rw [if_pos haligned, putBE_getBE]

/-! ## Loops -/

theorem copyBytes_above (hds : d ≤ s) : copyBytes (copyBytes m d m s n) (d + n) (copyBytes m d m s n) (s + n) w =
    copyBytes m d m s (n + w) := by
  have hread : ∀ j < w, copyBytes m d m s n (s + n + j) = m (s + n + j) := fun j _ => if_neg (by omega)
  rw [copyBytes_congr hread, copyBytes_adjacent]

theorem copyBytes_below (hds : s ≤ d) :
    copyBytes (copyBytes m (d + w) m (s + w) n) d (copyBytes m (d + w) m (s + w) n) s w =
    copyBytes m d m s (w + n) := by
  funext a
  simp only [copyBytes]
  by_cases hnew : d ≤ a ∧ a < d + w
  · rw [if_pos hnew, if_neg (by omega), if_pos (by omega)]
  · rw [if_neg hnew]
    by_cases hold : d + w ≤ a ∧ a < d + w + n
    · rw [if_pos hold, if_pos (by omega)]
      congr 1
      omega
    · rw [if_neg hold, if_neg (by omega)]

theorem upLoop_eq (h : MovesUnits move d s w (i + k)) (hds : d ≤ s) :
    upLoop move k i (copyBytes m d m s (w * i)) = .ok (copyBytes m d m s (w * (i + k))) := by
  induction k generalizing i with
  | zero => rfl
  | succ k ih =>
    rw [upLoop, h i (by omega), ok_bind, copyBytes_above hds, ← Nat.mul_succ]
    have hrest := ih (i := i + 1) (by rwa [show i + 1 + k = i + (k + 1) by omega])
    rwa [show i + 1 + k = i + (k + 1) by omega] at hrest

theorem downLoop_eq (h : MovesUnits move d s w n) (hds : s ≤ d) (hi : i + k = n) :
    downLoop move i (copyBytes m (d + w * i) m (s + w * i) (w * k)) = .ok (copyBytes m d m s (w * n)) := by
  induction i generalizing k with
  | zero =>
    obtain rfl : k = n := by omega
    rfl
  | succ i ih =>
    have hstep := copyBytes_below (m := m) (d := d + w * i) (s := s + w * i) (w := w) (n := w * k) (by omega)
    rw [downLoop, h i (by omega), ok_bind, Nat.mul_succ, ← Nat.add_assoc, ← Nat.add_assoc, hstep,
      show w + w * k = w * (k + 1) by rw [Nat.mul_succ]; omega]
    exact ih (by omega)

section
variable (h : MovesUnits move d s w n) (m : Mem)
include h

theorem upLoop_copies (hds : d ≤ s) : upLoop move n 0 m = .ok (copyBytes m d m s (w * n)) := by
  have hloop := upLoop_eq (m := m) (i := 0) (k := n) (by rwa [Nat.zero_add]) hds
  rwa [Nat.mul_zero, copyBytes_zero, Nat.zero_add] at hloop

theorem downLoop_copies (hds : s ≤ d) : downLoop move n m = .ok (copyBytes m d m s (w * n)) := by
  have hloop := downLoop_eq (m := m) (i := n) (k := 0) h hds (Nat.add_zero n)
  rwa [Nat.mul_zero, copyBytes_zero] at hloop

end

/-! ## `memmove` -/

def memmoveBytes (dst src len : BitVec 32) (m : Mem) : Except MemFault Mem :=
  if dst.toNat < src.toNat then upLoop (moveByte dst src) len.toNat 0 m else downLoop (moveByte dst src) len.toNat m

section
variable (hd : dst.toNat + len.toNat ≤ 2 ^ 32) (hs : src.toNat + len.toNat ≤ 2 ^ 32) (m : Mem)
include hd hs

theorem memmoveBytes_eq : memmoveBytes dst src len m = .ok (copyBytes m dst.toNat m src.toNat len.toNat) := by
  have hbyte := movesUnits_byte hd hs
  unfold memmoveBytes
  by_cases hlt : dst.toNat < src.toNat
  · rw [if_pos hlt, upLoop_copies hbyte m (Nat.le_of_lt hlt), Nat.one_mul]
  · rw [if_neg hlt, downLoop_copies hbyte m (Nat.not_lt.mp hlt), Nat.one_mul]

theorem memcpy_eq (hlt : dst.toNat < src.toNat) :
    memcpy dst src len m = .ok (dst, copyBytes m dst.toNat m src.toNat len.toNat) := by
  unfold memcpy
  by_cases hw : wordwise dst src len
  · have hlen : sizeofLong * (len.toNat / sizeofLong) = len.toNat := Nat.mul_div_cancel' (Nat.dvd_of_mod_eq_zero hw.2.2)
    rw [if_pos hw, upLoop_copies (movesUnits_word hd hs hw) m (Nat.le_of_lt hlt), ok_bind, hlen]
  · rw [if_neg hw, upLoop_copies (movesUnits_byte hd hs) m (Nat.le_of_lt hlt), ok_bind, Nat.one_mul]

theorem memmove_eq : memmove dst src len m = .ok (dst, copyBytes m dst.toNat m src.toNat len.toNat) := by
  unfold memmove
  by_cases hlt : dst.toNat < src.toNat
  · rw [if_pos hlt, memcpy_eq hd hs m hlt]
  · have hle : src.toNat ≤ dst.toNat := Nat.not_lt.mp hlt
    rw [if_neg hlt]
    by_cases hw : wordwise dst src len
    · have hlen : sizeofLong * (len.toNat / sizeofLong) = len.toNat :=
        Nat.mul_div_cancel' (Nat.dvd_of_mod_eq_zero hw.2.2)
      rw [if_pos hw, downLoop_copies (movesUnits_word hd hs hw) m hle, ok_bind, hlen]
    · rw [if_neg hw, downLoop_copies (movesUnits_byte hd hs) m hle, ok_bind, Nat.one_mul]

/-- The bytes at the destination are those that were at the source, and
everything else is as before, by whichever loop; the loops by bytes would
leave the same. -/
theorem memmove_exact : ∃ m', memmove dst src len m = .ok (dst, m') ∧ memmoveBytes dst src len m = .ok m' ∧
    (∀ i < len.toNat, m' (dst.toNat + i) = m (src.toNat + i)) ∧
    ∀ a, a < dst.toNat ∨ dst.toNat + len.toNat ≤ a → m' a = m a := by
  refine ⟨_, memmove_eq hd hs m, memmoveBytes_eq hd hs m, fun i hi => ?_, fun a ha => ?_⟩
  · simp only [copyBytes]
    rw [if_pos (by omega), Nat.add_sub_cancel_left]
  · simp only [copyBytes]
    rw [if_neg (by omega)]

end

theorem memmove_exact_words : ∃ m', memmove 8#32 4#32 12#32 UInt8.ofNat = .ok (8#32, m') ∧
    memmoveBytes 8#32 4#32 12#32 UInt8.ofNat = .ok m' ∧ (∀ i < 12, m' (8 + i) = UInt8.ofNat (4 + i)) ∧
    ∀ a, a < 8 ∨ 8 + 12 ≤ a → m' a = UInt8.ofNat a :=
  @memmove_exact 8#32 4#32 12#32 (by decide) (by decide) UInt8.ofNat

end Os161
