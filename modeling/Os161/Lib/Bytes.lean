import Mathlib.Data.Nat.Bitwise

/-!
# Numbers in byte memory

Big-endian numbers of any width, arrays of 32-bit words, and arrays of bits
with the lowest bit of a byte first.
-/

namespace Bytes

abbrev Mem := Nat → UInt8

def getBE (m : Mem) (a : Nat) : (width : Nat) → Nat
  | 0 => 0
  | w + 1 => getBE m a w * 256 + (m (a + w)).toNat

def putBE (m : Mem) (a width n : Nat) : Mem :=
  fun x => if a ≤ x ∧ x < a + width then UInt8.ofNat (n / 256 ^ (a + width - 1 - x)) else m x

variable {m m' : Mem} {a w n x : Nat}

theorem getBE_congr (h : ∀ x, a ≤ x → x < a + w → m x = m' x) : getBE m a w = getBE m' a w := by
  induction w with
  | zero => rfl
  | succ w ih =>
    simp only [getBE]
    rw [ih fun x hx hw => h x hx (by omega), h (a + w) (by omega) (by omega)]

theorem getBE_lt : getBE m a w < 256 ^ w := by
  induction w with
  | zero => simp [getBE]
  | succ w ih =>
    have := (m (a + w)).toNat_lt
    simp only [getBE, Nat.pow_succ]
    omega

theorem putBE_of_lt (h : x < a) : putBE m a w n x = m x := if_neg (by omega)

theorem putBE_of_ge (h : a + w ≤ x) : putBE m a w n x = m x := if_neg (by omega)

theorem putBE_succ (hx : a ≤ x) (hw : x < a + w) : putBE m a (w + 1) n x = putBE m a w (n / 256) x := by
  have he : a + (w + 1) - 1 - x = a + w - 1 - x + 1 := by omega
  simp only [putBE, hx, hw, show x < a + (w + 1) by omega, and_self, if_true]
  rw [he, Nat.pow_succ', Nat.div_div_eq_div_mul]

theorem getBE_putBE : getBE (putBE m a w n) a w = n % 256 ^ w := by
  induction w generalizing n with
  | zero => simp [getBE, Nat.mod_one]
  | succ w ih =>
    have hlast : putBE m a (w + 1) n (a + w) = UInt8.ofNat n := by simp [putBE]
    simp only [getBE, hlast]
    rw [getBE_congr fun x => putBE_succ, ih, UInt8.toNat_ofNat',
      show 256 ^ (w + 1) = 256 * 256 ^ w from Nat.pow_succ', Nat.mod_mul]
    omega

theorem byte_getBE {j : Nat} (hj : j < w) : UInt8.ofNat (getBE m a w / 256 ^ (w - 1 - j)) = m (a + j) := by
  induction w with
  | zero => omega
  | succ w ih =>
    have hlt := (m (a + w)).toNat_lt
    simp only [getBE]
    by_cases hlast : j = w
    · subst hlast
      rw [Nat.add_sub_cancel, Nat.sub_self, Nat.pow_zero, Nat.div_one]
      apply UInt8.toNat.inj
      rw [UInt8.toNat_ofNat']
      omega
    · have he : w + 1 - 1 - j = w - 1 - j + 1 := by omega
      have hdiv : (getBE m a w * 256 + (m (a + w)).toNat) / 256 = getBE m a w := by omega
      rw [he, Nat.pow_succ', ← Nat.div_div_eq_div_mul, hdiv]
      exact ih (by omega)

theorem getBE_putBE_of_disjoint {b v : Nat} (h : a + w ≤ b ∨ b + v ≤ a) :
    getBE (putBE m b v n) a w = getBE m a w :=
  getBE_congr fun x hx hw => if_neg (by omega)

/-! ## Arrays of words -/

def putWords (m : Mem) (a count : Nat) (f : Nat → Nat) : Mem :=
  fun x => if a ≤ x ∧ x < a + 4 * count then UInt8.ofNat (f ((x - a) / 4) / 256 ^ (3 - (x - a) % 4)) else m x

theorem getBE_putWords {k : Nat} {f : Nat → Nat} (hk : k < n) (hf : f k < 2 ^ 32) :
    getBE (putWords m a n f) (a + 4 * k) 4 = f k := by
  have hword : ∀ x, a + 4 * k ≤ x → x < a + 4 * k + 4 → putWords m a n f x = putBE m (a + 4 * k) 4 (f k) x := by
    intro x hx hx'
    have hdiv : (x - a) / 4 = k := by omega
    have hmod : 3 - (x - a) % 4 = a + 4 * k + 4 - 1 - x := by omega
    simp only [putWords, putBE, hdiv, hmod]
    rw [if_pos (by omega), if_pos (by omega)]
  rw [getBE_congr hword, getBE_putBE]
  exact Nat.mod_eq_of_lt hf

theorem getBE_putWords_of_disjoint {b : Nat} {f : Nat → Nat} (h : a + w ≤ b ∨ b + 4 * n ≤ a) :
    getBE (putWords m b n f) a w = getBE m a w :=
  getBE_congr fun x hx hw => if_neg (by omega)

/-! ## Arrays of bits -/

def getBit (m : Mem) (k : Nat) : Bool := (m (k / 8)).toNat.testBit (k % 8)

def ofBits (f : Nat → Bool) : Mem := fun x => UInt8.ofNat (Nat.ofBits fun t : Fin 8 => f (8 * x + t))

theorem getBit_ofBits (f : Nat → Bool) (k : Nat) : getBit (ofBits f) k = f k := by
  have hlt : k % 8 < 8 := Nat.mod_lt _ (by decide)
  unfold getBit ofBits
  rw [UInt8.toNat_ofNat', Nat.testBit_mod_two_pow, Nat.testBit_ofBits_lt _ _ hlt, Nat.div_add_mod]
  simp [hlt]

end Bytes
