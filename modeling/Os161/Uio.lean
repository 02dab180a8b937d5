import Os161.Machine

/-!
# Kernel-space transfers

`uiomove` and `uiomovezeros` of `uio.c` for a `uio` that describes kernel
memory (`UIO_SYSSPACE`). `ptr` is the memory behind the pointer argument and
`buf` the memory the `uio` describes; the two do not overlap. `uio_resid` is
a `size_t` and wraps.
-/

namespace Os161

inductive UioRw
  | read
  | write
  deriving DecidableEq, Repr

/-- `uioOffset` is not wrapped: the `off_t` it stands for is `offT uioOffset`. -/
structure Uio where
  iovKbase : Nat
  iovLen : Nat
  uioOffset : Int
  uioResid : Nat
  uioRw : UioRw
  deriving DecidableEq, Repr

def offT (z : Int) : Int := toOff (z % 2 ^ 32).toNat

def copyBytes (dst : Nat → UInt8) (dstAt : Nat) (src : Nat → UInt8) (srcAt len : Nat) : Nat → UInt8 :=
  fun a => if dstAt ≤ a ∧ a < dstAt + len then src (srcAt + (a - dstAt)) else dst a

def Uio.advance (u : Uio) (size : Nat) : Uio :=
  { u with
    iovKbase := u.iovKbase + size
    iovLen := u.iovLen - size
    uioResid := u32 (u.uioResid + 2 ^ 32 - size)
    uioOffset := u.uioOffset + size }

def uiomoveLoop : Nat → (ptr buf : Nat → UInt8) → (at' n : Nat) → Uio →
    Except Panic ((Nat → UInt8) × (Nat → UInt8) × Uio)
  | 0, ptr, buf, _, _, u => .ok (ptr, buf, u)
  | rounds + 1, ptr, buf, at', n, u =>
    if 0 < n ∧ 0 < u.uioResid then
      let size := min u.iovLen n
      if size = 0 then .error .uiomoveSizeReachedZero
      else
        match u.uioRw with
        | .read =>
          uiomoveLoop rounds ptr (copyBytes buf u.iovKbase ptr at' size) (at' + size) (n - size) (u.advance size)
        | .write =>
          uiomoveLoop rounds (copyBytes ptr at' buf u.iovKbase size) buf (at' + size) (n - size) (u.advance size)
    else .ok (ptr, buf, u)

def uiomove (ptr buf : Nat → UInt8) (n : Nat) (u : Uio) : Except Panic ((Nat → UInt8) × (Nat → UInt8) × Uio) :=
  uiomoveLoop n ptr buf 0 n u

def uiomovezerosLoop : Nat → (buf : Nat → UInt8) → (n : Nat) → Uio → Except Panic ((Nat → UInt8) × Uio)
  | 0, buf, _, u => .ok (buf, u)
  | rounds + 1, buf, n, u =>
    if 0 < n then do
      let amt := min 16 n
      let (_, buf, u) ← uiomove (fun _ => 0) buf amt u
      uiomovezerosLoop rounds buf (n - amt) u
    else .ok (buf, u)

def uiomovezeros (buf : Nat → UInt8) (n : Nat) (u : Uio) : Except Panic ((Nat → UInt8) × Uio) :=
  uiomovezerosLoop n buf n u

/-! ## One call of `uiomove` into the buffer -/

theorem uiomove_read {ptr buf : Nat → UInt8} {n : Nat} {u : Uio} (hr : u.uioRw = .read) (hn : 0 < n)
    (hl : n ≤ u.iovLen) (hp : 0 < u.uioResid) :
    uiomove ptr buf n u = .ok (ptr, copyBytes buf u.iovKbase ptr 0 n, u.advance n) := by
  obtain ⟨m, rfl⟩ : ∃ m, n = m + 1 := ⟨n - 1, by omega⟩
  have hs : min u.iovLen (m + 1) = m + 1 := Nat.min_eq_right hl
  unfold uiomove uiomoveLoop
  simp only [hs, hr, hp, Nat.succ_pos, and_self, ite_true, Nat.succ_ne_zero, ite_false, Nat.sub_self, Nat.zero_add]
  -- nothing is left for a second round
  cases m <;> simp [uiomoveLoop]

theorem uiomove_no_resid {ptr buf : Nat → UInt8} {n : Nat} {u : Uio} (hp : u.uioResid = 0) :
    uiomove ptr buf n u = .ok (ptr, buf, u) := by
  unfold uiomove
  cases n <;> simp [uiomoveLoop, hp]

end Os161
