import Os161.Lib.Outcome
import Os161.Uio

/-!
# Moving bytes in and out of a buffer

A `uio` whose residue is not more than its buffer holds: a transfer of `n`
bytes moves exactly those and skips `n` bytes of the `uio`.
-/

namespace Os161

open Outcome

variable {ptr buf : Nat → UInt8} {n k : Nat} {u : Uio}

def Uio.skip (u : Uio) (n : Nat) : Uio :=
  { u with
    iovKbase := u.iovKbase + n
    iovLen := u.iovLen - n
    uioOffset := u.uioOffset + n
    uioResid := u.uioResid - n }

structure Uio.Room (u : Uio) : Prop where
  len : u.uioResid ≤ u.iovLen
  resid : u.uioResid < 2 ^ 32

structure Uio.Fits (u : Uio) : Prop extends u.Room where
  offset : 0 ≤ u.uioOffset

theorem Uio.skip_zero (u : Uio) : u.skip 0 = u := by simp [Uio.skip]

theorem Uio.skip_skip (u : Uio) (n k : Nat) : (u.skip n).skip k = u.skip (n + k) := by
  simp [Uio.skip, Nat.add_assoc, Nat.sub_sub, Int.add_assoc]

theorem Uio.Fits.skip (h : u.Fits) (n : Nat) : (u.skip n).Fits := by
  obtain ⟨⟨hl, hr⟩, ho⟩ := h
  refine ⟨⟨?_, ?_⟩, ?_⟩ <;> simp only [Uio.skip] <;> omega

theorem Uio.Room.advance (h : u.Room) (hn : n ≤ u.uioResid) : u.advance n = u.skip n := by
  simp only [Uio.advance, Uio.skip, u32_sub hn h.resid]

theorem copyBytes_zero {dst src : Nat → UInt8} {d a : Nat} : copyBytes dst d src a 0 = dst := by
  funext x
  exact if_neg (by omega)

theorem copyBytes_congr {dst src src' : Nat → UInt8} {d p : Nat} (h : ∀ j < n, src (p + j) = src' (p + j)) :
    copyBytes dst d src p n = copyBytes dst d src' p n := by
  funext x
  simp only [copyBytes]
  by_cases hx : d ≤ x ∧ x < d + n
  · rw [if_pos hx, if_pos hx, h (x - d) (by omega)]
  · rw [if_neg hx, if_neg hx]

theorem copyBytes_adjacent {dst src : Nat → UInt8} {d p : Nat} :
    copyBytes (copyBytes dst d src p n) (d + n) src (p + n) k = copyBytes dst d src p (n + k) := by
  funext y
  simp only [copyBytes]
  by_cases h₁ : d + n ≤ y ∧ y < d + n + k
  · rw [if_pos h₁, if_pos (by omega)]
    congr 1
    omega
  · rw [if_neg h₁]
    by_cases h₂ : d ≤ y ∧ y < d + n
    · rw [if_pos h₂, if_pos (by omega)]
    · rw [if_neg h₂, if_neg (by omega)]

theorem copyBytes_append {dst src : Nat → UInt8} {d : Nat} :
    copyBytes (copyBytes dst d src 0 n) (d + n) (fun j => src (n + j)) 0 k = copyBytes dst d src 0 (n + k) := by
  rw [← copyBytes_adjacent, Nat.zero_add]
  funext x
  simp only [copyBytes, Nat.zero_add]

def Uio.moved (u : Uio) (ptr buf : Nat → UInt8) (k m : Nat) : (Nat → UInt8) × (Nat → UInt8) × Uio :=
  match u.uioRw with
  | .read => (ptr, copyBytes buf u.iovKbase ptr k m, u.skip m)
  | .write => (copyBytes ptr k buf u.iovKbase m, buf, u.skip m)

def Uio.Bounded (u : Uio) (n : Nat) : Prop := n ≤ u.uioResid ∨ u.uioResid = u.iovLen ∨ u.uioResid = 0

theorem Uio.moved_zero : u.moved ptr buf k 0 = (ptr, buf, u) := by
  unfold Uio.moved
  rw [copyBytes_zero, copyBytes_zero, Uio.skip_zero]
  cases u.uioRw <;> rfl

theorem uiomoveLoop_done {rounds : Nat} (h : n = 0 ∨ u.uioResid = 0) :
    uiomoveLoop rounds ptr buf k n u = .ok (ptr, buf, u) := by
  cases rounds with
  | zero => rfl
  | succ rounds =>
    unfold uiomoveLoop
    rw [if_neg (by omega)]

theorem uiomoveLoop_moved {rounds : Nat} (h : u.Room) (hn : u.Bounded n) (hr : n ≤ rounds) :
    uiomoveLoop rounds ptr buf k n u = .ok (u.moved ptr buf k (min n u.uioResid)) := by
  by_cases hdone : n = 0 ∨ u.uioResid = 0
  · have hmin : min n u.uioResid = 0 := by omega
    rw [uiomoveLoop_done hdone, hmin, Uio.moved_zero]
  · obtain ⟨m, rfl⟩ : ∃ m, rounds = m + 1 := ⟨rounds - 1, by omega⟩
    have hlen := h.len
    have hsize : min u.iovLen n = min n u.uioResid := by
      rcases hn with hn | hn | hn <;> omega
    have hadv := h.advance (Nat.min_le_right n u.uioResid)
    have hleft : n - min n u.uioResid = 0 ∨ (u.skip (min n u.uioResid)).uioResid = 0 := by
      show n - min n u.uioResid = 0 ∨ u.uioResid - min n u.uioResid = 0
      omega
    unfold uiomoveLoop Uio.moved
    simp only [hsize, hadv]
    rw [if_pos (by omega), if_neg (by omega)]
    cases u.uioRw <;> exact uiomoveLoop_done hleft

theorem uiomove_in (h : u.Room) (hrw : u.uioRw = .read) (hn : n ≤ u.uioResid) :
    uiomove ptr buf n u = .ok (ptr, copyBytes buf u.iovKbase ptr 0 n, u.skip n) := by
  unfold uiomove
  rw [uiomoveLoop_moved h (Or.inl hn) (Nat.le_refl n), Nat.min_eq_left hn, Uio.moved, hrw]

theorem uiomove_out (h : u.Room) (hrw : u.uioRw = .write) (hn : n ≤ u.uioResid) :
    uiomove ptr buf n u = .ok (copyBytes ptr 0 buf u.iovKbase n, buf, u.skip n) := by
  unfold uiomove
  rw [uiomoveLoop_moved h (Or.inl hn) (Nat.le_refl n), Nat.min_eq_left hn, Uio.moved, hrw]

def Uio.BoundedZeros (u : Uio) (n : Nat) : Prop := n ≤ u.uioResid ∨ u.uioResid = u.iovLen ∨ u.uioResid % 16 = 0

theorem Uio.Room.skip (h : u.Room) (n : Nat) : (u.skip n).Room := by
  obtain ⟨hl, hr⟩ := h
  refine ⟨?_, ?_⟩ <;> simp only [Uio.skip] <;> omega

theorem Uio.BoundedZeros.chunk (h : u.BoundedZeros n) : u.Bounded (min 16 n) := by
  unfold Uio.Bounded
  rcases h with h | h | h <;> omega

theorem Uio.BoundedZeros.rest (h : u.BoundedZeros n) :
    (u.skip (min (min 16 n) u.uioResid)).BoundedZeros (n - min 16 n) := by
  show n - min 16 n ≤ u.uioResid - min (min 16 n) u.uioResid ∨
    u.uioResid - min (min 16 n) u.uioResid = u.iovLen - min (min 16 n) u.uioResid ∨
    (u.uioResid - min (min 16 n) u.uioResid) % 16 = 0
  rcases h with h | h | h <;> omega

theorem uiomovezerosLoop_moved {rounds : Nat} (h : u.Room) (hrw : u.uioRw = .read) (hn : u.BoundedZeros n)
    (hr : n ≤ rounds) : uiomovezerosLoop rounds buf n u =
      .ok (copyBytes buf u.iovKbase (fun _ => 0) 0 (min n u.uioResid), u.skip (min n u.uioResid)) := by
  induction rounds generalizing n buf u with
  | zero =>
    obtain rfl : n = 0 := by omega
    rw [Nat.zero_min, copyBytes_zero, Uio.skip_zero]
    rfl
  | succ rounds ih =>
    unfold uiomovezerosLoop
    by_cases hpos : 0 < n
    · have hmove := @uiomoveLoop_moved (fun _ => 0) buf (min 16 n) 0 u _ h hn.chunk (Nat.le_refl _)
      have hrest := @ih (copyBytes buf u.iovKbase (fun _ => 0) 0 (min (min 16 n) u.uioResid)) (n - min 16 n)
        (u.skip (min (min 16 n) u.uioResid)) (h.skip _) hrw hn.rest (by omega)
      have hsum : min (min 16 n) u.uioResid + min (n - min 16 n) (u.skip (min (min 16 n) u.uioResid)).uioResid =
          min n u.uioResid := by
        show min (min 16 n) u.uioResid + min (n - min 16 n) (u.uioResid - min (min 16 n) u.uioResid) = min n u.uioResid
        omega
      have happ := @copyBytes_append (min (min 16 n) u.uioResid)
        (min (n - min 16 n) (u.skip (min (min 16 n) u.uioResid)).uioResid) buf (fun _ => 0) u.iovKbase
      rw [hsum] at happ
      rw [if_pos hpos]
      unfold uiomove Uio.moved at *
      simp only [hrw] at hmove
      simp only [hmove]
      refine hrest.trans ?_
      rw [Uio.skip_skip, hsum, ← happ]
      rfl
    · obtain rfl : n = 0 := by omega
      rw [if_neg hpos, Nat.zero_min, copyBytes_zero, Uio.skip_zero]

theorem uiomovezeros_in (h : u.Fits) (hrw : u.uioRw = .read) (hn : n ≤ u.uioResid) :
    uiomovezeros buf n u = .ok (copyBytes buf u.iovKbase (fun _ => 0) 0 n, u.skip n) := by
  unfold uiomovezeros
  rw [uiomovezerosLoop_moved h.toRoom hrw (Or.inl hn) (Nat.le_refl n), Nat.min_eq_left hn]

/-! ## Transfers past the residue -/

theorem uiomoveLoop_base {rounds : Nat} {r : (Nat → UInt8) × (Nat → UInt8) × Uio}
    (h : uiomoveLoop rounds ptr buf k n u = .ok r) : u.iovKbase ≤ r.2.2.iovKbase := by
  induction rounds generalizing ptr buf k n u with
  | zero =>
    obtain rfl := Except.ok.inj h
    exact Nat.le_refl _
  | succ rounds ih =>
    unfold uiomoveLoop at h
    split at h
    · dsimp only at h
      split at h
      · cases h
      · split at h <;> exact Nat.le_trans (Nat.le_add_right _ _) (ih h)
    · obtain rfl := Except.ok.inj h
      exact Nat.le_refl _

theorem uiomoveLoop_beyond {rounds : Nat} {r : (Nat → UInt8) × (Nat → UInt8) × Uio} (hlen : u.uioResid ≤ u.iovLen)
    (hn : ¬ u.Bounded n) (hr : n ≤ rounds) (h : uiomoveLoop rounds ptr buf k n u = .ok r) :
    u.iovKbase + u.uioResid < r.2.2.iovKbase := by
  unfold Uio.Bounded at hn
  obtain ⟨m, rfl⟩ : ∃ m, rounds = m + 1 := ⟨rounds - 1, by omega⟩
  have hsize : u.uioResid < min u.iovLen n := by omega
  unfold uiomoveLoop at h
  rw [if_pos (by omega)] at h
  dsimp only at h
  rw [if_neg (by omega)] at h
  have hbase : u.iovKbase + min u.iovLen n ≤ r.2.2.iovKbase := by
    split at h <;> exact uiomoveLoop_base h
  omega

theorem uiomovezerosLoop_base {rounds : Nat} {r : (Nat → UInt8) × Uio} (h : uiomovezerosLoop rounds buf n u = .ok r) :
    u.iovKbase ≤ r.2.iovKbase := by
  induction rounds generalizing buf n u with
  | zero =>
    obtain rfl := Except.ok.inj h
    exact Nat.le_refl _
  | succ rounds ih =>
    unfold uiomovezerosLoop at h
    split at h
    · obtain ⟨⟨ptr', buf', u'⟩, hmove, hrest⟩ := bind_eq_ok.mp h
      exact Nat.le_trans (uiomoveLoop_base hmove) (ih hrest)
    · obtain rfl := Except.ok.inj h
      exact Nat.le_refl _

theorem uiomovezerosLoop_beyond {rounds : Nat} {r : (Nat → UInt8) × Uio} (hroom : u.Room) (hrw : u.uioRw = .read)
    (hn : ¬ u.BoundedZeros n) (hr : n ≤ rounds) (h : uiomovezerosLoop rounds buf n u = .ok r) :
    u.iovKbase + u.uioResid < r.2.iovKbase := by
  induction rounds generalizing buf n u with
  | zero => exact absurd (Or.inl (by omega)) hn
  | succ rounds ih =>
    have hlen := hroom.len
    unfold uiomovezerosLoop at h
    have hpos : 0 < n := by
      unfold Uio.BoundedZeros at hn
      omega
    rw [if_pos hpos] at h
    obtain ⟨⟨ptr', buf', u'⟩, hmove, hrest⟩ := bind_eq_ok.mp h
    unfold uiomove at hmove
    by_cases h16 : u.uioResid < 16
    · -- this piece goes past the residue
      have hchunk : ¬ u.Bounded (min 16 n) := by
        unfold Uio.BoundedZeros at hn
        unfold Uio.Bounded
        omega
      exact Nat.lt_of_lt_of_le (uiomoveLoop_beyond hlen hchunk (Nat.le_refl _) hmove) (uiomovezerosLoop_base hrest)
    · have hamt : min 16 n = 16 := by
        unfold Uio.BoundedZeros at hn
        omega
      rw [hamt] at hmove hrest
      rw [uiomoveLoop_moved hroom (Or.inl (by omega)) (Nat.le_refl _), Nat.min_eq_left (by omega),
        Uio.moved, hrw] at hmove
      obtain ⟨-, -, rfl⟩ := Prod.mk.inj (Except.ok.inj hmove) |>.imp_right Prod.mk.inj
      have hnext : ¬ (u.skip 16).BoundedZeros (n - 16) := by
        unfold Uio.BoundedZeros at hn ⊢
        show ¬ (n - 16 ≤ u.uioResid - 16 ∨ u.uioResid - 16 = u.iovLen - 16 ∨ (u.uioResid - 16) % 16 = 0)
        omega
      have hih := ih (hroom.skip 16) hrw hnext (by omega) hrest
      have hbase : (u.skip 16).iovKbase = u.iovKbase + 16 := rfl
      have hres : (u.skip 16).uioResid = u.uioResid - 16 := rfl
      omega

/-! ## What is moved -/

theorem Uio.moved_base {m : Nat} : (u.moved ptr buf k m).2.2.iovKbase = u.iovKbase + m := by
  unfold Uio.moved
  split <;> rfl

theorem Uio.moved_skip {m : Nat} : (u.moved ptr buf k m).2.2 = u.skip m := by
  unfold Uio.moved
  split <;> rfl

theorem Uio.Bounded.rest (h : u.Bounded (n + k)) : (u.skip (min n u.uioResid)).Bounded k := by
  show k ≤ u.uioResid - min n u.uioResid ∨ u.uioResid - min n u.uioResid = u.iovLen - min n u.uioResid ∨
    u.uioResid - min n u.uioResid = 0
  rcases h with h | h | h <;> omega

theorem Uio.moved_moved :
    (u.skip (min n u.uioResid)).moved (u.moved ptr buf 0 (min n u.uioResid)).1
    (u.moved ptr buf 0 (min n u.uioResid)).2.1 n
      (min k (u.skip (min n u.uioResid)).uioResid) = u.moved ptr buf 0 (min (n + k) u.uioResid) := by
  have hres : (u.skip (min n u.uioResid)).uioResid = u.uioResid - min n u.uioResid := rfl
  rcases Nat.le_total n u.uioResid with hn | hn
  · have hsum : min (n + k) u.uioResid = n + min k (u.uioResid - n) := by omega
    rw [hres, Nat.min_eq_left hn, hsum]
    unfold Uio.moved
    cases hrw : u.uioRw with
    | read =>
      have hadj := @copyBytes_adjacent n (min k (u.uioResid - n)) buf ptr u.iovKbase 0
      rw [Nat.zero_add] at hadj
      simp only [Uio.skip, hrw] at hadj ⊢
      rw [hadj]
      simp [Nat.add_assoc, Nat.sub_sub, Int.add_assoc]
    | write =>
      have hadj := @copyBytes_adjacent n (min k (u.uioResid - n)) ptr buf 0 u.iovKbase
      rw [Nat.zero_add] at hadj
      simp only [Uio.skip, hrw] at hadj ⊢
      rw [hadj]
      simp [Nat.add_assoc, Nat.sub_sub, Int.add_assoc]
  · rw [hres, Nat.min_eq_right hn, Nat.sub_self, Nat.min_zero, Uio.moved_zero, Nat.min_eq_right (by omega),
      ← @Uio.moved_skip ptr buf 0 u]

theorem offT_eq_iff {z : Int} (h : -2 ^ 31 ≤ z) : offT z = z ↔ z < 2 ^ 31 := by
  unfold offT toOff
  split <;> omega

/-- A transfer moves as much as it may, and the `off_t` moves with it, if the
residue bounds it and the offset stays below 2^31, and only then. Two
transfers, one behind the other, are one. -/
theorem uiomove_exact_iff (h : u.uioResid ≤ u.iovLen) (hlen : u.iovLen < 2 ^ 32) (hoff : -2 ^ 31 ≤ u.uioOffset) :
    (uiomove ptr buf n u = .ok (u.moved ptr buf 0 (min n u.uioResid)) ∧
        offT (u.skip (min n u.uioResid)).uioOffset = u.uioOffset + min n u.uioResid ↔
      u.Bounded n ∧ u.uioOffset + min n u.uioResid < 2 ^ 31) ∧
    (u.uioRw = .read → (uiomovezeros buf n u =
        .ok (copyBytes buf u.iovKbase (fun _ => 0) 0 (min n u.uioResid), u.skip (min n u.uioResid)) ∧
        offT (u.skip (min n u.uioResid)).uioOffset = u.uioOffset + min n u.uioResid ↔
      u.BoundedZeros n ∧ u.uioOffset + min n u.uioResid < 2 ^ 31)) ∧
    (u.Bounded (n + k) → (do
      let (ptr, buf, u) ← uiomove ptr buf n u
      uiomoveLoop k ptr buf n k u) = uiomove ptr buf (n + k) u) := by
  have hroom : u.Room := ⟨h, by omega⟩
  have hwrap : offT (u.skip (min n u.uioResid)).uioOffset = u.uioOffset + min n u.uioResid ↔
      u.uioOffset + min n u.uioResid < 2 ^ 31 := offT_eq_iff (by simp only [Uio.skip]; omega)
  rw [hwrap]
  refine ⟨and_congr_left fun _ => ⟨fun hm => ?_, fun hb => ?_⟩,
    fun hrw => and_congr_left fun _ => ⟨fun hm => ?_, fun hb => ?_⟩, fun hb => ?_⟩
  · by_contra hb
    have hbeyond := uiomoveLoop_beyond h hb (Nat.le_refl n) hm
    rw [Uio.moved_base] at hbeyond
    omega
  · exact uiomoveLoop_moved hroom hb (Nat.le_refl n)
  · by_contra hb
    have hbeyond := uiomovezerosLoop_beyond hroom hrw hb (Nat.le_refl n) hm
    dsimp only [Uio.skip] at hbeyond
    omega
  · exact uiomovezerosLoop_moved hroom hrw hb (Nat.le_refl n)
  · have hfirst := @uiomoveLoop_moved ptr buf n 0 u n hroom (by unfold Uio.Bounded at hb ⊢; omega) (Nat.le_refl n)
    have hboth := @uiomoveLoop_moved ptr buf (n + k) 0 u (n + k) hroom hb (Nat.le_refl _)
    unfold uiomove
    rw [hfirst, hboth, ok_bind]
    have hsecond := @uiomoveLoop_moved (u.moved ptr buf 0 (min n u.uioResid)).1
      (u.moved ptr buf 0 (min n u.uioResid)).2.1 k n
      (u.skip (min n u.uioResid)) k (hroom.skip _) hb.rest (Nat.le_refl k)
    rw [← @Uio.moved_skip ptr buf 0 u] at hsecond
    refine hsecond.trans (congrArg Except.ok ?_)
    rw [Uio.moved_skip]
    exact Uio.moved_moved

theorem uiomove_exact_iff_half :
    uiomove (fun _ => 7) (fun _ => 0) 2 { iovKbase := 0, iovLen := 4, uioOffset := 5, uioResid := 4, uioRw := .read } =
      .ok (Uio.moved { iovKbase := 0, iovLen := 4, uioOffset := 5, uioResid := 4, uioRw := .read } (fun _ => 7)
        (fun _ => 0) 0 2) :=
  (((@uiomove_exact_iff (fun _ => 7) (fun _ => 0) 2 0
    { iovKbase := 0, iovLen := 4, uioOffset := 5, uioResid := 4, uioRw := .read } (by decide) (by decide)
    (by decide)).1).mpr ⟨Or.inl (by decide), by decide⟩).1

theorem uiomove_past_residue :
    ∃ buf, uiomove (fun _ => 7) (fun _ => 0) 2
      { iovKbase := 0, iovLen := 2, uioOffset := 0, uioResid := 1, uioRw := .read } =
      .ok (fun _ => 7, buf, { iovKbase := 2, iovLen := 0, uioOffset := 2, uioResid := 2 ^ 32 - 1, uioRw := .read }) ∧
      buf 1 = 7 :=
  ⟨_, rfl, rfl⟩

end Os161
