import Os161.Lib.Outcome
import Os161.Lhd
import Os161.UioSound

/-!
# Retried block I/O

A read that fails leaves the `uio` as it is, so that a retry repeats it. A
write has taken its data from the `uio` before the device starts: after a
media error nothing is left to write, and the retry reports success.
-/

namespace Os161.Lhd

open Bytes Outcome

/-! ## Where a block lies -/

def Reaches (block : Nat) : Prop := block < 2 ^ 22 ∨ 2 ^ 32 - 2 ^ 22 ≤ block

instance (block : Nat) : Decidable (Reaches block) := inferInstanceAs (Decidable (_ ∨ _))

def place (block : Nat) : Int :=
  if block % 2 ^ 23 < 2 ^ 22 then (block % 2 ^ 23 : Nat) else (block % 2 ^ 23 : Nat) - 2 ^ 23

theorem diskoff_eq (block : Nat) : diskoff block = place block * 512 := by
  unfold diskoff place toOff u32 sfsBlocksize
  split <;> split <;> omega

theorem offT_diskoff (block : Nat) : offT (diskoff block) = diskoff block := by
  rw [diskoff_eq]
  unfold offT toOff place
  split <;> split <;> omega

theorem diskoff_tmod (block : Nat) : (diskoff block).tmod sectsize = 0 := by
  rw [diskoff_eq]
  exact Int.mul_tmod_left _ _

theorem sectorOf_eq (block : Nat) : sectorOf block = toU32 (place block) := by
  unfold sectorOf
  rw [diskoff_eq]
  congr 1
  exact Int.mul_tdiv_cancel _ (by decide)

theorem sectorOf_lt (block : Nat) : sectorOf block < 2 ^ 32 := by
  rw [sectorOf_eq]
  unfold toU32
  omega

theorem sectorOf_eq_self_iff {block : Nat} (hb : block < 2 ^ 32) : sectorOf block = block ↔ Reaches block := by
  rw [sectorOf_eq]
  unfold toU32 place Reaches
  split <;> omega

variable {d d' : Disk} {mapped : Bool} {x x' : Xfer} {block sector : Nat}

theorem lhdIo_block (ho : x.uio.uioOffset = diskoff block) (hr : x.uio.uioResid = 512) : lhdIo mapped d x =
    if d.blocks < u32 (sectorOf block + 1) then .ok (some .einval, d, x)
    else lhdIoLoop mapped 1 (sectorOf block) d x := by
  have haligned : ¬ ((diskoff block).tmod sectsize ≠ 0 ∨ 512 % sectsize ≠ 0) := by
    rw [diskoff_tmod]
    decide
  unfold lhdIo
  simp only [ho, hr, offT_diskoff, if_neg haligned]
  rfl

theorem offT_next (block : Nat) : offT (diskoff block + 512) = diskoff (block + 1) := by
  rw [diskoff_eq, diskoff_eq]
  unfold offT toOff place
  split <;> split <;> split <;> omega

theorem lhdIo_spent (ho : x.uio.uioOffset = diskoff block + 512) (hr : x.uio.uioResid = 0) :
    lhdIo mapped d x = .ok (if d.blocks < sectorOf (block + 1) then some .einval else none, d, x) := by
  have haligned : ¬ ((diskoff (block + 1)).tmod sectsize ≠ 0 ∨ 0 % sectsize ≠ 0) := by
    rw [diskoff_tmod]
    decide
  unfold lhdIo
  simp only [ho, hr, offT_next, if_neg haligned]
  rw [show u32 (toU32 ((diskoff (block + 1)).tdiv sectsize) + 0 / sectsize) = sectorOf (block + 1) from
    u32_of_lt (sectorOf_lt _)]
  split <;> rfl

/-! ## What a call should do -/

def Xfer.Holds (x x' : Xfer) (d' : Disk) (sector : Nat) : Prop :=
  ∀ i < 512, d'.sectors sector i = match x.uio.uioRw with
    | .write => x.buf (x.uio.iovKbase + i)
    | .read => x'.buf (x.uio.iovKbase + i)

def amount (d d' : Disk) (sector : Nat) : Int := 512 * ((d'.moved sector : Int) - d.moved sector)

structure Honest (d : Disk) (sector : Nat) (x : Xfer) (r : Option Errno) (d' : Disk) (x' : Xfer) : Prop where
  done : r = none → Xfer.Holds x x' d' sector
  offset : x'.uio.uioOffset = x.uio.uioOffset + amount d d' sector
  resid : (x'.uio.uioResid : Int) = x.uio.uioResid - amount d d' sector
  failed : d.next < d'.next → (∀ k, d.next ≤ k → k < d'.next → d.outcome k = false) → r = some .eio

def Honestly (call : Except DiskPanic (Option Errno × Disk × Xfer)) (d : Disk) (sector : Nat) (x : Xfer) : Prop :=
  ∃ r d' x', call = .ok (r, d', x') ∧ Honest d sector x r d' x'

theorem not_honestly_error {p : DiskPanic} : ¬ Honestly (.error p) d sector x := by
  rintro ⟨_, _, _, h, -⟩
  cases h

theorem honestly_ok {r : Option Errno} : Honestly (.ok (r, d', x')) d sector x ↔ Honest d sector x r d' x' := by
  constructor
  · rintro ⟨_, _, _, h, hh⟩
    simp only [Except.ok.injEq, Prod.mk.injEq] at h
    obtain ⟨rfl, rfl, rfl⟩ := h
    exact hh
  · intro h
    exact ⟨r, d', x', rfl, h⟩

theorem amount_self (h : d'.moved sector = d.moved sector) : amount d d' sector = 0 := by
  unfold amount
  rw [h]
  omega

/-! ## Writes -/

section
variable (hroom : x.uio.Room) (hr : x.uio.uioResid = 512)

def filled (d : Disk) (x : Xfer) : Disk := { d with buf := copyBytes d.buf 0 x.buf x.uio.iovKbase 512 }

include hroom hr

theorem lhdIoLoop_write (hw : x.uio.uioRw = .write) (hs : sector < 2 ^ 32) : lhdIoLoop mapped 1 sector d x =
    if mapped = false then .ok (some .efault, d, x)
    else .ok ((operate (filled d x) sector .write).1, (operate (filled d x) sector .write).2,
      { x with uio := x.uio.skip 512 }) := by
  have hmove : uiomove d.buf x.buf sectsize x.uio = .ok (copyBytes d.buf 0 x.buf x.uio.iovKbase 512, x.buf,
      x.uio.skip 512) :=
    uiomove_out hroom hw (by rw [hr]; decide)
  unfold lhdIoLoop moveSector
  simp only [hw]
  cases mapped with
  | false =>
    rw [if_pos ⟨rfl, by omega⟩]
    rfl
  | true =>
    simp only [Bool.true_eq_false, false_and, if_false, hmove, u32_of_lt hs, ok_bind]
    unfold filled
    generalize operate { d with buf := copyBytes d.buf 0 x.buf x.uio.iovKbase 512 } sector .write = o
    obtain ⟨r, d'⟩ := o
    cases r <;> rfl

end

def stored (d : Disk) (sector : Nat) (x : Xfer) : Disk :=
  { filled d x with
    next := d.next + 1
    sectors := Function.update d.sectors sector (filled d x).buf
    moved := Function.update d.moved sector (d.moved sector + 1) }

inductive Written (mapped : Bool) (d : Disk) (block : Nat) (x : Xfer) :
    Except DiskPanic (Option Errno × Disk × Xfer) → Prop
  | refused (hno : ¬ Reaches block) (hmap : ¬ (mapped = false ∧ u32 (sectorOf block + 1) ≤ d.blocks)) :
    Written mapped d block x (.error .einval)
  | unmapped (hmap : mapped = false) (hin : u32 (sectorOf block + 1) ≤ d.blocks) :
    Written mapped d block x (.ok (some .efault, d, x))
  | stored (hmap : mapped = true) (hout : d.outcome d.next = true) :
    Written mapped d block x (.ok (none, stored d (sectorOf block) x, { x with uio := x.uio.skip 512 }))
  | lost (hmap : mapped = true) (hout : d.outcome d.next = false) :
    Written mapped d block x (.ok (none, { filled d x with next := d.next + 1 }, { x with uio := x.uio.skip 512 }))
  | stopped (hmap : mapped = true) (hout : d.outcome d.next = false) : Written mapped d block x (.error .einval)

section
variable (hroom : x.uio.Room) (hr : x.uio.uioResid = 512) (hw : x.uio.uioRw = .write)
  (ho : x.uio.uioOffset = diskoff block)
include hroom hr hw ho

theorem rwblock_write (hd : d.blocks < 2 ^ 32) : sfsRwblock true d x =
    if d.blocks ≤ sectorOf block then .error .einval
    else if d.outcome d.next then .ok (none, stored d (sectorOf block) x, { x with uio := x.uio.skip 512 })
    else if d.blocks < sectorOf (block + 1) then .error .einval
    else .ok (none, { filled d x with next := d.next + 1 }, { x with uio := x.uio.skip 512 }) := by
  have hlt := sectorOf_lt block
  unfold sfsRwblock sfsRwblockLoop
  rw [lhdIo_block ho hr]
  by_cases hs : d.blocks ≤ sectorOf block
  · rw [if_pos hs]
    split
    · rfl
    · rw [lhdIoLoop_write hroom hr hw hlt, if_neg (by simp), operate,
        if_pos (show (filled d x).blocks ≤ sectorOf block from hs)]
      rfl
  · rw [if_neg hs, u32_of_lt (by omega), if_neg (by omega), lhdIoLoop_write hroom hr hw hlt, if_neg (by simp), operate,
      if_neg (show ¬ (filled d x).blocks ≤ sectorOf block from hs), ok_bind]
    cases hout : d.outcome d.next with
    | true =>
      rw [if_pos (show (filled d x).outcome (filled d x).next = true from hout)]
      rfl
    | false =>
      rw [if_neg (show ¬ (filled d x).outcome (filled d x).next = true by simp [filled, hout])]
      simp only [reduceCtorEq, if_false, if_true, Option.some.injEq]
      unfold sfsRwblockLoop
      rw [@lhdIo_spent _ _ _ block (by simp [Uio.skip, ho]) (by simp [Uio.skip, hr])]
      rw [show (filled d x).blocks = d.blocks from rfl]
      split <;> rfl

theorem rwblock_written (hb : block < d.blocks) (hd : d.blocks < 2 ^ 32) :
    Written mapped d block x (sfsRwblock mapped d x) := by
  have hreach : sectorOf block = block ↔ Reaches block := sectorOf_eq_self_iff (Nat.lt_trans hb hd)
  cases mapped with
  | true =>
    rw [rwblock_write hroom hr hw ho hd]
    by_cases hs : d.blocks ≤ sectorOf block
    · rw [if_pos hs]
      refine .refused ?_ (by simp)
      rw [← hreach]
      omega
    rw [if_neg hs]
    cases hout : d.outcome d.next with
    | true => exact .stored rfl hout
    | false =>
      rw [if_neg (by simp)]
      split
      · exact .stopped rfl hout
      · exact .lost rfl hout
  | false =>
    unfold sfsRwblock sfsRwblockLoop
    rw [lhdIo_block ho hr]
    by_cases hin : d.blocks < u32 (sectorOf block + 1)
    · rw [if_pos hin]
      refine .refused ?_ fun h => absurd hin (Nat.not_lt.mpr h.2)
      rw [← hreach]
      intro he
      rw [he, u32_of_lt (by omega)] at hin
      omega
    · rw [if_neg hin, lhdIoLoop_write hroom hr hw (sectorOf_lt block)]
      exact .unmapped rfl (Nat.not_lt.mp hin)

end

theorem restoreUio_dev {u : Uio} (hlt : u.uioResid < 2 ^ 32) : restoreUio u (devUio u block) block = u := by
  have hoff : diskoff block - diskoff block + u.uioOffset = u.uioOffset := by omega
  have hres : toU32 (512 - 512 + u.uioResid) = u.uioResid := by
    unfold toU32
    omega
  simp only [restoreUio, devUio, sfsBlocksize, Nat.cast_ofNat, hoff, hres]

theorem restoreUio_skip {u : Uio} (hlow : 512 ≤ u.uioResid) (hlt : u.uioResid < 2 ^ 32) :
    restoreUio u ((devUio u block).skip 512) block = u.skip 512 := by
  have hoff : diskoff block + 512 - diskoff block + u.uioOffset = u.uioOffset + 512 := by omega
  have hres : toU32 ((0 : Nat) - 512 + u.uioResid) = u.uioResid - 512 := by
    unfold toU32
    omega
  simp only [restoreUio, devUio, Uio.skip, sfsBlocksize, Nat.sub_self, Nat.cast_ofNat, hoff, hres]

theorem blockio_written (hroom : x.uio.Room) (hlow : 512 ≤ x.uio.uioResid) (hw : x.uio.uioRw = .write)
    (hb : block < d.blocks) (hd : d.blocks < 2 ^ 32) :
    Written mapped d block x (blockioDevice mapped d x block) := by
  have hdev : (devUio x.uio block).Room := ⟨Nat.le_trans hlow hroom.len, show 512 < 2 ^ 32 by decide⟩
  have h : Written mapped d block { x with uio := devUio x.uio block }
      (sfsRwblock mapped d { x with uio := devUio x.uio block }) := rwblock_written hdev rfl hw rfl hb hd
  unfold blockioDevice
  rw [if_neg (show ¬ x.uio.uioResid < sfsBlocksize from Nat.not_lt.mpr hlow)]
  generalize sfsRwblock mapped d { x with uio := devUio x.uio block } = call at h ⊢
  cases h with
  | refused hno hmap => exact .refused hno hmap
  | unmapped hmap hin =>
    simp only [ok_bind, restoreUio_dev hroom.resid]
    exact .unmapped hmap hin
  | stored hmap hout =>
    simp only [ok_bind, restoreUio_skip hlow hroom.resid]
    exact .stored hmap hout
  | lost hmap hout =>
    simp only [ok_bind, restoreUio_skip hlow hroom.resid]
    exact .lost hmap hout
  | stopped hmap hout => exact .stopped hmap hout

theorem Written.honestly_iff {call : Except DiskPanic (Option Errno × Disk × Xfer)} (h : Written mapped d block x call)
    (hw : x.uio.uioRw = .write) (hlow : 512 ≤ x.uio.uioResid) (hb : block < 2 ^ 32) : Honestly call d block x ↔
      (mapped = false ∧ u32 (sectorOf block + 1) ≤ d.blocks) ∨
        (mapped = true ∧ Reaches block ∧ d.outcome d.next = true) := by
  cases h with
  | refused hno hmap => simp [not_honestly_error, hno, hmap]
  | unmapped hmap hin =>
    rw [honestly_ok]
    constructor
    · intro _
      exact Or.inl ⟨hmap, hin⟩
    · intro _
      refine ⟨by simp, ?_, ?_, fun h => absurd h (Nat.lt_irrefl _)⟩ <;> simp only [amount] <;> omega
  | stored hmap hout =>
    simp only [honestly_ok, hmap, hout, Bool.true_eq_false, false_and, false_or, true_and, and_true]
    rw [← sectorOf_eq_self_iff hb]
    constructor
    · intro hh
      -- the `uio` has advanced, so it is this sector that was stored
      by_contra hne
      have hoff := hh.offset
      rw [amount_self (Function.update_of_ne (Ne.symm hne) _ _)] at hoff
      simp only [Uio.skip] at hoff
      omega
    · intro he
      rw [he]
      have ham : amount d (Lhd.stored d block x) block = 512 := by
        simp only [amount, Lhd.stored, Function.update_self]
        omega
      refine ⟨fun _ i hi => ?_, ?_, ?_, fun _ hall => ?_⟩
      · simp only [Lhd.stored, Function.update_self, filled, copyBytes, hw]
        rw [if_pos ⟨Nat.zero_le i, by omega⟩, Nat.sub_zero]
      · rw [ham]
        rfl
      · rw [ham]
        simp only [Uio.skip]
        omega
      · rw [hall d.next (Nat.le_refl _) (Nat.lt_succ_self _)] at hout
        cases hout
  | lost hmap hout =>
    simp only [honestly_ok, hmap, hout, Bool.true_eq_false, Bool.false_eq_true, false_and, and_false,
      or_false, iff_false]
    -- the `uio` is past a block that nothing was written to
    intro hh
    have hoff := hh.offset
    simp only [Uio.skip, amount, filled] at hoff
    omega
  | stopped hmap hout => simp [not_honestly_error, hmap, hout]

/-! ## Reads -/

section
variable (hroom : x.uio.Room) (hr : x.uio.uioResid = 512) (hrd : x.uio.uioRw = .read)
  (ho : x.uio.uioOffset = diskoff block) (hs : sectorOf block < d.blocks) (hd : d.blocks < 2 ^ 32)

def fetched (d : Disk) (sector k : Nat) : Disk :=
  { d with
    next := d.next + k + 1
    buf := d.sectors sector
    moved := Function.update d.moved sector (d.moved sector + 1) }

def delivered (d : Disk) (sector : Nat) (x : Xfer) : Xfer :=
  { buf := copyBytes x.buf x.uio.iovKbase (d.sectors sector) 0 512, uio := x.uio.skip 512 }

include hroom hr hrd ho hs hd

theorem lhdIo_read : lhdIo true d x = if d.outcome d.next then
    .ok (none, fetched d (sectorOf block) 0, delivered d (sectorOf block) x)
    else .ok (some .eio, { d with next := d.next + 1 }, x) := by
  have hmove : uiomove (d.sectors (sectorOf block)) x.buf sectsize x.uio =
      .ok (d.sectors (sectorOf block), copyBytes x.buf x.uio.iovKbase (d.sectors (sectorOf block)) 0 512,
        x.uio.skip 512) :=
    uiomove_in hroom hrd (by rw [hr]; decide)
  have hsum : u32 (sectorOf block + 1) = sectorOf block + 1 := u32_of_lt (by omega)
  rw [lhdIo_block ho hr, hsum, if_neg (by omega)]
  unfold lhdIoLoop operate
  simp only [hrd, u32_of_lt (sectorOf_lt block), if_neg (Nat.not_le.mpr hs)]
  cases hout : d.outcome d.next with
  | false => rfl
  | true =>
    simp only [if_true, moveSector, Bool.true_eq_false, false_and, if_false, hmove, ok_bind]
    rfl

theorem rwblockLoop_read (tries : Nat) :
    (∃ k ≤ tries, d.outcome (d.next + k) = true ∧
      sfsRwblockLoop true tries d x = .ok (none, fetched d (sectorOf block) k, delivered d (sectorOf block) x)) ∨
    ((∀ k ≤ tries, d.outcome (d.next + k) = false) ∧
      sfsRwblockLoop true tries d x = .ok (some .eio, { d with next := d.next + tries + 1 }, x)) := by
  induction tries generalizing d with
  | zero =>
    unfold sfsRwblockLoop
    rw [lhdIo_read hroom hr hrd ho hs hd]
    cases hout : d.outcome d.next with
    | true => exact Or.inl ⟨0, Nat.le_refl _, hout, rfl⟩
    | false =>
      refine Or.inr ⟨fun k hk => ?_, rfl⟩
      obtain rfl : k = 0 := Nat.le_zero.mp hk
      exact hout
  | succ tries ih =>
    unfold sfsRwblockLoop
    rw [lhdIo_read hroom hr hrd ho hs hd]
    cases hout : d.outcome d.next with
    | true => exact Or.inl ⟨0, Nat.zero_le _, hout, rfl⟩
    | false =>
      simp only [Bool.false_eq_true, if_false, ok_bind, reduceCtorEq, Option.some.injEq, if_true]
      rcases @ih { d with next := d.next + 1 } hs hd with ⟨k, hk, hok, he⟩ | ⟨hall, he⟩
      · refine Or.inl ⟨k + 1, Nat.succ_le_succ hk, ?_, ?_⟩
        · rw [← Nat.add_assoc, Nat.add_right_comm]
          exact hok
        · rw [he]
          simp only [fetched, delivered, Nat.add_comm k 1, Nat.add_assoc]
      · refine Or.inr ⟨fun k hk => ?_, ?_⟩
        · cases k with
          | zero => exact hout
          | succ k =>
            rw [← Nat.add_assoc, Nat.add_right_comm]
            exact hall k (Nat.le_of_succ_le_succ hk)
        · rw [he]
          simp only [Nat.add_comm 1 tries, Nat.add_assoc]

end

theorem rwblock_read_refused (hr : x.uio.uioResid = 512) (hrd : x.uio.uioRw = .read)
    (ho : x.uio.uioOffset = diskoff block) (hs : d.blocks ≤ sectorOf block) : sfsRwblock true d x = .error .einval := by
  unfold sfsRwblock sfsRwblockLoop
  rw [lhdIo_block ho hr]
  split
  · rfl
  · unfold lhdIoLoop operate
    simp only [hrd, u32_of_lt (sectorOf_lt block), if_pos hs]
    rfl

theorem rwblock_read_iff (hroom : x.uio.Room) (hr : x.uio.uioResid = 512) (hrd : x.uio.uioRw = .read)
    (ho : x.uio.uioOffset = diskoff block) (hb : block < d.blocks) (hd : d.blocks < 2 ^ 32) :
    Honestly (sfsRwblock true d x) d block x ↔
      Reaches block ∨ (sectorOf block < d.blocks ∧ ∀ k ≤ 10, d.outcome (d.next + k) = false) := by
  have hreach : sectorOf block = block ↔ Reaches block := sectorOf_eq_self_iff (Nat.lt_trans hb hd)
  by_cases hs : sectorOf block < d.blocks
  · unfold sfsRwblock
    rcases rwblockLoop_read hroom hr hrd ho hs hd 10 with ⟨k, hk, hok, he⟩ | ⟨hall, he⟩
    · rw [he, honestly_ok, ← hreach]
      constructor
      · intro hh
        refine Or.inl ?_
        by_contra hne
        have hoff := hh.offset
        rw [amount_self (Function.update_of_ne (Ne.symm hne) _ _)] at hoff
        simp only [delivered, Uio.skip] at hoff
        omega
      · intro hc
        have hself : sectorOf block = block := hc.resolve_right fun h => by
          rw [h.2 k hk] at hok
          cases hok
        rw [hself]
        have ham : amount d (fetched d block k) block = 512 := by
          simp only [amount, fetched, Function.update_self]
          omega
        refine ⟨fun _ i hi => ?_, ?_, ?_, fun _ hall => ?_⟩
        · simp only [hrd, fetched, delivered, copyBytes]
          rw [if_pos (by omega)]
          congr 1
          omega
        · rw [ham]
          rfl
        · rw [ham]
          simp only [delivered, Uio.skip, hr]
          omega
        · rw [hall (d.next + k) (by omega) (by simp only [fetched]; omega)] at hok
          cases hok
    · rw [he, honestly_ok]
      constructor
      · intro _
        exact Or.inr ⟨hs, hall⟩
      · intro _
        refine ⟨by simp, ?_, ?_, fun _ _ => rfl⟩ <;> simp only [amount] <;> omega
  · -- the device refuses the sector
    have hno : ¬ Reaches block := by
      rw [← hreach]
      omega
    rw [rwblock_read_refused hr hrd ho (Nat.not_lt.mp hs)]
    constructor
    · intro h
      exact absurd h not_honestly_error
    · rintro (h | ⟨h, -⟩)
      · exact absurd h hno
      · exact absurd h hs

theorem sfsuio_room (block : Nat) (rw : UioRw) : (sfsuio block rw).Room :=
  ⟨Nat.le_refl _, show 512 < 2 ^ 32 by decide⟩

/-! ## Under a mounted volume

The block I/O of `Sfs` is that of the driver: a write is lost if its first
attempt fails, and a read fails if all its attempts do. -/

structure On (s : Sfs) (d : Disk) : Prop where
  blocks : s.dBlocks = d.blocks
  sectors : ∀ b, ∀ i < 512, s.disk b i = d.sectors b i

inductive Agrees {α : Type} (P : α → Xfer → Prop) :
    Except FsPanic (Except Errno α × Sfs) → Except DiskPanic (Option Errno × Disk × Xfer) → Prop
  | panics : Agrees P (.error .dIoEinval) (.error .einval)
  | fails {s : Sfs} {d : Disk} {x : Xfer} {e : Errno} (h : On s d) : Agrees P (.ok (.error e, s)) (.ok (some e, d, x))
  | returns {s : Sfs} {d : Disk} {x : Xfer} {a : α} (h : On s d) (ha : P a x) :
    Agrees P (.ok (.ok a, s)) (.ok (none, d, x))

section
variable {s : Sfs} (h : On s d) (hd : d.blocks < 2 ^ 32) (data : Mem) (block : Nat)
include h hd

theorem wblock_agrees (lost : List Bool) : Agrees (fun _ _ => True)
    (Os161.sfsWblock data block { s with lost := (!d.outcome d.next) :: lost }) (sfsWblock d data block) := by
  obtain ⟨hblocks, hsectors⟩ := h
  unfold sfsWblock Os161.sfsWblock
  rw [rwblock_write (sfsuio_room block _) rfl rfl rfl hd, Proc.bind_ok rfl]
  simp only [hblocks]
  by_cases hs : d.blocks ≤ sectorOf block
  · rw [if_pos hs, if_pos hs]
    exact .panics
  rw [if_neg hs, if_neg hs, Proc.bind_ok rfl]
  cases hout : d.outcome d.next with
  | true =>
    refine .returns ⟨rfl, fun b i hi => ?_⟩ trivial
    by_cases hb : b = sectorOf block
    · simp only [hb, stored, filled, Function.update_self, copyBytes]
      rw [if_pos ⟨Nat.zero_le i, by omega⟩]
      exact congrArg data (Nat.zero_add _).symm
    · simp only [stored, Function.update_of_ne hb]
      exact hsectors b i hi
  | false =>
    simp only [Bool.not_false, if_true, Bool.false_eq_true, if_false]
    split
    · exact .panics
    · exact .returns ⟨rfl, hsectors⟩ trivial

theorem rblock_agrees (faults : List Bool) : Agrees (fun m x => ∀ i < 512, m i = x.buf i)
    (Os161.sfsRblock block { s with faults := (List.range 11).all (fun k => !d.outcome (d.next + k)) :: faults })
    (sfsRblock d data block) := by
  obtain ⟨hblocks, hsectors⟩ := h
  unfold sfsRblock Os161.sfsRblock
  rw [Proc.bind_ok rfl]
  simp only [hblocks]
  by_cases hs : d.blocks ≤ sectorOf block
  · rw [if_pos hs, rwblock_read_refused rfl rfl rfl hs]
    exact .panics
  rw [if_neg hs, Proc.bind_ok rfl, sfsRwblock]
  rcases rwblockLoop_read (x := { buf := data, uio := sfsuio block .read }) (sfsuio_room block _) rfl rfl rfl
    (Nat.not_le.mp hs) hd 10 with ⟨k, hk, hok, he⟩ | ⟨hall, he⟩
  · have hany : (List.range 11).all (fun k => !d.outcome (d.next + k)) = false :=
      List.all_eq_false.mpr ⟨k, List.mem_range.mpr (by omega), by simp [hok]⟩
    rw [he, hany]
    refine .returns ⟨rfl, hsectors⟩ fun i hi => ?_
    simp only [delivered, copyBytes]
    rw [if_pos ⟨Nat.zero_le i, by omega⟩]
    exact (hsectors _ i hi).trans (congrArg _ (Nat.zero_add _).symm)
  · have hany : (List.range 11).all (fun k => !d.outcome (d.next + k)) = true :=
      List.all_eq_true.mpr fun k hk => by simp [hall k (by have := List.mem_range.mp hk; omega)]
    rw [he, hany]
    exact .fails ⟨rfl, hsectors⟩

end

/-! ## The three calls -/

/-- Reads are repeated as they should be. A write is, exactly if its data cannot
be fetched or its first attempt succeeds. -/
theorem retried_block_iff (hb : block < d.blocks) (hd : d.blocks < 2 ^ 32) :
    (∀ data, Honestly (sfsWblock d data block) d block { buf := data, uio := sfsuio block .write } ↔
      Reaches block ∧ d.outcome d.next = true) ∧
    (∀ data, Honestly (sfsRblock d data block) d block { buf := data, uio := sfsuio block .read } ↔
      Reaches block ∨ (sectorOf block < d.blocks ∧ ∀ k ≤ 10, d.outcome (d.next + k) = false)) ∧
    ∀ mapped x, x.uio.Room → x.uio.uioRw = .write → 512 ≤ x.uio.uioResid →
      (Honestly (blockioDevice mapped d x block) d block x ↔
        (mapped = false ∧ u32 (sectorOf block + 1) ≤ d.blocks) ∨
          (mapped = true ∧ Reaches block ∧ d.outcome d.next = true)) := by
  have hlt := Nat.lt_trans hb hd
  refine ⟨fun data => ?_, fun data => ?_, fun mapped x hx hw hlow => ?_⟩
  · have hwritten : Written true d block { buf := data, uio := sfsuio block .write } (sfsWblock d data block) :=
      rwblock_written (sfsuio_room block _) rfl rfl rfl hb hd
    rw [hwritten.honestly_iff rfl (Nat.le_refl _) hlt]
    simp
  · exact rwblock_read_iff (sfsuio_room block _) rfl rfl rfl hb hd
  · exact (blockio_written hx hlow hw hb hd).honestly_iff hw hlow hlt

def oneSector (first : Bool) : Disk where
  blocks := 1
  sectors _ := zeroBlock
  buf := zeroBlock
  outcome k := k != 0 || first
  next := 0
  moved _ := 0

theorem retried_block_first : Honestly (sfsWblock (oneSector true) (fun _ => 1) 0) (oneSector true) 0
    { buf := fun _ => 1, uio := sfsuio 0 .write } :=
  ((retried_block_iff (show 0 < (oneSector true).blocks by decide) (by decide)).1 _).mpr ⟨by decide, rfl⟩

theorem retried_write_lost : ∃ d' x', sfsWblock (oneSector false) (fun _ => 1) 0 = .ok (none, d', x') ∧
    d'.sectors 0 0 = 0 ∧ ¬ Honestly (sfsWblock (oneSector false) (fun _ => 1) 0) (oneSector false) 0
      { buf := fun _ => 1, uio := sfsuio 0 .write } := by
  have he : sfsWblock (oneSector false) (fun _ => 1) 0 = .ok (none, _, _) := rfl
  refine ⟨_, _, he, rfl, ?_⟩
  rw [he, honestly_ok]
  intro hh
  exact absurd (hh.done rfl 0 (by decide)) (by decide)

end Os161.Lhd
