import Os161.AddrspaceSound
import Os161.Lib.Outcome

/-!
# What is loaded

The zero fill stops when `uio_resid` reaches zero, which it does early if it
held the wrong thing before. `load_segment_page` puts the file's bytes at the
segment's base, which is the page boundary below the address the program
header names.
-/

namespace Os161

open Outcome

/-! ## The zero fill -/

def zeroed (r n : Nat) : Nat := if r % 16 = 0 ∧ r < n then r else n

theorem zeroed_le (r n : Nat) : zeroed r n ≤ n := by
  unfold zeroed; split <;> omega

theorem zeroed_self (n : Nat) : zeroed n n = n := by
  unfold zeroed; split <;> omega

theorem zeroed_step {r n : Nat} (hr : 0 < r) (hr' : r < 2 ^ 32) (hn : 0 < n) :
    min 16 n + zeroed (u32 (r + 2 ^ 32 - min 16 n)) (n - min 16 n) = zeroed r n := by
  have hu : u32 (r + 2 ^ 32 - min 16 n) = if min 16 n ≤ r then r - min 16 n else r + 2 ^ 32 - min 16 n := by
    unfold u32
    split
    · rw [show r + 2 ^ 32 - min 16 n = r - min 16 n + 2 ^ 32 by omega, Nat.add_mod_right, Nat.mod_eq_of_lt (by omega)]
    · exact Nat.mod_eq_of_lt (by omega)
  rw [hu]
  rcases Nat.le_total 16 n with h16 | h16
  · rw [Nat.min_eq_left h16]
    unfold zeroed
    split <;> split <;> split <;> omega
  · rw [Nat.min_eq_right h16, Nat.sub_self]
    unfold zeroed
    split <;> split <;> split <;> omega

def zeroFilled (buf : Nat → UInt8) (base n : Nat) : Nat → UInt8 := fun a =>
  if base ≤ a ∧ a < base + n then 0 else buf a

@[simp] theorem zeroFilled_zero (buf : Nat → UInt8) (base : Nat) : zeroFilled buf base 0 = buf := by
  funext a
  simp only [zeroFilled]
  rw [if_neg (by omega)]

theorem uiomovezerosLoop_eq {rounds n : Nat} {buf : Nat → UInt8} {u : Uio} (hrw : u.uioRw = .read)
    (hr : u.uioResid < 2 ^ 32) (hlen : n ≤ u.iovLen) (hn : n ≤ rounds) :
    ∃ u', uiomovezerosLoop rounds buf n u = .ok (zeroFilled buf u.iovKbase (zeroed u.uioResid n), u') := by
  induction rounds generalizing n buf u with
  | zero =>
    obtain rfl : n = 0 := by omega
    exact ⟨u, by simp [uiomovezerosLoop, zeroed]⟩
  | succ rounds ih =>
    unfold uiomovezerosLoop
    by_cases h0 : 0 < n
    · simp only [h0, if_true]
      by_cases hz : u.uioResid = 0
      · -- nothing is moved any more
        rw [uiomove_no_resid hz]
        obtain ⟨u', he⟩ := @ih (n - min 16 n) buf u hrw hr (by omega) (by omega)
        refine ⟨u', he.trans ?_⟩
        have : ∀ m, zeroed u.uioResid m = 0 := fun m => by unfold zeroed; split <;> omega
        rw [this, this]
      · rw [uiomove_read hrw (by omega) (by omega) (by omega)]
        obtain ⟨u', he⟩ := @ih (n - min 16 n) (copyBytes buf u.iovKbase (fun _ => 0) 0 (min 16 n))
          (u.advance (min 16 n)) hrw (u32_lt _) (by simp only [Uio.advance]; omega) (by omega)
        refine ⟨u', he.trans ?_⟩
        simp only [Uio.advance]
        rw [← zeroed_step (Nat.pos_of_ne_zero hz) hr h0]
        congr 2
        funext a
        simp only [zeroFilled, copyBytes]
        split <;> split <;> (try split) <;> first | rfl | omega
    · obtain rfl : n = 0 := by omega
      exact ⟨u, by simp [zeroed]⟩

theorem uiomovezeros_eq {n : Nat} {buf : Nat → UInt8} {u : Uio} (hrw : u.uioRw = .read) (hr : u.uioResid < 2 ^ 32)
    (hlen : n ≤ u.iovLen) :
    ∃ u', uiomovezeros buf n u = .ok (zeroFilled buf u.iovKbase (zeroed u.uioResid n), u') :=
  uiomovezerosLoop_eq hrw hr hlen (Nat.le_refl n)

/-! ## One page -/

def segImage (file : List UInt8) (seg : Segment) (j : Nat) : Page := fun off =>
  if pageSize * j + off < seg.pFilesz then file.getD (seg.pOffset + (pageSize * j + off)) 0 else 0

/-- The file holds the segment's bytes, and they end in user space. A file is
no longer than an `off_t` can say. -/
structure Readable (file : List UInt8) (seg : Segment) : Prop where
  len : file.length < 2 ^ 31
  bytes : seg.pOffset + seg.pFilesz ≤ file.length
  top : seg.vbase + seg.pFilesz ≤ userTop

theorem vopRead_eq {file : List UInt8} {buf : Nat → UInt8} {off n : Nat} {u : Uio} (hrw : u.uioRw = .read)
    (hoff : u.uioOffset = off) (hres : u.uioResid = n) (hn : 0 < n) (hlen : n ≤ u.iovLen)
    (hfile : off + n ≤ file.length) :
    ∃ u', vopRead file buf u = .ok (copyBytes buf u.iovKbase (fun i => file.getD (off + i) 0) 0 n, u') ∧
      u'.uioRw = .read ∧ u'.uioResid = 0 ∧ u'.iovKbase = u.iovKbase + n ∧ u'.iovLen = u.iovLen - n := by
  have hmin : min u.uioResid (file.length - off) = n := by omega
  refine ⟨u.advance n, ?_, hrw, ?_, rfl, rfl⟩
  · unfold vopRead
    rw [if_pos (by omega)]
    simp only [hoff, Int.toNat_natCast, hmin]
    rw [uiomove_read hrw hn hlen (by omega), ok_bind]
  · show u32 (u.uioResid + 2 ^ 32 - n) = 0
    rw [hres, Nat.add_sub_cancel_left]
    rfl

def pageUio (off n : Nat) : Uio :=
  { iovKbase := 0, iovLen := pageSize, uioOffset := (off : Int), uioResid := n, uioRw := .read }

section
variable {file : List UInt8} {seg : Segment} {j : Nat} (h : Readable file seg)
include h

theorem load_read_eq (hj : pageSize * j < seg.pFilesz) (frame : Page) (resid : Nat) :
    let n := min pageSize (seg.pFilesz - pageSize * j)
    loadSegmentPage file (seg.vbase + pageSize * j) seg frame resid =
      (do let (frame, u) ← vopRead file frame (pageUio (pageSize * j + seg.pOffset) n)
          if u.uioResid ≠ 0 then .ok (some .enoexec, frame)
          else if 0 < pageSize - n then
            let (frame, _) ← uiomovezeros frame (pageSize - n) { u with uioResid := u32 (u.uioResid + (pageSize - n)) }
            .ok (none, frame)
          else .ok (none, frame)) := by
  have htop := h.top
  have hlen := h.len
  have hbytes := h.bytes
  have hut : userTop = 2147483648 := rfl
  have hps : pageSize = 4096 := rfl
  have hdelta : u32 (seg.vbase + pageSize * j + 2 ^ 32 - seg.vbase) = pageSize * j := by
    rw [u32_sub (by omega) (by omega)]; omega
  have hoff : toOff (u32 (pageSize * j + seg.pOffset)) = ((pageSize * j + seg.pOffset : Nat) : Int) := by
    rw [u32_of_lt (by omega), toOff, if_pos (by omega)]
  have hread : (if u32 (seg.vbase + pageSize * j + pageSize) ≤ u32 (seg.vbase + seg.pFilesz) then pageSize
      else u32 (seg.vbase + seg.pFilesz + 2 ^ 32 - (seg.vbase + pageSize * j))) =
      min pageSize (seg.pFilesz - pageSize * j) := by
    rw [u32_of_lt (by omega), u32_of_lt (by omega), u32_sub (by omega) (by omega)]
    split <;> omega
  have hfill : u32 (pageSize + 2 ^ 32 - min pageSize (seg.pFilesz - pageSize * j)) =
      pageSize - min pageSize (seg.pFilesz - pageSize * j) := u32_sub (by omega) (by omega)
  unfold loadSegmentPage
  simp only [hdelta, hoff, hj, if_true, hread, hfill, pageUio]

theorem load_file (hj : pageSize * j < seg.pFilesz) (frame : Page) (resid : Nat) :
    ∃ data, loadSegmentPage file (seg.vbase + pageSize * j) seg frame resid = .ok (none, data) ∧
      SamePage data (segImage file seg j) := by
  have hbytes := h.bytes
  have hps : pageSize = 4096 := rfl
  rw [load_read_eq h hj frame resid]
  generalize hn : min pageSize (seg.pFilesz - pageSize * j) = n
  have hn0 : 0 < n := by omega
  have hnp : n ≤ pageSize := by omega
  obtain ⟨u, he, hrw, hres, hbase, hlen⟩ := vopRead_eq (u := pageUio (pageSize * j + seg.pOffset) n) rfl rfl rfl hn0 hnp
    (show pageSize * j + seg.pOffset + n ≤ file.length by omega)
  rw [he, ok_bind]
  simp only [hres, ne_eq, not_true_eq_false, if_false, Nat.zero_add]
  by_cases hz : 0 < pageSize - n
  · rw [if_pos hz, u32_of_lt (by omega)]
    obtain ⟨u', he'⟩ := uiomovezeros_eq (n := pageSize - n) (u := { u with uioResid := pageSize - n }) hrw
      (show pageSize - n < 2 ^ 32 by omega) (show pageSize - n ≤ u.iovLen by rw [hlen]; exact Nat.le_refl _)
    rw [he', ok_bind]
    refine ⟨_, rfl, fun off ho => ?_⟩
    simp only [zeroed_self, zeroFilled, hbase, copyBytes, segImage, pageUio, Nat.zero_add, Nat.sub_zero,
      Nat.zero_le, true_and]
    by_cases hlt : off < n
    · rw [if_neg (by omega), if_pos hlt, if_pos (by omega)]
      congr 1; omega
    · rw [if_pos (by omega), if_neg (by omega)]
  · rw [if_neg hz]
    refine ⟨_, rfl, fun off ho => ?_⟩
    simp only [copyBytes, segImage, pageUio, Nat.zero_add, Nat.sub_zero, Nat.zero_le, true_and]
    rw [if_pos (by omega), if_pos (by omega)]
    congr 1; omega

end

theorem load_past {seg : Segment} {vaddr : Nat} (hv : seg.pFilesz ≤ u32 (vaddr + 2 ^ 32 - seg.vbase))
    (file : List UInt8) (frame : Page) (resid : Nat) :
    loadSegmentPage file vaddr seg frame resid =
      .ok (none, zeroFilled frame 0 (zeroed (u32 (resid + pageSize)) pageSize)) := by
  unfold loadSegmentPage
  simp only [Nat.not_lt.mpr hv, if_false]
  obtain ⟨u', he⟩ := uiomovezeros_eq (n := pageSize) (u := { pageUio 0 (u32 (resid + pageSize)) with
    uioOffset := toOff (u32 (u32 (vaddr + 2 ^ 32 - seg.vbase) + seg.pOffset)) }) rfl (u32_lt _) (Nat.le_refl _)
  simp only [pageUio] at he
  rw [he, ok_bind]

theorem load_bss {seg : Segment} {j : Nat} (hv : seg.vbase + pageSize * j < 2 ^ 32) (hj : seg.pFilesz ≤ pageSize * j)
    (file : List UInt8) (frame : Page) (resid : Nat) :
    loadSegmentPage file (seg.vbase + pageSize * j) seg frame resid =
      .ok (none, zeroFilled frame 0 (zeroed (u32 (resid + pageSize)) pageSize)) := by
  refine load_past ?_ file frame resid
  rw [u32_sub (by omega) hv]
  omega

/-! ## How a load can fail -/

theorem uiomoveLoop_error {rounds : Nat} {ptr buf : Nat → UInt8} {a n : Nat} {u : Uio} {why : Panic}
    (h : uiomoveLoop rounds ptr buf a n u = .error why) : why = .uiomoveSizeReachedZero := by
  induction rounds generalizing ptr buf a n u with
  | zero => cases h
  | succ rounds ih =>
    unfold uiomoveLoop at h
    simp only at h
    split at h
    · split at h
      · cases h; rfl
      · split at h
        · exact ih h
        · exact ih h
    · cases h

theorem uiomovezerosLoop_error {rounds : Nat} {buf : Nat → UInt8} {n : Nat} {u : Uio} {why : Panic}
    (h : uiomovezerosLoop rounds buf n u = .error why) : why = .uiomoveSizeReachedZero := by
  induction rounds generalizing buf n u with
  | zero => cases h
  | succ rounds ih =>
    unfold uiomovezerosLoop at h
    split at h
    · rcases bind_eq_error.mp h with h | ⟨⟨_, _, _⟩, -, h⟩
      · exact uiomoveLoop_error h
      · exact ih h
    · cases h

theorem vopRead_error {file : List UInt8} {buf : Nat → UInt8} {u : Uio} {why : Panic}
    (h : vopRead file buf u = .error why) : why = .uiomoveSizeReachedZero := by
  unfold vopRead at h
  split at h
  · rcases bind_eq_error.mp h with h | ⟨⟨_, _, _⟩, -, h⟩
    · exact uiomoveLoop_error h
    · cases h
  · cases h

theorem loadSegmentPage_error {file : List UInt8} {vaddr : Nat} {seg : Segment} {frame : Page}
    {resid : Nat} {why : Panic}
    (h : loadSegmentPage file vaddr seg frame resid = .error why) : why = .uiomoveSizeReachedZero := by
  unfold loadSegmentPage at h
  simp only at h
  generalize (if u32 (vaddr + pageSize) ≤ u32 (seg.vbase + seg.pFilesz) then pageSize
    else u32 (seg.vbase + seg.pFilesz + 2 ^ 32 - vaddr)) = readSize at h
  split at h
  · rcases bind_eq_error.mp h with h | ⟨⟨_, u⟩, -, h⟩
    · exact vopRead_error h
    · simp only at h
      split at h
      · cases h
      · split at h
        · rcases bind_eq_error.mp h with h | ⟨_, -, h⟩
          · exact uiomovezerosLoop_error h
          · cases h
        · cases h
  · rcases bind_eq_error.mp h with h | ⟨_, -, h⟩
    · exact uiomovezerosLoop_error h
    · cases h

/-! ## The image of a segment -/

def loadedPage (r : Except Panic (Option Errno × Page)) : Option Page :=
  match r with
  | .ok (_, data) => some data
  | .error _ => none

/-- The byte at address `a` once its page is loaded; `frames j` is what the
frame of page `j` held before, and `resid j` what `uio_resid` held. -/
def loadedByte (file : List UInt8) (seg : Segment) (frames : Nat → Page) (resid : Nat → Nat) (a : Nat) : Option UInt8 :=
  let j := (a - seg.vbase) / pageSize
  (loadedPage (loadSegmentPage file (seg.vbase + pageSize * j) seg (frames j) (resid j))).map
    fun data => data ((a - seg.vbase) % pageSize)

def headerByte (file : List UInt8) (offset filesz i : Nat) : UInt8 := if i < filesz then file.getD (offset + i) 0 else 0

theorem loadedByte_of_page {file : List UInt8} {seg : Segment} {frames : Nat → Page} {resid : Nat → Nat} {k : Nat}
    {e : Option Errno} {data : Page}
    (h : loadSegmentPage file (seg.vbase + pageSize * (k / pageSize)) seg (frames (k / pageSize))
      (resid (k / pageSize)) = .ok (e, data)) :
    loadedByte file seg frames resid (seg.vbase + k) = some (data (k % pageSize)) := by
  unfold loadedByte
  simp only [Nat.add_sub_cancel_left]
  rw [h]
  rfl

theorem loadedByte_eq {file : List UInt8} {seg : Segment} {k : Nat} (h : Readable file seg)
    (hk : seg.vbase + k < 2 ^ 32) (frames : Nat → Page) (resid : Nat → Nat) :
    loadedByte file seg frames resid (seg.vbase + k) = some (
      if pageSize * (k / pageSize) < seg.pFilesz then headerByte file seg.pOffset seg.pFilesz k
      else if k % pageSize < zeroed (u32 (resid (k / pageSize) + pageSize)) pageSize then 0
      else frames (k / pageSize) (k % pageSize)) := by
  have hdm : pageSize * (k / pageSize) + k % pageSize = k := Nat.div_add_mod k pageSize
  have hlt : k % pageSize < pageSize := Nat.mod_lt _ (by decide)
  by_cases hj : pageSize * (k / pageSize) < seg.pFilesz
  · obtain ⟨data, he, hsame⟩ := load_file h hj (frames (k / pageSize)) (resid (k / pageSize))
    rw [loadedByte_of_page he, if_pos hj, hsame _ hlt]
    simp only [segImage, headerByte, hdm]
  · rw [loadedByte_of_page (load_bss (by omega) (by omega) file _ _), if_neg hj]
    simp only [zeroFilled, Nat.zero_le, true_and, Nat.zero_add]

/-- Every page past the file's bytes that a byte of the segment is in is
filled up to that byte. -/
def FillReaches (resid : Nat → Nat) (d filesz memsz : Nat) : Prop :=
  ∀ i < memsz, filesz ≤ pageSize * ((d + i) / pageSize) →
    (d + i) % pageSize < zeroed (u32 (resid ((d + i) / pageSize) + pageSize)) pageSize

section
variable {file : List UInt8} {vaddr memsz filesz : Nat} (block flags offset : Nat)
  (hle : filesz ≤ memsz) (htop : vaddr + memsz ≤ userTop) (hbytes : offset + filesz ≤ file.length)
  (hlen : file.length < 2 ^ 31)
include hle htop

theorem region_base : (regionSegment block vaddr memsz flags offset filesz).vbase + vaddr % pageSize = vaddr := by
  have : userTop = 2147483648 := rfl
  show (vaddr &&& pageFrame) + vaddr % pageSize = vaddr
  rw [and_pageFrame (by omega), Nat.mul_comm]
  exact Nat.div_add_mod vaddr pageSize

theorem region_covers {i : Nat} (hi : i < memsz) :
    inSegment (regionSegment block vaddr memsz flags offset filesz) (vaddr + i) = true := by
  have hut : userTop = 2147483648 := rfl
  have hand : vaddr &&& 0xfff = vaddr % 4096 := Nat.and_two_pow_sub_one_eq_mod vaddr 12
  have hbase : _ + vaddr % 4096 = vaddr := region_base block flags offset hle htop
  have hsize : regionPages vaddr memsz * pageSize = (memsz + vaddr % 4096 + 4095) / 4096 * 4096 := by
    unfold regionPages pageSize
    rw [hand, u32_of_lt (n := memsz + vaddr % 4096) (by omega), u32_of_lt (by omega), and_pageFrame (by omega)]
    unfold pageSize
    omega
  simp only [inSegment, Bool.and_eq_true, decide_eq_true_eq]
  rw [show (regionSegment block vaddr memsz flags offset filesz).size = regionPages vaddr memsz from rfl, hsize]
  refine ⟨by omega, ?_⟩
  rw [u32_of_lt (by omega)]
  omega

include hbytes hlen

theorem region_readable : Readable file (regionSegment block vaddr memsz flags offset filesz) := by
  refine ⟨hlen, hbytes, ?_⟩
  have hbase := region_base block flags offset hle htop
  show (regionSegment block vaddr memsz flags offset filesz).vbase + filesz ≤ userTop
  omega

end

theorem zero_of_shift {b : Nat → UInt8} {n d : Nat} (hd : 0 < d)
    (h : ∀ i < n, b i = if d + i < n then b (d + i) else 0) : ∀ i < n, b i = 0 := by
  intro i hi
  induction hm : n - i using Nat.strongRecOn generalizing i with
  | _ m ih =>
    rw [h i hi]
    split
    · rename_i hlt
      exact ih (n - (d + i)) (by omega) (d + i) hlt rfl
    · rfl

/-- The image a program header describes is what its pages hold, whatever
their frames held before, exactly if the header's address is at a page
boundary or the file's bytes are all zero, and the zero fill goes far enough
in every page past the file's bytes. The pages always cover the image. -/
theorem elf_image_iff {as as' : AddrSpace} {pds pds' : PdPtr → PageDetail} {file : List UInt8}
    {block vaddr memsz flags offset filesz : Nat} (hreg : Regions as)
    (hdef : asDefineRegion as pds block vaddr memsz flags offset filesz = .ok (none, as', pds'))
    (hle : filesz ≤ memsz) (htop : vaddr + memsz ≤ userTop) (hbytes : offset + filesz ≤ file.length)
    (hlen : file.length < 2 ^ 31) (resid : Nat → Nat) :
    (∀ i < memsz, inSegment (as'.segments as.numSegments) (vaddr + i) = true) ∧
      ((∀ frames, ∀ i < memsz, loadedByte file (as'.segments as.numSegments) frames resid (vaddr + i) =
          some (headerByte file offset filesz i)) ↔
        (vaddr % pageSize = 0 ∨ ∀ i < filesz, file.getD (offset + i) 0 = 0) ∧
          FillReaches resid (vaddr % pageSize) filesz memsz) := by
  have hut : userTop = 2147483648 := rfl
  obtain ⟨-, -, rfl, -⟩ | ⟨-, he, -, -⟩ := asDefineRegion_cases hreg.ok hdef
  rotate_left
  · cases he
  have hseg : ({ as.setSegment as.numSegments (regionSegment block vaddr memsz flags offset filesz) with
      numSegments := as.numSegments + 1 } : AddrSpace).segments as.numSegments =
      regionSegment block vaddr memsz flags offset filesz := Function.update_self ..
  rw [hseg]
  have hbase := region_base block flags offset hle htop
  have hread := region_readable block flags offset hle htop hbytes hlen
  refine ⟨fun i hi => region_covers block flags offset hle htop hi, ?_⟩
  generalize hd : vaddr % pageSize = d at *
  generalize hs : regionSegment block vaddr memsz flags offset filesz = seg at *
  have hfz : seg.pFilesz = filesz := by rw [← hs]; rfl
  have hpo : seg.pOffset = offset := by rw [← hs]; rfl
  -- the byte at `p_vaddr + i` is at distance `d + i` from the base
  have hbyte : ∀ frames i, i < memsz → loadedByte file seg frames resid (vaddr + i) = some (
      if pageSize * ((d + i) / pageSize) < filesz then headerByte file offset filesz (d + i)
      else if (d + i) % pageSize < zeroed (u32 (resid ((d + i) / pageSize) + pageSize)) pageSize then 0
      else frames ((d + i) / pageSize) ((d + i) % pageSize)) := fun frames i hi => by
    rw [← hbase, Nat.add_assoc, loadedByte_eq hread (by omega), hfz, hpo]
  have hpage : ∀ i, pageSize * ((d + i) / pageSize) ≤ d + i := fun i => Nat.mul_div_le ..
  constructor
  · intro himg
    have hfill : FillReaches resid d filesz memsz := by
      intro i hi hpast
      by_contra hshort
      have := himg (fun _ _ => headerByte file offset filesz i + 1) i hi
      rw [hbyte _ i hi, if_neg (by omega), if_neg hshort] at this
      simp at this
    refine ⟨?_, hfill⟩
    by_cases h0 : d = 0
    · exact Or.inl h0
    · refine Or.inr (zero_of_shift (d := d) (by omega) fun i hi => ?_)
      have := himg (fun _ _ => 0) i (by omega)
      rw [hbyte _ i (by omega), Option.some.injEq] at this
      simp only [headerByte, hi, if_true] at this
      rw [← this]
      by_cases hlt : d + i < filesz
      · rw [if_pos (Nat.lt_of_le_of_lt (hpage i) hlt), if_pos hlt]
      · rw [if_neg hlt]
        split
        · rfl
        · split <;> rfl
  · rintro ⟨hal, hfill⟩ frames i hi
    rw [hbyte frames i hi, Option.some.injEq]
    by_cases hj : pageSize * ((d + i) / pageSize) < filesz
    · rw [if_pos hj]
      simp only [headerByte]
      rcases hal with rfl | hz
      · rw [Nat.zero_add]
      · have : ∀ k, (if k < filesz then file.getD (offset + k) 0 else 0) = 0 := fun k => by
          split
          · exact hz k ‹_›
          · rfl
        rw [this, this]
    · rw [if_neg hj, if_pos (hfill i hi (by omega))]
      simp only [headerByte]
      rcases hal with rfl | hz
      · rw [if_neg]
        have := hpage i
        omega
      · split
        · exact (hz i ‹_›).symm
        · rfl

theorem image_shifted_or_stale :
    (∀ frames resid, loadedByte [1, 2] (regionSegment 0 0x400001 2 5 0 2) frames resid 0x400001 = some 2 ∧
        headerByte [1, 2] 0 2 0 = 1) ∧
      ∀ frames, loadedByte [] (regionSegment 0 0x400000 0x1000 6 0 0) frames (fun _ => 4294963200) 0x400000 =
        some (frames 0 0) ∧ headerByte [] 0 0 0 = 0 := by
  refine ⟨fun frames resid => ⟨?_, by decide⟩, fun frames => ⟨?_, by decide⟩⟩
  · exact @loadedByte_eq [1, 2] (regionSegment 0 0x400001 2 5 0 2) 1 ⟨by decide, by decide, by decide⟩ (by decide)
      frames resid
  · exact @loadedByte_eq [] (regionSegment 0 0x400000 0x1000 6 0 0) 0 ⟨by decide, by decide, by decide⟩ (by decide)
      frames _

theorem elf_image_small : loadedByte [1, 2, 3] (regionSegment 0 0x400000 4 5 0 3) (fun _ _ => 7) (fun _ => 0) 0x400003 =
    some 0 := by
  have hdef : asDefineRegion (asCreate emptySegment) (fun _ => ptEntry emptySegment 0) 0 0x400000 4 5 0 3 =
      .ok (none, _, _) :=
    rfl
  have h := @elf_image_iff _ _ _ _ [1, 2, 3] _ _ _ _ _ _ (.create emptySegment) hdef (by decide) (by decide)
    (by decide) (by decide) fun _ => 0
  refine h.2.mpr ⟨Or.inl (by decide), fun i hi hpast => ?_⟩ (fun _ _ => 7) 3 (by decide)
  exact absurd hpast (by have : i < 4 := hi; unfold pageSize; omega)

/-! ## Pages without bytes of the file -/

theorem zeroed_page_iff {resid : Nat} (hr : resid < 2 ^ 32) :
    zeroed (u32 (resid + pageSize)) pageSize = pageSize ↔ ¬ (2 ^ 32 - pageSize ≤ resid ∧ resid % 16 = 0) := by
  unfold zeroed u32 pageSize
  split <;> omega

/-- A page that begins past the file's bytes is all zeros after
`load_segment_page`, whatever its frame held, exactly if the `uio_resid` found
on the stack is not one of the multiples of 16 from 2^32 - 4096 on. -/
theorem bss_page_zeroed_iff (seg : Segment) (vaddr resid : Nat) (hv : seg.pFilesz ≤ u32 (vaddr + 2 ^ 32 - seg.vbase))
    (hr : resid < 2 ^ 32) :
    (∀ file frame, ∃ data, loadSegmentPage file vaddr seg frame resid = .ok (none, data) ∧
      ∀ off < pageSize, data off = 0) ↔ ¬ (2 ^ 32 - pageSize ≤ resid ∧ resid % 16 = 0) := by
  rw [← zeroed_page_iff hr]
  constructor
  · intro hzero
    obtain ⟨data, he, hdata⟩ := hzero [] fun _ => 1
    rw [load_past hv] at he
    simp only [Except.ok.injEq, Prod.mk.injEq, true_and] at he
    rw [← he] at hdata
    -- the first byte that is not filled keeps its one
    by_contra hne
    have hlt := Nat.lt_of_le_of_ne (zeroed_le (u32 (resid + pageSize)) pageSize) hne
    have hone := hdata _ hlt
    rw [zeroFilled, if_neg (by omega)] at hone
    cases hone
  · intro hfull file frame
    refine ⟨_, load_past hv file frame resid, fun off hoff => ?_⟩
    rw [hfull, zeroFilled, if_pos (by omega)]

theorem bss_page_zeroed_stack : ∃ data,
    loadSegmentPage [] 0x7ffff000 (stackSegment 0) (fun _ => 7) 0 = .ok (none, data) ∧ ∀ off < pageSize, data off = 0 :=
  (bss_page_zeroed_iff (stackSegment 0) 0x7ffff000 0 (Nat.zero_le _) (by decide)).mpr
    (by unfold pageSize; omega) [] fun _ => 7

theorem stack_page_keeps_frame :
    loadSegmentPage [] 0x7ffff000 (stackSegment 0) (fun _ => 7) 4294963200 = .ok (none, fun _ => 7) := by
  rw [load_past (Nat.zero_le _)]
  exact congrArg (fun data => Except.ok (none, data)) (zeroFilled_zero _ 0)

end Os161
