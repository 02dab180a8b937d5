import Os161.Addrspace
import Os161.Pt

/-!
# Segments of an address space

What `as_define_region` and `as_define_stack` leave behind, which page an
address belongs to, and where the two range checks disagree.
-/

namespace Os161

/-! ## Well-formed segments -/

structure SegOk (seg : Segment) : Prop where
  active : seg.active = 1
  pt : ∃ block, seg.pt = some { size := seg.size, block := block }
  base : seg.vbase % pageSize = 0
  lt : seg.vbase < 2 ^ 32
  size : seg.size < 2 ^ 20

def SpaceOk (as : AddrSpace) : Prop :=
  ∀ i < asNumSeg, (as.segments i).active = 0 ∨ SegOk (as.segments i)

theorem and_pageFrame_mod (a : Nat) : (a &&& pageFrame) % pageSize = 0 := by
  have h := Nat.and_mod_two_pow (a := a) (b := pageFrame) (n := 12)
  rw [show (pageFrame % 2 ^ 12 : Nat) = 0 by decide, Nat.and_zero] at h
  exact h

theorem and_pageFrame_lt (a : Nat) : a &&& pageFrame < 2 ^ 32 :=
  Nat.lt_of_le_of_lt Nat.and_le_right (by decide)

def regionPages (vaddr sz : Nat) : Nat :=
  (u32 (u32 (sz + (vaddr &&& 0xfff)) + pageSize - 1) &&& pageFrame) / pageSize

def regionSegment (block vaddr sz flags offset filesz : Nat) : Segment :=
  { active := 1
    vbase := vaddr &&& pageFrame
    size := regionPages vaddr sz
    writeable := flags &&& pfW
    pt := some { size := regionPages vaddr sz, block := block }
    pOffset := offset
    pFilesz := filesz
    pMemsz := sz
    pFlags := flags &&& pfX }

def stackSegment (block : Nat) : Segment :=
  { active := 1
    vbase := userTop - dumbvmStackpages * pageSize
    size := dumbvmStackpages
    writeable := 1
    pt := some { size := dumbvmStackpages, block := block }
    pOffset := 0
    pFilesz := 0
    pMemsz := 0
    pFlags := 0 }

section
variable (block vaddr sz flags offset filesz : Nat)

theorem regionSegment_ok : SegOk (regionSegment block vaddr sz flags offset filesz) := by
  refine ⟨rfl, ⟨block, rfl⟩, and_pageFrame_mod vaddr, and_pageFrame_lt vaddr, ?_⟩
  have h := and_pageFrame_lt (u32 (u32 (sz + (vaddr &&& 0xfff)) + pageSize - 1))
  show _ / pageSize < 2 ^ 20
  unfold pageSize at h ⊢
  omega

theorem stackSegment_ok : SegOk (stackSegment block) :=
  ⟨rfl, ⟨block, rfl⟩, show (userTop - dumbvmStackpages * pageSize) % pageSize = 0 by decide,
    show userTop - dumbvmStackpages * pageSize < 2 ^ 32 by decide, show dumbvmStackpages < 2 ^ 20 by decide⟩

end

/-! ## Spaces under construction -/

structure RegionsOk (as : AddrSpace) : Prop where
  count : as.numSegments ≤ asNumSeg - 1
  defined : ∀ i < as.numSegments, SegOk (as.segments i)
  empty : ∀ i, as.numSegments ≤ i → i < asNumSeg - 1 → as.segments i = emptySegment

theorem asCreate_ok (last : Segment) : RegionsOk (asCreate last) := by
  refine ⟨Nat.zero_le _, fun i hi => absurd hi (Nat.not_lt_zero i), fun i _ hi => ?_⟩
  simp only [asCreate, hi, if_true]

variable {as as' : AddrSpace} {pds pds' : PdPtr → PageDetail} {r : Option Errno}
  {block vaddr sz flags offset filesz : Nat}

theorem asDefineRegion_cases (h : RegionsOk as)
    (he : asDefineRegion as pds block vaddr sz flags offset filesz = .ok (r, as', pds')) :
    (as.numSegments < asNumSeg - 1 ∧ r = none ∧
      as' = { as.setSegment as.numSegments (regionSegment block vaddr sz flags offset filesz) with
        numSegments := as.numSegments + 1 } ∧
      pds' = (ptCreate pds (regionSegment block vaddr sz flags offset filesz) block).2) ∨
    (asNumSeg - 1 ≤ as.numSegments ∧ r = some .eunimp ∧ as' = as ∧ pds' = pds) := by
  unfold asDefineRegion at he
  by_cases hn : as.numSegments < asNumSeg - 1
  · have hact : ¬ (as.segments as.numSegments).active ≠ 0 := by
      rw [h.empty _ (Nat.le_refl _) hn]; decide
    simp only [hn, if_true, hact, if_false] at he
    left
    cases he
    exact ⟨hn, rfl, rfl, rfl⟩
  · simp only [hn, if_false] at he
    right
    cases he
    exact ⟨Nat.le_of_not_lt hn, rfl, rfl, rfl⟩

theorem asDefineRegion_total (h : RegionsOk as) (pds : PdPtr → PageDetail) (block vaddr sz flags offset filesz : Nat) :
    ∃ r as' pds', asDefineRegion as pds block vaddr sz flags offset filesz = .ok (r, as', pds') := by
  unfold asDefineRegion
  by_cases hn : as.numSegments < asNumSeg - 1
  · have hact : ¬ (as.segments as.numSegments).active ≠ 0 := by
      rw [h.empty _ (Nat.le_refl _) hn]; decide
    simp only [hn, if_true, hact, if_false]
    exact ⟨_, _, _, rfl⟩
  · simp only [hn, if_false]
    exact ⟨_, _, _, rfl⟩

theorem asDefineRegion_ok (h : RegionsOk as)
    (he : asDefineRegion as pds block vaddr sz flags offset filesz = .ok (r, as', pds')) : RegionsOk as' := by
  obtain ⟨hn, -, rfl, -⟩ | ⟨-, -, rfl, -⟩ := asDefineRegion_cases h he
  · refine ⟨hn, fun i hi => ?_, fun i hi hlt => ?_⟩
    · simp only [AddrSpace.setSegment, Function.update_apply]
      split
      · exact regionSegment_ok ..
      · exact h.defined i (by simp only at hi; omega)
    · simp only at hi
      simp only [AddrSpace.setSegment, Function.update_of_ne (show i ≠ as.numSegments by omega)]
      exact h.empty i (by omega) hlt
  · exact h

theorem asDefineStack_eq (as : AddrSpace) (pds : PdPtr → PageDetail) (block : Nat) :
    asDefineStack as pds block =
      (userTop, as.setSegment (asNumSeg - 1) (stackSegment block), (ptCreate pds (stackSegment block) block).2) := rfl

theorem RegionsOk.withStack (h : RegionsOk as) (block : Nat) :
    SpaceOk (as.setSegment (asNumSeg - 1) (stackSegment block)) := by
  intro i hi
  simp only [AddrSpace.setSegment, Function.update_apply]
  split
  · exact Or.inr (stackSegment_ok block)
  · by_cases hd : i < as.numSegments
    · exact Or.inr (h.defined i hd)
    · rw [h.empty i (by omega) (by unfold asNumSeg at *; omega)]
      exact Or.inl rfl

/-! ## The page of an address -/

def AddrSpace.view (as : AddrSpace) (v : Nat) : Option (PdPtr × Bool) :=
  if v % pageSize = 0 ∧ asValidAddr as v = true then
    (asGetSegment as v).bind fun i => (as.segments i).pt.map fun pt =>
      ({ block := pt.block, idx := u32 (v + 2 ^ 32 - (as.segments i).vbase) / pageSize },
        (as.segments i).writeable != 0)
  else none

theorem mem_segment_pages {seg : Segment} {p : PdPtr} :
    p ∈ seg.pages ↔ ∃ pt, seg.pt = some pt ∧ p.block = pt.block ∧ p.idx < pt.size := by
  unfold Segment.pages
  cases hpt : seg.pt with
  | none => simp
  | some pt =>
    simp only [List.mem_map, List.mem_range, Option.some.injEq, exists_eq_left']
    constructor
    · rintro ⟨j, hj, rfl⟩
      exact ⟨rfl, hj⟩
    · rintro ⟨hb, hj⟩
      exact ⟨p.idx, hj, by rw [← hb]⟩

structure AddrSpace.Has (as : AddrSpace) (i : Nat) (p : PdPtr) : Prop where
  lt : i < asNumSeg
  active : (as.segments i).active ≠ 0
  table : ∃ pt, (as.segments i).pt = some pt ∧ p.block = pt.block ∧ p.idx < pt.size

theorem mem_pages {p : PdPtr} : p ∈ as.pages ↔ ∃ i, as.Has i p := by
  simp only [AddrSpace.pages, List.mem_flatMap, List.mem_range]
  refine exists_congr fun i => ?_
  by_cases ha : (as.segments i).active ≠ 0
  · rw [if_pos ha, mem_segment_pages]
    exact ⟨fun h => ⟨h.1, ha, h.2⟩, fun h => ⟨h.1, h.3⟩⟩
  · rw [if_neg ha]
    exact ⟨fun h => absurd h.2 List.not_mem_nil, fun h => absurd h.2 ha⟩

theorem asGetSegment_some {v i : Nat} (h : asGetSegment as v = some i) :
    i < asNumSeg ∧ (as.segments i).active = 1 ∧ (as.segments i).vbase ≤ v ∧
      v < u32 ((as.segments i).vbase + (as.segments i).size * pageSize) := by
  unfold asGetSegment at h
  have hm := List.mem_range.mp (List.mem_of_find?_eq_some h)
  have hp := List.find?_some h
  simp only [inSegment, Bool.and_eq_true, beq_iff_eq, decide_eq_true_eq] at hp
  exact ⟨hm, hp.1, hp.2.1, hp.2.2⟩

theorem page_index {seg : Segment} (h : SegOk seg) {v : Nat} (hlo : seg.vbase ≤ v)
    (hhi : v < u32 (seg.vbase + seg.size * pageSize)) :
    u32 (v + 2 ^ 32 - seg.vbase) / pageSize < seg.size ∧
      (v % pageSize = 0 → u32 (seg.vbase + pageSize * (u32 (v + 2 ^ 32 - seg.vbase) / pageSize)) = v) := by
  have hb := h.base
  have hlt : v < 2 ^ 32 := Nat.lt_trans hhi (u32_lt _)
  have he : u32 (v + 2 ^ 32 - seg.vbase) = v - seg.vbase := by
    rw [show v + 2 ^ 32 - seg.vbase = v - seg.vbase + 2 ^ 32 by omega]
    unfold u32
    rw [Nat.add_mod_right, Nat.mod_eq_of_lt (by omega)]
  have hle : u32 (seg.vbase + seg.size * pageSize) ≤ seg.vbase + seg.size * pageSize := Nat.mod_le _ _
  rw [he]
  unfold pageSize at *
  refine ⟨by omega, fun hv => ?_⟩
  rw [show seg.vbase + 4096 * ((v - seg.vbase) / 4096) = v by omega]
  exact u32_of_lt hlt

theorem page_of_segment (h : SpaceOk as) {v i : Nat} (hg : asGetSegment as v = some i) :
    ∃ block, (as.segments i).pt = some { size := (as.segments i).size, block := block } ∧
      u32 (v + 2 ^ 32 - (as.segments i).vbase) / pageSize < (as.segments i).size ∧
      ({ block := block, idx := u32 (v + 2 ^ 32 - (as.segments i).vbase) / pageSize } : PdPtr) ∈ as.pages := by
  obtain ⟨hi, ha, hlo, hhi⟩ := asGetSegment_some hg
  rcases h i hi with h0 | hok
  · rw [ha] at h0; cases h0
  · obtain ⟨block, hpt⟩ := hok.pt
    have hlt := (page_index hok hlo hhi).1
    refine ⟨block, hpt, hlt, mem_pages.mpr ⟨i, hi, ?_, _, hpt, rfl, hlt⟩⟩
    rw [ha]; decide

theorem asValidAddr_lt {v : Nat} (h : asValidAddr as v = true) : v < userTop := by
  simp only [asValidAddr, Bool.and_eq_true, decide_eq_true_eq] at h
  exact h.1

theorem view_eq_some {v : Nat} {p : PdPtr} {w : Bool} : as.view v = some (p, w) ↔
    v % pageSize = 0 ∧ asValidAddr as v = true ∧ ∃ i pt, asGetSegment as v = some i ∧ (as.segments i).pt = some pt ∧
      p = { block := pt.block, idx := u32 (v + 2 ^ 32 - (as.segments i).vbase) / pageSize } ∧
      w = ((as.segments i).writeable != 0) := by
  unfold AddrSpace.view
  split
  · rename_i hv
    simp only [Option.bind_eq_some_iff, Option.map_eq_some_iff, Prod.mk.injEq, hv, true_and]
    constructor
    · rintro ⟨i, hg, pt, hpt, rfl, rfl⟩
      exact ⟨i, pt, hg, hpt, rfl, rfl⟩
    · rintro ⟨i, pt, hg, hpt, rfl, rfl⟩
      exact ⟨i, hg, pt, hpt, rfl, rfl⟩
  · rename_i hv
    simp only [reduceCtorEq, false_iff]
    rintro ⟨h1, h2, -⟩
    exact hv ⟨h1, h2⟩

theorem view_has (h : SpaceOk as) {v : Nat} {p : PdPtr} {w : Bool} (hv : as.view v = some (p, w)) :
    ∃ i, asGetSegment as v = some i ∧ as.Has i p ∧ (ptEntry (as.segments i) p.idx).vaddr = v ∧
      w = ((as.segments i).writeable != 0) := by
  obtain ⟨hmod, -, i, pt, hg, hpt, rfl, rfl⟩ := view_eq_some.mp hv
  obtain ⟨hi, ha, hlo, hhi⟩ := asGetSegment_some hg
  have hok : SegOk (as.segments i) := (h i hi).resolve_left (by rw [ha]; decide)
  obtain ⟨block, hpt'⟩ := hok.pt
  obtain rfl := Option.some.inj (hpt.symm.trans hpt')
  obtain ⟨hlt, hva⟩ := page_index hok hlo hhi
  exact ⟨i, hg, ⟨hi, by rw [ha]; decide, _, hpt, rfl, hlt⟩, hva hmod, rfl⟩

/-! ## Where the two range checks disagree -/

def Segment.Holds (seg : Segment) (a : Nat) : Prop :=
  seg.active ≠ 0 ∧ seg.vbase ≤ a ∧ a < u32 (seg.vbase + seg.size * pageSize)

def Segment.Overhangs (seg : Segment) (a : Nat) : Prop :=
  seg.active ≠ 0 ∧ seg.vbase ≤ a ∧ u32 (seg.vbase + seg.size * pageSize) ≤ a ∧
    a < u32 (seg.vbase + 4 * (seg.size * pageSize))

def Segment.CutsOff (seg : Segment) (a : Nat) : Prop :=
  seg.Holds a ∧ u32 (seg.vbase + 4 * (seg.size * pageSize)) ≤ a

/-- A user address that some segment overhangs is in a page of another, and
one that some segment cuts off is let in by another. -/
def LayoutAgrees (as : AddrSpace) (a : Nat) : Prop :=
  userTop ≤ a ∨
    ((∀ i < asNumSeg, (as.segments i).Overhangs a → ∃ j < asNumSeg, (as.segments j).Holds a) ∧
      ∀ i < asNumSeg, (as.segments i).CutsOff a → ∃ j < asNumSeg,
        (as.segments j).Overhangs a ∨ ((as.segments j).Holds a ∧ ¬ (as.segments j).CutsOff a))

inductive Regions : AddrSpace → Prop
  | create (last : Segment) : Regions (asCreate last)
  | define {as as' : AddrSpace} {pds pds' : PdPtr → PageDetail} {r : Option Errno}
      {block vaddr sz flags offset filesz : Nat} : Regions as →
      asDefineRegion as pds block vaddr sz flags offset filesz = .ok (r, as', pds') → Regions as'

def Built (as : AddrSpace) : Prop :=
  ∃ as₀ pds block, Regions as₀ ∧ as = (asDefineStack as₀ pds block).2.1

theorem Regions.ok (h : Regions as) : RegionsOk as := by
  induction h with
  | create last => exact asCreate_ok last
  | define _ he ih => exact asDefineRegion_ok ih he

theorem Built.ok (h : Built as) : SpaceOk as := by
  obtain ⟨as₀, pds, block, hr, rfl⟩ := h
  exact hr.ok.withStack block

section
variable (h : SpaceOk as) {a : Nat}
include h

theorem asGetSegment_ne_none : asGetSegment as a ≠ none ↔ ∃ i < asNumSeg, (as.segments i).Holds a := by
  unfold asGetSegment
  rw [ne_eq, List.find?_eq_none]
  simp only [List.mem_range, Bool.and_eq_true, beq_iff_eq, inSegment, decide_eq_true_eq, not_forall, not_not,
    exists_prop]
  refine exists_congr fun i => and_congr_right fun hi => ?_
  rcases h i hi with h0 | hok
  · simp [Segment.Holds, h0]
  · simp [Segment.Holds, hok.active]

theorem asValidAddr_iff : asValidAddr as a = true ↔ a < userTop ∧ ∃ i < asNumSeg,
    (as.segments i).Overhangs a ∨ ((as.segments i).Holds a ∧ ¬ (as.segments i).CutsOff a) := by
  unfold asValidAddr
  simp only [Bool.and_eq_true, decide_eq_true_eq, List.any_eq_true, List.mem_range, bne_iff_ne, inCheckedRange]
  refine and_congr_right fun _ => exists_congr fun i => and_congr_right fun hi => ?_
  rcases h i hi with h0 | hok
  · simp [Segment.Holds, Segment.Overhangs, h0]
  · have hsz : u32 (pageSize * (as.segments i).size) = (as.segments i).size * pageSize := by
      have := hok.size
      rw [Nat.mul_comm, u32_of_lt]
      unfold pageSize; omega
    simp only [Segment.Holds, Segment.Overhangs, Segment.CutsOff, hok.active, hsz]
    constructor
    · rintro ⟨-, hlo, hhi⟩
      by_cases hc : a < u32 ((as.segments i).vbase + (as.segments i).size * pageSize)
      · exact Or.inr ⟨⟨by decide, hlo, hc⟩, fun hcut => by omega⟩
      · exact Or.inl ⟨by decide, hlo, by omega, hhi⟩
    · rintro (⟨-, hlo, -, hhi⟩ | ⟨⟨-, hlo, hhi⟩, hcut⟩)
      · exact ⟨by decide, hlo, hhi⟩
      · exact ⟨by decide, hlo, Nat.lt_of_not_le fun hle => hcut ⟨⟨by decide, hlo, hhi⟩, hle⟩⟩

theorem valid_iff_segment : (asValidAddr as a = true ↔ a < userTop ∧ asGetSegment as a ≠ none) ↔ LayoutAgrees as a := by
  rw [asValidAddr_iff h, asGetSegment_ne_none h]
  unfold LayoutAgrees
  by_cases ha : userTop ≤ a
  · simp [ha, Nat.not_lt.mpr ha]
  · have hlt : a < userTop := Nat.lt_of_not_le ha
    simp only [hlt, true_and, ha, false_or]
    constructor
    · intro hiff
      exact ⟨fun i hi hov => hiff.mp ⟨i, hi, Or.inl hov⟩, fun i hi hcut => hiff.mpr ⟨i, hi, hcut.1⟩⟩
    · rintro ⟨hov, hcut⟩
      constructor
      · rintro ⟨i, hi, ho | ho⟩
        · exact hov i hi ho
        · exact ⟨i, hi, ho.1⟩
      · rintro ⟨i, hi, hh⟩
        by_cases hc : (as.segments i).CutsOff a
        · exact hcut i hi hc
        · exact ⟨i, hi, Or.inr ⟨hh, hc⟩⟩

end

/-! ### From an address to its page -/

theorem lt_of_page {a e : Nat} (ha : a < 2 ^ 32) (he : e % pageSize = 0) : a &&& pageFrame < e ↔ a < e := by
  rw [and_pageFrame ha]
  unfold pageSize at *
  omega

theorem u32_aligned {n : Nat} (h : n % pageSize = 0) : u32 n % pageSize = 0 := by
  unfold u32 pageSize at *
  omega

theorem SegOk.bounds {seg : Segment} (h : SegOk seg) :
    u32 (seg.vbase + seg.size * pageSize) % pageSize = 0 ∧
    u32 (seg.vbase + 4 * (seg.size * pageSize)) % pageSize = 0 := by
  have := h.base
  constructor <;> apply u32_aligned <;> unfold pageSize at * <;> omega

theorem le_page {a e : Nat} (ha : a < 2 ^ 32) (he : e % pageSize = 0) : e ≤ a &&& pageFrame ↔ e ≤ a := by
  rw [← Nat.not_lt, lt_of_page ha he, Nat.not_lt]

section
variable (h : SpaceOk as) {a : Nat} (ha : a < 2 ^ 32)
include h ha

theorem holds_page {i : Nat} (hi : i < asNumSeg) :
    (as.segments i).Holds (a &&& pageFrame) ↔ (as.segments i).Holds a := by
  rcases h i hi with h0 | hok
  · simp [Segment.Holds, h0]
  · simp only [Segment.Holds, le_page ha hok.base, lt_of_page ha hok.bounds.1]

theorem overhangs_page {i : Nat} (hi : i < asNumSeg) :
    (as.segments i).Overhangs (a &&& pageFrame) ↔ (as.segments i).Overhangs a := by
  rcases h i hi with h0 | hok
  · simp [Segment.Overhangs, h0]
  · simp only [Segment.Overhangs, le_page ha hok.base, le_page ha hok.bounds.1, lt_of_page ha hok.bounds.2]

theorem cutsOff_page {i : Nat} (hi : i < asNumSeg) :
    (as.segments i).CutsOff (a &&& pageFrame) ↔ (as.segments i).CutsOff a := by
  rcases h i hi with h0 | hok
  · simp [Segment.CutsOff, Segment.Holds, h0]
  · simp only [Segment.CutsOff, holds_page h ha hi, le_page ha hok.bounds.2]

theorem asValidAddr_page : asValidAddr as (a &&& pageFrame) = true ↔ asValidAddr as a = true := by
  rw [asValidAddr_iff h, asValidAddr_iff h, lt_of_page ha (by decide)]
  refine and_congr_right fun _ => exists_congr fun i => and_congr_right fun hi => ?_
  rw [overhangs_page h ha hi, holds_page h ha hi, cutsOff_page h ha hi]

theorem layoutAgrees_page : LayoutAgrees as (a &&& pageFrame) ↔ LayoutAgrees as a := by
  have hex : (∃ j < asNumSeg, (as.segments j).Holds (a &&& pageFrame)) ↔ ∃ j < asNumSeg, (as.segments j).Holds a :=
    exists_congr fun j => and_congr_right (holds_page h ha)
  have hex' : (∃ j < asNumSeg, (as.segments j).Overhangs (a &&& pageFrame) ∨
        ((as.segments j).Holds (a &&& pageFrame) ∧ ¬ (as.segments j).CutsOff (a &&& pageFrame))) ↔
      ∃ j < asNumSeg, (as.segments j).Overhangs a ∨ ((as.segments j).Holds a ∧ ¬ (as.segments j).CutsOff a) :=
    exists_congr fun j => and_congr_right fun hj => by
      rw [overhangs_page h ha hj, holds_page h ha hj, cutsOff_page h ha hj]
  unfold LayoutAgrees
  rw [le_page ha (by decide), hex, hex']
  refine or_congr_right (and_congr ?_ ?_)
  · exact forall₂_congr fun i hi => by rw [overhangs_page h ha hi]
  · exact forall₂_congr fun i hi => by rw [cutsOff_page h ha hi]

end

theorem faultSegment_assert {ft : FaultType} {v : Nat} :
    faultSegment as ft v = .error (.assertionFailed .faultHasSegment) ↔
      (ft = .read ∨ ft = .write) ∧ asValidAddr as v = true ∧ asGetSegment as v = none := by
  cases ft with
  | readonly => simp [faultSegment]
  | other => simp [faultSegment]
  | read =>
    cases hv : asValidAddr as v <;> cases hg : asGetSegment as v <;> simp [faultSegment, asValidReadAddr, hv, hg]
  | write =>
    cases hv : asValidAddr as v <;> cases hg : asGetSegment as v <;> simp [faultSegment, asValidWriteAddr, hv, hg]

theorem faultSegment_error {ft : FaultType} {v : Nat} {why : Panic} (h : faultSegment as ft v = .error why) :
    why = .assertionFailed .faultHasSegment := by
  unfold faultSegment at h
  cases ft <;> cases hg : asGetSegment as v <;> simp only [hg] at h <;> (try split at h) <;> cases h <;> rfl

theorem faultSegment_ne_handled {ft : FaultType} {v : Nat} : faultSegment as ft v ≠ .ok (.inr .handled) := by
  unfold faultSegment
  cases ft <;> cases asGetSegment as v <;> simp only <;> (try split) <;> simp

theorem faultSegment_inl {ft : FaultType} {v i : Nat} (h : faultSegment as ft v = .ok (.inl i)) :
    asValidAddr as v = true ∧ asGetSegment as v = some i := by
  unfold faultSegment at h
  cases ft with
  | readonly => cases h
  | other => cases h
  | read =>
    cases hv : asValidAddr as v <;> cases hg : asGetSegment as v <;> simp [asValidReadAddr, hv, hg] at h
    exact ⟨rfl, by rw [h]⟩
  | write =>
    cases hv : asValidAddr as v <;> cases hg : asGetSegment as v <;> simp [asValidWriteAddr, hv, hg] at h
    exact ⟨rfl, by rw [h]⟩

/-! ## Validation against lookup -/

/-- The address check and the segment lookup agree on an address, and a
fault on it passes the assertion, exactly if the layout agrees there. The
index into the page table is in bounds for every address. -/
theorem address_validation_iff (hb : Built as) {a : Nat} (ha : a < 2 ^ 32) :
    (((asValidReadAddr as a = true ↔ a < userTop ∧ asGetSegment as a ≠ none) ∧
        ∀ ft, faultSegment as ft (a &&& pageFrame) ≠ .error (.assertionFailed .faultHasSegment)) ↔ LayoutAgrees as a) ∧
      ∀ i, asGetSegment as (a &&& pageFrame) = some i → ∃ pt, (as.segments i).pt = some pt ∧
        u32 ((a &&& pageFrame) + 2 ^ 32 - (as.segments i).vbase) / pageSize < pt.size := by
  have h := hb.ok
  refine ⟨⟨fun hl => (valid_iff_segment h).mp hl.1, fun hag => ⟨(valid_iff_segment h).mpr hag, fun ft he => ?_⟩⟩,
    fun i hi => ?_⟩
  · obtain ⟨-, hvalid, hnone⟩ := faultSegment_assert.mp he
    exact (((valid_iff_segment h).mpr ((layoutAgrees_page h ha).mpr hag)).mp hvalid).2 hnone
  · obtain ⟨block, hpt, hlt, -⟩ := page_of_segment h hi
    exact ⟨_, hpt, hlt⟩

def onePageSpace : AddrSpace :=
  ({ (asCreate emptySegment).setSegment 0 (regionSegment 0 0x400000 0x1000 5 0 0x1000) with numSegments := 1 } :
    AddrSpace).setSegment (asNumSeg - 1) (stackSegment 1)

theorem onePageSpace_built : Built onePageSpace := by
  let pds : PdPtr → PageDetail := fun _ => ptEntry emptySegment 0
  have he : asDefineRegion (asCreate emptySegment) pds 0 0x400000 0x1000 5 0 0x1000 = .ok (none,
      { (asCreate emptySegment).setSegment 0 (regionSegment 0 0x400000 0x1000 5 0 0x1000) with numSegments := 1 },
      (ptCreate pds (regionSegment 0 0x400000 0x1000 5 0 0x1000) 0).2) := rfl
  exact ⟨_, pds, 1, .define (.create emptySegment) he, rfl⟩

theorem overhang_stops_kernel : Built onePageSpace ∧ asValidReadAddr onePageSpace 0x401000 = true ∧
    asGetSegment onePageSpace 0x401000 = none ∧
    ∀ s, vmFault s (some onePageSpace) [] .read 0x401000 0 =
      .error { why := .assertionFailed .faultHasSegment, vm := s } :=
  ⟨onePageSpace_built, by decide, by decide, fun _ => rfl⟩

theorem address_validation_onePage :
    LayoutAgrees onePageSpace 0x400abc ∧ ¬ LayoutAgrees onePageSpace 0x401000 := by
  have h := (address_validation_iff onePageSpace_built (a := 0x400abc) (by decide)).1
  have h' := (address_validation_iff onePageSpace_built (a := 0x401000) (by decide)).1
  refine ⟨h.mp ⟨by decide, fun ft => ?_⟩, fun hag => ?_⟩
  · cases ft <;> decide
  · exact ((h'.mpr hag).1.mp (by decide)).2 (by decide)

end Os161
