import Os161.LoadelfSound
import Os161.PageInSound
import Os161.ReadFault

/-!
# What a failed page-in reports

Nothing: `swap_read` and `pt_page_in` drop the result of the read, and
`vm_fault` returns zero.
-/

namespace Os161

open Outcome

/-! ## When the read fails -/

def readSize (seg : Segment) (vaddr : Nat) : Nat :=
  if u32 (vaddr + pageSize) ≤ u32 (seg.vbase + seg.pFilesz) then pageSize
  else u32 (seg.vbase + seg.pFilesz + 2 ^ 32 - vaddr)

def FileHas (file : List UInt8) (offset : Int) (n : Nat) : Prop :=
  n = 0 ∨ (0 ≤ offset ∧ offset.toNat + n ≤ file.length)

def LoadFails (dev : Option ReadFault) (file : List UInt8) (vaddr : Nat) (seg : Segment) : Prop :=
  let delta := u32 (vaddr + 2 ^ 32 - seg.vbase)
  delta < seg.pFilesz ∧ (dev ≠ none ∨ ¬ FileHas file (toOff (u32 (delta + seg.pOffset))) (readSize seg vaddr))

/-- The contents of page `p` cannot be had: the device fails, or the file is too short for a page that is not in the
swap file. -/
def ObtainFails (dev : Option ReadFault) (s : Vm) (file : List UInt8) (vaddr : Nat) (seg : Segment) (p : PdPtr) :
    Prop :=
  if (s.pds p).sfn ≠ -1 then dev ≠ none else LoadFails dev file vaddr seg

theorem uiomove_no_room {ptr buf : Nat → UInt8} {n : Nat} {u : Uio} (hr : u.uioRw = .read) (hl : 0 < u.iovLen)
    (hn : u.iovLen < n) (hp : n ≤ u.uioResid) (hlt : u.uioResid < 2 ^ 32) :
    uiomove ptr buf n u = .error .uiomoveSizeReachedZero := by
  obtain ⟨m, rfl⟩ : ∃ m, n = m + 2 := ⟨n - 2, by omega⟩
  have hs : min u.iovLen (m + 2) = u.iovLen := by omega
  have hleft : 0 < u32 (u.uioResid + 2 ^ 32 - u.iovLen) := by
    rw [u32_sub (by omega) hlt]
    omega
  unfold uiomove uiomoveLoop
  rw [if_pos ⟨by omega, by omega⟩]
  simp only [hs, hr, if_neg (Nat.ne_of_gt hl)]
  -- the second round finds the vector empty
  unfold uiomoveLoop
  rw [if_pos ⟨by omega, hleft⟩]
  simp [Uio.advance]

theorem vopRead_resid {file : List UInt8} {buf buf' : Nat → UInt8} {u u' : Uio}
    (h : vopRead file buf u = .ok (buf', u'))
    (hrw : u.uioRw = .read) {n : Nat} (hl : u.iovLen = pageSize) (hres : u.uioResid = n) (hlt : n < 2 ^ 32) :
    u'.uioResid = 0 ↔ FileHas file u.uioOffset n := by
  subst hres
  have hpos : 0 < u.iovLen := by rw [hl]; decide
  unfold vopRead at h
  by_cases hoff : 0 ≤ u.uioOffset
  · rw [if_pos hoff] at h
    obtain ⟨⟨ptr', b, v⟩, hm, he⟩ := bind_eq_ok.mp h
    simp only [Except.ok.injEq, Prod.mk.injEq] at he
    obtain ⟨rfl, rfl⟩ := he
    generalize hn : min u.uioResid (file.length - u.uioOffset.toNat) = n at hm
    unfold FileHas
    by_cases h0 : n = 0
    · subst h0
      have hv : v = u := by
        simp only [uiomove, uiomoveLoop, Except.ok.injEq, Prod.mk.injEq] at hm
        exact hm.2.2.symm
      rw [hv]
      omega
    · have hroom : n ≤ u.iovLen := by
        by_contra hno
        rw [uiomove_no_room hrw hpos (by omega) (by omega) hlt] at hm
        cases hm
      rw [uiomove_read hrw (by omega) hroom (by omega)] at hm
      simp only [Except.ok.injEq, Prod.mk.injEq] at hm
      rw [← hm.2.2, show (u.advance n).uioResid = u32 (u.uioResid + 2 ^ 32 - n) from rfl, u32_sub (by omega) hlt]
      omega
  · rw [if_neg hoff] at h
    simp only [Except.ok.injEq, Prod.mk.injEq] at h
    rw [← h.2]
    exact ⟨Or.inl, fun hf => hf.resolve_right fun hc => hoff hc.1⟩

theorem readSize_lt (seg : Segment) (vaddr : Nat) : readSize seg vaddr < 2 ^ 32 := by
  unfold readSize
  split
  · decide
  · exact u32_lt _

theorem loadSegmentPageDev_error_iff {dev : Option ReadFault} {file : List UInt8} {vaddr resid : Nat} {seg : Segment}
    {frame data : Page} {x : Option Errno} (h : loadSegmentPageDev dev file vaddr seg frame resid = .ok (x, data)) :
    x ≠ none ↔ LoadFails dev file vaddr seg := by
  unfold LoadFails
  simp only
  by_cases hd : u32 (vaddr + 2 ^ 32 - seg.vbase) < seg.pFilesz
  · rw [and_iff_right hd]
    cases dev with
    | some fault =>
      simp only [loadSegmentPageDev, hd, if_true, Except.ok.injEq, Prod.mk.injEq] at h
      simp [← h.1]
    | none =>
      have hsize : (if u32 (vaddr + pageSize) ≤ u32 (seg.vbase + seg.pFilesz) then pageSize
        else u32 (seg.vbase + seg.pFilesz + 2 ^ 32 - vaddr)) = readSize seg vaddr := rfl
      simp only [loadSegmentPageDev, loadSegmentPage, hd, if_true, hsize] at h
      obtain ⟨⟨b, u⟩, hread, hrest⟩ := bind_eq_ok.mp h
      have hres := vopRead_resid hread (by simp only) (by simp only) (by simp only) (readSize_lt seg vaddr)
      simp only [ne_eq, not_true_eq_false, false_or, ← hres]
      simp only at hrest
      by_cases h0 : u.uioResid = 0
      · -- filling the rest of the page does not fail
        simp only [h0, ne_eq, not_true_eq_false, if_false] at hrest
        simp only [h0, not_true_eq_false, iff_false, not_not]
        split at hrest
        · obtain ⟨⟨filled, w⟩, -, he⟩ := bind_eq_ok.mp hrest
          simp only [Except.ok.injEq, Prod.mk.injEq] at he
          exact he.1.symm
        · simp only [Except.ok.injEq, Prod.mk.injEq] at hrest
          exact hrest.1.symm
      · rw [if_pos h0] at hrest
        simp only [Except.ok.injEq, Prod.mk.injEq] at hrest
        simp [h0, ← hrest.1]
  · simp only [hd, false_and, iff_false, not_not]
    have hpast := load_past (Nat.not_lt.mp hd) file frame resid
    cases dev with
    | some fault =>
      simp only [loadSegmentPageDev, hd, if_false, hpast, Except.ok.injEq, Prod.mk.injEq] at h
      exact h.1.symm
    | none =>
      simp only [loadSegmentPageDev, hpast, Except.ok.injEq, Prod.mk.injEq] at h
      exact h.1.symm

/-! ## A fault on a page that is not resident -/

def ReadReturns (dev : Option ReadFault) (s : Vm) (file : List UInt8) (vaddr : Nat) (seg : Segment)
    (resid : Nat) (p : PdPtr) (e : Errno) : Prop :=
  if (s.pds p).sfn ≠ -1 then ∃ fault, dev = some fault ∧ fault.errno = e
  else ∃ f s₁ data, cmGetppage (s.modifyPd p fun d => { d with use := true }) = .ok (f, s₁) ∧
    loadSegmentPageDev dev file vaddr seg (s₁.mem f) resid = .ok (some e, data)

/-- A failed page-in as it should be reported: the fault can be taken again. -/
structure FailureReported (s : Vm) (vaddr : Nat) (p : PdPtr) (r : FaultResult) (s' : Vm) : Prop where
  error : ∃ e, r = .failed e
  unmapped : ∀ k < numTlb, (s'.tlb.entries k).valid = true → (s'.tlb.entries k).vpage = vaddr →
    s'.tlb.entries k = s.tlb.entries k
  notValid : (s'.pds p).valid = false
  freed : ∀ f s₁, cmGetppage (s.modifyPd p fun d => { d with use := true }) = .ok (f, s₁) →
    (s'.cm.coreDetails f).free = true
  slot : (s.pds p).sfn ≠ -1 → (s'.pds p).sfn = (s.pds p).sfn

structure LooksLoaded (s : Vm) (vaddr : Nat) (p : PdPtr) (s' : Vm) : Prop where
  valid : (s'.pds p).valid = true
  mapped : ∃ f : Nat, (s'.pds p).pfn = f ∧ Maps s' vaddr f ∧ (s'.cm.coreDetails f).free = false
  slot : (s.pds p).sfn ≠ -1 → (s'.pds p).sfn = -1

section
variable {dev : Option ReadFault} {s s' : Vm} {file : List UInt8} {seg : Segment} {vaddr resid : Nat} {p : PdPtr}

theorem pageInMap_ok (h : pageInMap s p vaddr seg = .ok s') :
    (s'.pds p).valid = true ∧ (s'.pds p).sfn = (s.pds p).sfn ∧
      ∃ f : Nat, (s'.pds p).pfn = f ∧ Maps s' vaddr f ∧ (s'.cm.coreDetails f).free = false := by
  obtain ⟨f, -, h⟩ := bind_eq_ok.mp h
  obtain ⟨tlb, ht, h⟩ := bind_eq_ok.mp h
  cases ht' : tlbAddEntry s.tlb vaddr (f * pageSize) (seg.writeable != 0) with
  | error why =>
    rw [ht'] at ht
    cases ht
  | ok t =>
    rw [ht', raise_ok, Except.ok.injEq] at ht
    subst ht
    simp only [Except.ok.injEq] at h
    obtain ⟨k, hk, he⟩ := tlbAddEntry_entries ht'
    refine ⟨?_, ?_, f, ?_, ⟨k, hk, ?_⟩, ?_⟩
    all_goals simp [← h, cmFinishPaging, he]

theorem pageInFrame_ok (h : pageInFrame s p = .ok s') :
    ∃ f s₁, cmGetppage (s.modifyPd p fun d => { d with use := true }) = .ok (f, s₁) ∧
      s' = s₁.modifyPd p fun d => { d with pfn := f } := by
  obtain ⟨⟨f, s₁⟩, hget, he⟩ := bind_eq_ok.mp h
  simp only [Except.ok.injEq] at he
  exact ⟨f, s₁, hget, he.symm⟩

theorem pageInLoadDev_ok {f : Nat} (hf : (s.pds p).pfn = f) (h : pageInLoadDev dev s p file vaddr seg resid = .ok s') :
    ∃ x data, loadSegmentPageDev dev file vaddr seg (s.mem f) resid = .ok (x, data) := by
  unfold pageInLoadDev at h
  rw [pdFrame_eq hf, ok_bind] at h
  obtain ⟨x, hl, -⟩ := bind_eq_ok.mp h
  cases hl' : loadSegmentPageDev dev file vaddr seg (s.mem f) resid with
  | error why =>
    rw [hl'] at hl
    cases hl
  | ok r => exact ⟨r.1, r.2, rfl⟩

theorem ptPageInDev_away {pt : PageTable} (hpt : seg.pt = some pt)
    (hp : p = ⟨pt.block, u32 (vaddr + 2 ^ 32 - seg.vbase) / pageSize⟩)
    (haway : ¬ ((s.pds p).valid = true ∧ (s.pds p).pfn ≠ -1)) (h : ptPageInDev dev s file vaddr seg resid = .ok s') :
    ((∃ e, ReadReturns dev s file vaddr seg resid p e) ↔ ObtainFails dev s file vaddr seg p) ∧
      LooksLoaded s vaddr p s' := by
  unfold ptPageInDev at h
  simp only [hpt, ← hp, haway, if_false] at h
  split at h
  rotate_left
  · cases h
  unfold ReadReturns ObtainFails
  by_cases hs : (s.pds p).sfn ≠ -1
  · rw [if_pos hs] at h
    obtain ⟨s₁, -, h⟩ := bind_eq_ok.mp h
    obtain ⟨s₂, -, h⟩ := bind_eq_ok.mp h
    obtain ⟨s₃, hrel, h⟩ := bind_eq_ok.mp h
    obtain ⟨swap, -, hrel⟩ := bind_eq_ok.mp hrel
    simp only [Except.ok.injEq] at hrel
    obtain ⟨hval, hsfn, hmap⟩ := pageInMap_ok h
    refine ⟨?_, hval, hmap, fun _ => ?_⟩
    · simp only [hs, ne_eq, not_false_eq_true, if_true]
      cases dev <;> simp
    · rw [hsfn, ← hrel, Vm.modifyPd_self]
  · rw [if_neg hs] at h
    obtain ⟨s₁, hfr, h⟩ := bind_eq_ok.mp h
    obtain ⟨f, s₀, hget, rfl⟩ := pageInFrame_ok hfr
    obtain ⟨s₂, hld, hmp⟩ := bind_eq_ok.mp h
    obtain ⟨x, data, hl⟩ := pageInLoadDev_ok (f := f) (by simp) hld
    obtain ⟨hval, -, hmap⟩ := pageInMap_ok hmp
    refine ⟨?_, hval, hmap, fun hne => absurd hne hs⟩
    simp only [if_neg hs, ← loadSegmentPageDev_error_iff hl]
    constructor
    · rintro ⟨e, f', s', data', hget', hl'⟩
      cases hget.symm.trans hget'
      cases hl.symm.trans hl'
      simp
    · intro hx
      obtain ⟨e, rfl⟩ := Option.ne_none_iff_exists'.mp hx
      exact ⟨e, f, s₀, data, hget, hl⟩

/-- Whatever the read for a page that is not resident returned, `vm_fault`
returns zero, and the page is mapped, valid and without its slot. So a failure
is reported exactly if there is none: the device does not fail, and the file has
the bytes that a page from the executable needs. -/
theorem failed_page_in_reported_iff {as : AddrSpace} {faulttype : FaultType} {a i : Nat} {pt : PageTable}
    {r : FaultResult} (hseg : faultSegment as faulttype (a &&& pageFrame) = .ok (.inl i))
    (hpt : (as.segments i).pt = some pt)
    (hp : p = ⟨pt.block, u32 ((a &&& pageFrame) + 2 ^ 32 - (as.segments i).vbase) / pageSize⟩)
    (haway : ¬ ((s.pds p).valid = true ∧ (s.pds p).pfn ≠ -1))
    (hrun : vmFaultDev dev s (some as) file faulttype a resid = .ok (r, s')) :
    (((∃ e, ReadReturns dev s file (a &&& pageFrame) (as.segments i) resid p e) →
        FailureReported s (a &&& pageFrame) p r s') ↔ ¬ ObtainFails dev s file (a &&& pageFrame) (as.segments i) p) ∧
      r = .handled ∧ LooksLoaded s (a &&& pageFrame) p s' := by
  unfold vmFaultDev at hrun
  simp only [hseg, raise_ok, ok_bind] at hrun
  obtain ⟨s₁, hin, he⟩ := bind_eq_ok.mp hrun
  simp only [Except.ok.injEq, Prod.mk.injEq] at he
  obtain ⟨rfl, rfl⟩ := he
  obtain ⟨hiff, hloaded⟩ := ptPageInDev_away hpt hp haway hin
  refine ⟨?_, rfl, hloaded⟩
  rw [hiff]
  constructor
  · intro hrep hfails
    obtain ⟨e, he⟩ := (hrep hfails).error
    cases he
  · intro hok hfails
    exact absurd hfails hok

end

def oneFreeFrame (sfn : Int) : Vm where
  cm := cmBootstrap 2 1 fun i => { id := i, kern := 1, pd := none, nextFree := none, prevFree := none, free := false }
  pds p := { vaddr := p.idx * pageSize, pfn := -1, sfn := sfn, valid := false, dirty := false, use := false }
  mem _ _ := 0
  swap := { index := id, next := fun _ => none, freePages := none, data := fun _ _ => 0 }
  tlb := tlbBootstrap (fun _ => 0) fun _ => none

theorem page_in_from_slot : ∃ s', vmFaultDev none (oneFreeFrame 0) (some onePageSpace) [] .read 0x400000 0 =
    .ok (.handled, s') ∧ LooksLoaded (oneFreeFrame 0) 0x400000 ⟨0, 0⟩ s' ∧
      ¬ ObtainFails none (oneFreeFrame 0) [] 0x400000 (onePageSpace.segments 0) ⟨0, 0⟩ := by
  have hok : ¬ ObtainFails none (oneFreeFrame 0) [] 0x400000 (onePageSpace.segments 0) ⟨0, 0⟩ := by
    simp [ObtainFails, oneFreeFrame]
  have hseg : faultSegment onePageSpace .read (0x400000 &&& pageFrame) = .ok (.inl 0) := rfl
  have h := failed_page_in_reported_iff (p := ⟨0, 0⟩) hseg rfl rfl (by decide)
    (rfl : vmFaultDev none (oneFreeFrame 0) (some onePageSpace) [] .read 0x400000 0 = _)
  exact ⟨_, rfl, h.2.2, hok⟩

theorem failed_page_in_handled :
    (∃ s', vmFaultDev none (oneFreeFrame (-1)) (some onePageSpace) [] .read 0x400000 0 = .ok (.handled, s') ∧
      ReadReturns none (oneFreeFrame (-1)) [] 0x400000 (onePageSpace.segments 0) 0 ⟨0, 0⟩ .enoexec ∧
      (s'.pds ⟨0, 0⟩).valid = true) ∧
    ∃ s', vmFaultDev (some ⟨.eio, fun _ => 7⟩) (oneFreeFrame 0) (some onePageSpace) [] .read 0x400000 0 =
        .ok (.handled, s') ∧
      ReadReturns (some ⟨.eio, fun _ => 7⟩) (oneFreeFrame 0) [] 0x400000 (onePageSpace.segments 0) 0 ⟨0, 0⟩ .eio ∧
      (s'.pds ⟨0, 0⟩).valid = true ∧ (s'.pds ⟨0, 0⟩).sfn = -1 := by
  constructor
  · refine ⟨_, rfl, ?_, ?_⟩
    · exact ⟨_, _, _, rfl, rfl⟩
    · rfl
  · refine ⟨_, rfl, ?_, ?_, ?_⟩
    · exact ⟨_, rfl, rfl⟩
    · rfl
    · rfl

end Os161
