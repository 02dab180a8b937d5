import Os161.ElfSound
import Os161.Vmsys

/-!
# Spaces that are destroyed half built

`as_create` leaves the last segment as the heap block was, and
`as_free_segments` goes through all segments. What it gives back is a list of
calls; for a space under construction these should be the calls for the
segments that have been defined.
-/

namespace Os161

open Outcome

inductive Release
  | frame (pfn : Int)
  | slot (sfn : Int)
  | table (pt : PageTable)
  deriving DecidableEq, Repr

def PageDetail.releases (d : PageDetail) : List Release :=
  (if d.pfn ≠ -1 then [.frame d.pfn] else []) ++ if d.sfn ≠ -1 then [.slot d.sfn] else []

def Segment.releases (pds : PdPtr → PageDetail) (seg : Segment) : List Release :=
  if seg.active ≠ 0 then
    match seg.pt with
    | none => []
    | some pt => ((List.range pt.size).flatMap fun j => (pds { block := pt.block, idx := j }).releases) ++ [.table pt]
  else []

def AddrSpace.releases (pds : PdPtr → PageDetail) (as : AddrSpace) : List Release :=
  (List.range asNumSeg).flatMap fun i => (as.segments i).releases pds

def release (s : Vm) : Release → Except Crash Vm
  | .frame pfn => do
    let c ← raise s (cmReleaseFrame s.cm pfn.toNat)
    .ok { s with cm := c }
  | .slot sfn => do
    let swap ← raise s (swapFreePage s.swap sfn)
    .ok { s with swap := swap }
  | .table _ => .ok s

/-! ## The calls are what `as_free_segments` does -/

variable {s s' : Vm} {as : AddrSpace} {pds : PdPtr → PageDetail} {last : Segment}

theorem release_pds {r : Release} (h : release s r = .ok s') : s'.pds = s.pds := by
  cases r with
  | frame pfn =>
    obtain ⟨c, -, h⟩ := bind_eq_ok.mp h
    rw [← Except.ok.inj h]
  | slot sfn =>
    obtain ⟨w, -, h⟩ := bind_eq_ok.mp h
    rw [← Except.ok.inj h]
  | table pt => rw [← Except.ok.inj h]

theorem foldlM_release_pds {l : List Release} (h : l.foldlM release s = .ok s') : s'.pds = s.pds := by
  induction l generalizing s with
  | nil => rw [← Except.ok.inj h]
  | cons r l ih =>
    rw [List.foldlM_cons] at h
    obtain ⟨s₁, h₁, h⟩ := bind_eq_ok.mp h
    rw [ih h, release_pds h₁]

theorem slot_eq (s : Vm) (p : PdPtr) :
    (if (s.pds p).sfn ≠ -1 then do
      let swap ← raise s (swapFreePage s.swap (s.pds p).sfn)
      .ok { s with swap := swap }
    else (.ok s : Except Crash Vm)) =
      (if (s.pds p).sfn ≠ -1 then [Release.slot (s.pds p).sfn] else []).foldlM release s := by
  by_cases hs : (s.pds p).sfn ≠ -1
  · rw [if_pos hs, if_pos hs, List.foldlM_cons]
    exact (bind_pure (release s (.slot (s.pds p).sfn))).symm
  · rw [if_neg hs, if_neg hs]
    rfl

theorem freePage_eq (s : Vm) (p : PdPtr) : freePage s p = (s.pds p).releases.foldlM release s := by
  unfold freePage PageDetail.releases
  rw [List.foldlM_append]
  by_cases hf : (s.pds p).pfn ≠ -1
  · rw [if_pos hf, if_pos hf, List.foldlM_cons]
    cases hr : raise s (cmReleaseFrame s.cm (s.pds p).pfn.toNat) with
    | error c =>
      have hrel : release s (.frame (s.pds p).pfn) = .error c := by rw [release, hr]; rfl
      rw [hrel]
      rfl
    | ok c =>
      have hrel : release s (.frame (s.pds p).pfn) = .ok { s with cm := c } := by rw [release, hr]; rfl
      rw [hrel]
      exact slot_eq { s with cm := c } p
  · rw [if_neg hf, if_neg hf]
    exact slot_eq s p

theorem freePages_eq (l : List PdPtr) (s : Vm) :
    freePages l s = (l.flatMap fun p => (s.pds p).releases).foldlM release s := by
  induction l generalizing s with
  | nil => rfl
  | cons p l ih =>
    rw [freePages, List.flatMap_cons, List.foldlM_append, freePage_eq]
    cases hr : (s.pds p).releases.foldlM release s with
    | error c => rfl
    | ok s₁ =>
      rw [ok_bind, ok_bind, ih, foldlM_release_pds hr]

theorem freePages_append (l l' : List PdPtr) (s : Vm) : freePages (l ++ l') s = freePages l s >>= freePages l' := by
  induction l generalizing s with
  | nil => rfl
  | cons p l ih =>
    rw [List.cons_append, freePages, freePages]
    cases freePage s p with
    | error c => rfl
    | ok s₁ => exact ih s₁

theorem segment_releases_eq (seg : Segment) (s : Vm) :
    (seg.releases s.pds).foldlM release s = freePages (if seg.active ≠ 0 then seg.pages else []) s := by
  unfold Segment.releases Segment.pages
  by_cases ha : seg.active ≠ 0
  · rw [if_pos ha, if_pos ha]
    cases seg.pt with
    | none => rfl
    | some pt =>
      dsimp only
      rw [List.foldlM_append, freePages_eq, List.flatMap_map]
      exact bind_pure _
  · rw [if_neg ha, if_neg ha]
    rfl

theorem releases_eq (l : List Nat) (as : AddrSpace) (s : Vm) :
    (l.flatMap fun i => (as.segments i).releases s.pds).foldlM release s =
      freePages (l.flatMap fun i => if (as.segments i).active ≠ 0 then (as.segments i).pages else []) s := by
  induction l generalizing s with
  | nil => rfl
  | cons i l ih =>
    rw [List.flatMap_cons, List.flatMap_cons, List.foldlM_append, freePages_append, ← segment_releases_eq]
    cases hr : ((as.segments i).releases s.pds).foldlM release s with
    | error c => rfl
    | ok s₁ =>
      rw [ok_bind, ok_bind, ← ih, foldlM_release_pds hr]

theorem asFreeSegments_eq (s : Vm) (as : AddrSpace) : asFreeSegments s as = (as.releases s.pds).foldlM release s :=
  (releases_eq (List.range asNumSeg) as s).symm

/-! ## Spaces under construction -/

inductive Construction (last : Segment) : AddrSpace → (stack : Bool) → Prop
  | create : Construction last (asCreate last) false
  | load {pds pds' : PdPtr → PageDetail} {file : Except Errno (Nat × ExecFile)} {blocks : List Nat}
    {r : Except Errno Nat}
      {as : AddrSpace} : loadElf (asCreate last) pds file blocks = .ok (r, as, pds') → Construction last as false
  | stack {pds pds' : PdPtr → PageDetail} {file : Except Errno (Nat × ExecFile)} {blocks : List Nat} {entry block : Nat}
      {as : AddrSpace} : loadElf (asCreate last) pds file blocks = .ok (.ok entry, as, pds') →
      Construction last (asDefineStack as pds' block).2.1 true

def AddrSpace.definedReleases (pds : PdPtr → PageDetail) (as : AddrSpace) (stack : Bool) : List Release :=
  ((List.range as.numSegments).flatMap fun i => (as.segments i).releases pds) ++
    if stack then (as.segments (asNumSeg - 1)).releases pds else []

structure AddrSpace.Empty (as : AddrSpace) : Prop where
  inactive : ∀ i < asNumSeg, (as.segments i).active = 0
  lookup : ∀ a, asGetSegment as a = none
  valid : ∀ a, asValidReadAddr as a = false

theorem asCreate_empty_iff (last : Segment) : (asCreate last).Empty ↔ last.active = 0 := by
  constructor
  · intro h
    exact h.inactive (asNumSeg - 1) (by decide)
  · intro h
    have hact : ∀ i < asNumSeg, ((asCreate last).segments i).active = 0 := by
      intro i hi
      unfold asCreate
      dsimp only
      split
      · rfl
      · exact h
    refine ⟨hact, fun a => ?_, fun a => ?_⟩
    · unfold asGetSegment
      rw [List.find?_eq_none]
      intro i hi
      simp [hact i (List.mem_range.mp hi)]
    · unfold asValidReadAddr asValidAddr
      rw [Bool.and_eq_false_iff]
      right
      rw [List.any_eq_false]
      intro i hi
      simp [hact i (List.mem_range.mp hi)]

theorem RegionsOk.releases (h : RegionsOk as) (pds : PdPtr → PageDetail) :
    as.releases pds = ((List.range as.numSegments).flatMap fun i => (as.segments i).releases pds) ++
      (as.segments (asNumSeg - 1)).releases pds := by
  have hcount := h.count
  obtain ⟨k, hk⟩ := Nat.exists_eq_add_of_le hcount
  have hrest : ((List.range k).map (as.numSegments + ·)).flatMap (fun i => (as.segments i).releases pds) = [] := by
    rw [List.flatMap_eq_nil_iff]
    intro i hi
    obtain ⟨j, hj, rfl⟩ := List.mem_map.mp hi
    have hlt := List.mem_range.mp hj
    rw [h.empty _ (Nat.le_add_right ..) (by omega)]
    rfl
  unfold AddrSpace.releases
  rw [show asNumSeg = (asNumSeg - 1) + 1 from rfl, List.range_succ, hk, List.range_add, List.flatMap_append,
    List.flatMap_append, hrest, List.append_nil, List.flatMap_singleton, ← hk]
  rfl

theorem RegionsOk.withStack_releases (h : RegionsOk as) (block : Nat) (pds : PdPtr → PageDetail) :
    (as.setSegment (asNumSeg - 1) (stackSegment block)).releases pds =
      (as.setSegment (asNumSeg - 1) (stackSegment block)).definedReleases pds true := by
  have hok : RegionsOk (as.setSegment (asNumSeg - 1) (stackSegment block)) := by
    have hne : ∀ i < asNumSeg - 1, (as.setSegment (asNumSeg - 1) (stackSegment block)).segments i = as.segments i :=
      fun i hi => Function.update_of_ne (Nat.ne_of_lt hi) _ _
    refine ⟨h.count, fun i hi => ?_, fun i hi hlt => ?_⟩
    · rw [hne i (Nat.lt_of_lt_of_le hi h.count)]
      exact h.defined i hi
    · rw [hne i hlt]
      exact h.empty i hi hlt
  exact hok.releases pds

structure Unfinished (last : Segment) (as : AddrSpace) : Prop where
  ok : RegionsOk as
  stale : as.segments (asNumSeg - 1) = last

theorem loadElf_unfinished {pds pds' : PdPtr → PageDetail} {file : Except Errno (Nat × ExecFile)} {blocks : List Nat}
    {r : Except Errno Nat} (h : loadElf (asCreate last) pds file blocks = .ok (r, as, pds')) : Unfinished last as := by
  obtain ⟨r₁, as₁, pds₁, he, l, hl, -⟩ := loadElf_loads (asCreate_ok last) pds file blocks
  rw [he] at h
  obtain ⟨-, rfl, -⟩ := by simpa only [Except.ok.injEq, Prod.mk.injEq] using h
  exact ⟨hl.ok, hl.old (asNumSeg - 1) (Or.inr hl.ok.count)⟩

theorem Segment.releases_eq_nil (seg : Segment) (pds : PdPtr → PageDetail) :
    seg.releases pds = [] ↔ seg.active = 0 ∨ seg.pt = none := by
  unfold Segment.releases
  by_cases ha : seg.active = 0
  · simp [ha]
  · cases hp : seg.pt with
    | none => simp
    | some pt => simp [ha]

theorem Unfinished.releases_iff (h : Unfinished last as) (pds : PdPtr → PageDetail) :
    as.releases pds = as.definedReleases pds false ↔ last.active = 0 ∨ last.pt = none := by
  rw [← last.releases_eq_nil pds, h.ok.releases, h.stale, AddrSpace.definedReleases, if_neg Bool.false_ne_true,
    List.append_nil, List.append_right_eq_self]

theorem Construction.releases_iff {stack : Bool} (h : Construction last as stack) (pds : PdPtr → PageDetail) :
    as.releases pds = as.definedReleases pds stack ↔ stack = true ∨ last.active = 0 ∨ last.pt = none := by
  cases h with
  | create => simpa using (⟨asCreate_ok last, rfl⟩ : Unfinished last (asCreate last)).releases_iff pds
  | load h => simpa using (loadElf_unfinished h).releases_iff pds
  | stack h =>
    simp only [true_or, iff_true]
    exact (loadElf_unfinished h).ok.withStack_releases _ pds

/-! ## Empty at first, and destroyed at any stage -/

/-- A new space is empty exactly if the word of the heap block that becomes
`active` of the last segment is zero. At every stage of the construction
`as_destroy` makes the calls for the defined segments and no other exactly if
that word is zero, or the one for `pt`, or `as_define_stack` has overwritten
them. -/
theorem half_built_space_iff (last : Segment) :
    ((asCreate last).Empty ↔ last.active = 0) ∧
      ∀ as stack, Construction last as stack →
        (∀ s, asFreeSegments s as = (as.releases s.pds).foldlM release s) ∧
          ∀ pds, as.releases pds = as.definedReleases pds stack ↔
            stack = true ∨ last.active = 0 ∨ last.pt = none :=
  ⟨asCreate_empty_iff last, fun as _ h => ⟨fun s => asFreeSegments_eq s as, h.releases_iff⟩⟩

def failedSpace (last : Segment) (f : ExecFile) : Option AddrSpace :=
  match loadElf (asCreate last) (fun _ => ptEntry emptySegment 0) (.ok (0, f)) [1, 2, 3] with
  | .ok (.error _, as, _) => some as
  | _ => none

theorem failedSpace_construction {f : ExecFile} (h : failedSpace last f = some as) : Construction last as false := by
  unfold failedSpace at h
  split at h
  · rename_i he
    rw [← Option.some.inj h]
    exact .load he
  · cases h

theorem half_built_space_small :
    (∃ as, Construction emptySegment as true ∧ as.numSegments = 1 ∧
      ∀ pds, as.releases pds = as.definedReleases pds true) ∧
    ∃ as, Construction { emptySegment with active := 1 } as false ∧ as.numSegments = 2 ∧
      ∀ pds, as.releases pds = as.definedReleases pds false := by
  constructor
  · have hnum : (loadedSpace (smallElf [(0x400000, 0x1000)])).map (·.numSegments) = some 1 := by decide +kernel
    obtain ⟨as, has, hone⟩ := Option.map_eq_some_iff.mp hnum
    obtain ⟨entry, as₀, pds, he, rfl⟩ := loadedSpace_eq_some has
    have hc : Construction emptySegment (asDefineStack as₀ pds 3).2.1 true := .stack he
    exact ⟨_, hc, hone, fun pds => (((half_built_space_iff emptySegment).2 _ _ hc).2 pds).mpr (Or.inl rfl)⟩
  · -- the third region is one too many
    have hnum : (failedSpace { emptySegment with active := 1 }
        (smallElf [(0x400000, 0x1000), (0x500000, 0x1000), (0x600000, 0x1000)])).map (·.numSegments) = some 2 := by
      decide +kernel
    obtain ⟨as, has, htwo⟩ := Option.map_eq_some_iff.mp hnum
    have hc := failedSpace_construction has
    exact ⟨as, hc, htwo, fun pds => (((half_built_space_iff _).2 _ _ hc).2 pds).mpr (Or.inr (Or.inr rfl))⟩

def staleSegment : Segment :=
  { emptySegment with active := 1, vbase := 0x400000, size := 1, pt := some { size := 1, block := 7 } }

theorem stale_segment_released :
    asGetSegment (asCreate staleSegment) 0x400000 = some 2 ∧ asValidReadAddr (asCreate staleSegment) 0x400000 = true ∧
      (∀ pds, loadElf (asCreate staleSegment) pds (.error .enoent) [] =
        .ok (.error .enoent, asCreate staleSegment, pds)) ∧
      ∀ s, (s.pds ⟨7, 0⟩).pfn = 5 → (s.pds ⟨7, 0⟩).sfn = -1 → s.cm.lowestFrame ≤ 5 →
        (asCreate staleSegment).definedReleases s.pds false = [] ∧
          asFreeSegments s (asCreate staleSegment) = .ok { s with cm := freeFrameListAdd s.cm 5 } := by
  refine ⟨by decide, by decide, fun _ => rfl, fun s hpfn hsfn hlow => ⟨rfl, ?_⟩⟩
  have hrel : (asCreate staleSegment).releases s.pds = [.frame 5, .table { size := 1, block := 7 }] := by
    have hpage : (s.pds ⟨7, 0⟩).releases = [.frame 5] := by
      rw [PageDetail.releases, hpfn, hsfn]
      rfl
    show ((s.pds ⟨7, 0⟩).releases ++ []) ++ [.table { size := 1, block := 7 }] ++ [] = _
    rw [hpage]
    rfl
  have hcm : cmReleaseFrame s.cm 5 = .ok (freeFrameListAdd s.cm 5) := if_pos hlow
  rw [asFreeSegments_eq, hrel, List.foldlM_cons, release]
  show (raise s (cmReleaseFrame s.cm 5) >>= _) >>= _ = _
  rw [hcm]
  rfl

end Os161
