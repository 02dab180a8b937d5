import Os161.CoherenceSound
import Os161.ReadFaultSound

/-!
# Write permission

`as_valid_write_addr` never looks at the `writeable` flag, so it and the
write fault let a program at read-only segments. Only the dirty bit of the
translations follows the flag.
-/

namespace Os161

open Outcome

variable {m : Boot} {s : Sys} {as : AddrSpace} {a : Nat}

/-! ## The check -/

def InWriteable (as : AddrSpace) (a : Nat) : Prop :=
  ∃ j < asNumSeg, (as.segments j).Holds a ∧ (as.segments j).writeable ≠ 0

instance : Decidable (InWriteable as a) :=
  inferInstanceAs (Decidable (∃ j < asNumSeg, ((as.segments j).active ≠ 0 ∧ (as.segments j).vbase ≤ a ∧
    a < u32 ((as.segments j).vbase + (as.segments j).size * pageSize)) ∧ (as.segments j).writeable ≠ 0))

/-- The segment lets the address in without a right to write there: past its pages, or in one of them while it is
read-only. -/
def Segment.LetsIn (seg : Segment) (a : Nat) : Prop :=
  seg.Overhangs a ∨ (seg.Holds a ∧ ¬ seg.CutsOff a ∧ seg.writeable = 0)

/-- A user address that some segment lets in without that right is in a writeable segment as well. -/
def WriteGuarded (as : AddrSpace) (a : Nat) : Prop :=
  userTop ≤ a ∨ ∀ i < asNumSeg, (as.segments i).LetsIn a → InWriteable as a

theorem writeGuarded_iff (h : SpaceOk as) :
    (asValidWriteAddr as a = true → InWriteable as a) ↔ WriteGuarded as a := by
  rw [asValidWriteAddr, asValidAddr_iff h]
  unfold WriteGuarded
  constructor
  · intro himp
    by_cases ha : userTop ≤ a
    · exact Or.inl ha
    · refine Or.inr fun i hi hin => himp ⟨Nat.lt_of_not_le ha, i, hi, ?_⟩
      exact hin.imp_right fun hh => ⟨hh.1, hh.2.1⟩
  · intro hg hvalid
    obtain ⟨hlt, i, hi, hin⟩ := hvalid
    have hall := hg.resolve_left (Nat.not_le.mpr hlt)
    by_cases hw : (as.segments i).writeable = 0
    · exact hall i hi (hin.imp_right fun hh => ⟨hh.1, hh.2, hw⟩)
    · rcases hin with hov | hh
      · exact hall i hi (Or.inl hov)
      · exact ⟨i, hi, hh.1, hw⟩

theorem writeFault_handled {v v' : Vm} {file : List UInt8} {resid : Nat} {r : FaultResult} (h : SpaceOk as)
    (ha : a < 2 ^ 32) (hrun : vmFault v (some as) file .write a resid = .ok (r, v')) :
    r = .handled ↔ asValidWriteAddr as a = true := by
  rw [asValidWriteAddr, ← asValidAddr_page h ha]
  unfold vmFault at hrun
  simp only at hrun
  by_cases hv : asValidAddr as (a &&& pageFrame) = true
  · simp only [faultSegment, asValidWriteAddr, hv, if_true] at hrun
    cases hg : asGetSegment as (a &&& pageFrame) with
    | none =>
      rw [hg] at hrun
      cases hrun
    | some i =>
      simp only [hg, raise_ok, ok_bind] at hrun
      obtain ⟨s₁, -, he⟩ := bind_eq_ok.mp hrun
      simp only [Except.ok.injEq, Prod.mk.injEq] at he
      simp [hv, ← he.1]
  · simp only [faultSegment, asValidWriteAddr, hv, if_false, raise_ok, ok_bind, Except.ok.injEq, Prod.mk.injEq,
      Bool.false_eq_true] at hrun
    simp [hv, ← hrun.1]

/-! ## The translations -/

/-- No translation with the dirty bit is for a page of a read-only segment: not by its address in the running space, and
not by its frame in any space. -/
def DirtyWriteable (s : Sys) (as : AddrSpace) : Prop :=
  ∀ k < numTlb, (s.vm.tlb.entries k).valid = true → (s.vm.tlb.entries k).dirty = true →
    (∃ i, asGetSegment as (s.vm.tlb.entries k).vpage = some i ∧ (as.segments i).writeable ≠ 0) ∧
      ∀ b bs i p, s.spaces b = some bs → bs.Has i p → (s.vm.pds p).valid = true →
        (s.vm.pds p).pfn * pageSize = (s.vm.tlb.entries k).ppage → (bs.segments i).writeable ≠ 0

theorem dirty_writeable (h : Reach step (fun s op => op.Allowed s ∧ op.Flushes s) (boot m) s) (hc : s.cur = some as) :
    DirtyWriteable s as := by
  intro k hk hv hd
  obtain ⟨G, own, hok, -⟩ := reach_ok true (fun _ _ hop => ⟨hop.1, fun _ => hop.2⟩) h
  obtain ⟨a, -, ha⟩ := Sys.cur_some hc
  obtain ⟨fl, hg⟩ := hok.idle.good
  obtain ⟨sl, hcore⟩ := hg.core
  obtain ⟨-, p, w, f, hp, hf, hu, hpp, hw⟩ := (hg.tlb _ (hok.view_cur hc)).entry k hk hv
  obtain ⟨i, hi, hhas, hva, rfl⟩ := view_has (hok.spaces.ok a as ha) hp
  have hwr : (as.segments i).writeable ≠ 0 := by simpa using hw hd
  refine ⟨⟨i, hi, hwr⟩, ?_⟩
  intro b bs j q hb hq hval hpq
  -- the frame has one owner, and the owner is a page of one segment
  have hlq : G.live q := (hok.tracks.live q).mpr (Sys.live_iff.mpr ⟨b, bs, j, hb, hq⟩)
  obtain ⟨g, -, hug, hpg, -⟩ := hcore.pg.resident hlq (Or.inr hval)
  have hgf : g = f := by
    rw [hpg, hpp] at hpq
    have hps : (0 : Int) < pageSize := by decide
    have := Int.eq_of_mul_eq_mul_right hps.ne' (hpq.trans (Int.natCast_mul ..))
    omega
  rw [hgf, hu] at hug
  obtain rfl := Owner.user.inj hug
  obtain ⟨-, rfl, rfl⟩ := hok.spaces.has_inj ha hhas hb hq
  exact hwr

/-! ## Both together -/

/-- `as_valid_write_addr` and the write fault keep to writeable segments exactly
at the addresses that no segment lets in without the right, and the translations
keep to them in every run in which each space that is activated flushes those of
a destroyed one. -/
theorem write_permission_iff {as : AddrSpace} {a : Nat} (hs : SpaceOk as) (ha : a < 2 ^ 32) :
    ((asValidWriteAddr as a = true → InWriteable as a) ↔ WriteGuarded as a) ∧
      (∀ v file resid r v', vmFault v (some as) file .write a resid = .ok (r, v') →
        ((r = .handled → InWriteable as a) ↔ WriteGuarded as a)) ∧
      ∀ m s cur, Reach step (fun s op => op.Allowed s ∧ op.Flushes s) (boot m) s → s.cur = some cur →
        DirtyWriteable s cur := by
  refine ⟨writeGuarded_iff hs, ?_, fun m s cur => dirty_writeable⟩
  intro v file resid r v' hrun
  rw [writeFault_handled hs ha hrun, writeGuarded_iff hs]

theorem write_permission_stack : InWriteable onePageSpace 0x7ffff000 ∧
    ∃ as, twoPages.cur = some as ∧ DirtyWriteable twoPages as := by
  obtain ⟨as, hc⟩ := Option.isSome_iff_exists.mp (show twoPages.cur.isSome = true by decide +kernel)
  have hstack : (onePageSpace.segments 2).Holds 0x7ffff000 := ⟨by decide, by decide, by decide⟩
  have hg : WriteGuarded onePageSpace 0x7ffff000 :=
    Or.inr fun _ _ _ => ⟨2, by decide, hstack, by decide⟩
  obtain ⟨hvalid, -, hdirty⟩ := write_permission_iff (a := 0x7ffff000) onePageSpace_built.ok (by decide)
  exact ⟨hvalid.mpr hg (by decide), as, hc, hdirty _ _ _ twoPages_flushes hc⟩

def onePage (flags : Nat) : List Phdr :=
  [{ pType := .load, pOffset := 0, pVaddr := 0x400000, pFilesz := 0, pMemsz := 0x1000, pFlags := flags }]

def pageWritten : Sys :=
  after (after (after (boot tiny) (.create 0 emptySegment 0 (onePage 6) [1] 0)) (.activate 0))
    (.fault .write 0x400000 0)

theorem pageWritten_reach : Runs tiny pageWritten ∧ pageWritten.Only 0 := by
  have h := goesThrough_reach (P := fun _ _ => true) (s := boot tiny) (a := 0)
    (l := [.create 0 emptySegment 0 (onePage 6) [1] 0, .activate 0, .fault .write 0x400000 0])
    (fun _ _ => rfl) (by decide +kernel)
  simp only [List.foldl_cons, List.foldl_nil] at h
  exact ⟨h.1.weaken fun _ _ h => h.1, h.2⟩

def readOnlyNext : Sys :=
  after (after (after pageWritten (.destroy 0)) (.create 0 emptySegment 0 (onePage 5) [3] 2)) (.activate 0)

theorem readOnlyNext_runs : Runs tiny readOnlyNext := by
  have h := goesThrough_reach (P := fun _ _ => true) (s := pageWritten) (a := 0)
    (l := [.destroy 0, .create 0 emptySegment 0 (onePage 5) [3] 2, .activate 0]) pageWritten_reach.2 (by decide +kernel)
  simp only [List.foldl_cons, List.foldl_nil] at h
  exact pageWritten_reach.1.trans (h.1.weaken fun _ _ h => h.1)

theorem read_only_is_written :
    (asValidWriteAddr onePageSpace 0x400000 = true ∧ ¬ InWriteable onePageSpace 0x400000) ∧
    (asValidWriteAddr onePageSpace 0x401000 = true ∧ ¬ InWriteable onePageSpace 0x401000) ∧
    (∃ v, vmFault (oneFreeFrame 0) (some onePageSpace) [] .write 0x400000 0 = .ok (.handled, v)) ∧
    Runs tiny readOnlyNext ∧ (readOnlyNext.vm.tlb.entries 0).valid = true ∧
      (readOnlyNext.vm.tlb.entries 0).dirty = true ∧ (readOnlyNext.vm.tlb.entries 0).vpage = 0x400000 ∧
      (readOnlyNext.cur.bind fun as => (asGetSegment as 0x400000).map fun i => (as.segments i).writeable) = some 0 :=
  ⟨by decide, by decide, ⟨_, rfl⟩, readOnlyNext_runs, by decide +kernel⟩

end Os161
